import DotGraph.Proofs.Grammar.Follow
import DotGraph.Proofs.Reader.CompleteName

namespace DotGraph.TokenReader

/-! Statements: a reader that comes to the tokens of an eager derivation which is not too deep takes
them, and returns the tree of the derivation. -/

open DotGraph.Grammar

/-- So many blocks may be opened inside each other. -/
def HasRoom (reader : TokenReader) (levels : Nat) : Prop :=
  reader.depth + levels ≤ maxNesting

theorem Takes.hasRoom {source target : TokenReader} {spelling : List Lexeme} {levels : Nat}
    (h : source.Takes spelling target) (hroom : source.HasRoom levels) : target.HasRoom levels := by
  unfold HasRoom
  rwa [h.depth_eq]

/-- What a reader of blocks has to do for the statements around it. -/
def BlockReader.Complete (inner : BlockReader) (levels : Nat) : Prop :=
  ∀ (opened : Position) (before : Array Tree.Statement) (reader : TokenReader)
    (semicolon : Option (Sign .semicolon)) (body : Statements) (closing : Sign .rBrace)
    (rest : List Lexeme), reader.HasRoom levels →
    reader.unread =
      semicolon.elim [] Terminal.yield ++ (body.yield ++ (closing.yield ++ rest)) →
    (before.isEmpty → semicolon = none) → body.Eager → body.nesting < levels →
    reader.Returns (inner.read opened before reader)
      (semicolon.elim [] Terminal.yield ++ (body.yield ++ closing.yield))
      (before.toList ++ body.trees)

variable {inner : BlockReader} {levels : Nat} {reader : TokenReader} {rest : List Lexeme}

theorem subgraph_returns (hinner : inner.Complete levels)
    (hroom : reader.HasRoom levels) {body : Grammar.Subgraph}
    (h : reader.unread = body.yield ++ rest) (heager : body.Eager)
    (hnesting : body.nesting ≤ levels) :
    reader.Returns (reader.subgraph inner) body.yield body.tree := by
  cases body with
  | bare opening statements closing =>
      have hunread : reader.unread =
          opening.yield ++ (statements.yield ++ (closing.yield ++ rest)) := by
        rw [h]
        simp only [Subgraph.yield, List.append_assoc]
      obtain ⟨second, hexpect, htakes⟩ := expect_returns hunread
      obtain ⟨third, hread, htakesBody⟩ := hinner opening.position #[] second none statements
        closing rest (htakes.hasRoom hroom) (htakes.unread_of_append hunread) (fun _ => rfl) heager
        hnesting
      refine ⟨third, ?_, ?_⟩
      · simp only [subgraph, kind_of_unread_sign hunread, reduceCtorEq, if_false, hexpect, hread,
          position_eq hunread]
        rfl
      · simpa only [Subgraph.yield, Option.elim_none, List.nil_append, List.append_assoc] using
          htakes.trans htakesBody
  | headed keyword id opening statements closing =>
      have hunread : reader.unread = keyword.yield ++ (id.elim [] Terminal.yield ++
          (opening.yield ++ (statements.yield ++ (closing.yield ++ rest)))) := by
        rw [h]
        simp only [Subgraph.yield, List.append_assoc]
      have hkeyword := takes_advance_terminal hunread
      obtain ⟨second, hid, htakesId⟩ := ident?_returns (unread_advance hunread)
        (by simp [leading_append, Token.Kind.isId])
      have hsecond := htakesId.unread_of_append (unread_advance hunread)
      obtain ⟨third, hexpect, htakes⟩ := expect_returns hsecond
      obtain ⟨fourth, hread, htakesBody⟩ := hinner opening.position #[] third none statements
        closing rest ((hkeyword.trans (htakesId.trans htakes)).hasRoom hroom)
        (htakes.unread_of_append hsecond) (fun _ => rfl) heager hnesting
      refine ⟨fourth, ?_, ?_⟩
      · simp only [subgraph, kind_of_unread_sign hunread, if_true, hid, hexpect, hread,
          position_eq hunread]
        rfl
      · simpa only [Subgraph.yield, Option.elim_none, List.nil_append, List.append_assoc] using
          hkeyword.trans (htakesId.trans (htakes.trans htakesBody))

theorem group_returns {opening : Sign .lBrace} {first : NodeId} {more : List NodeId}
    {closing : Sign .rBrace}
    (h : reader.unread = (Endpoint.group opening first more closing).yield ++ rest)
    (heager : eagerNodes (first :: more)) :
    reader.Returns (reader.groupOrSubgraph inner)
      (Endpoint.group opening first more closing).yield
      (Endpoint.group opening first more closing).tree := by
  have hunread : reader.unread = opening.yield ++
      ((first :: more).flatMap NodeId.yield ++ (closing.yield ++ rest)) := by
    rw [h]
    simp only [Endpoint.yield, List.append_assoc]
  obtain ⟨second, hexpect, htakes⟩ := expect_returns hunread
  have hsecond := htakes.unread_of_append hunread
  obtain ⟨third, hnodes, htakesNodes⟩ := nodeIds_returns #[] hsecond
    (by rw [leading_append, leading_sign]; rfl) (by rw [leading_append, leading_sign]; decide)
    heager
  have hthird := htakesNodes.unread_of_append hsecond
  refine ⟨third.advance, ?_, ?_⟩
  · simp only [groupOrSubgraph, hexpect, hnodes, kind_of_unread_sign hthird]
    simp [Endpoint.tree]
  · simpa only [Endpoint.yield, List.append_assoc] using
      htakes.trans (htakesNodes.trans (takes_advance_terminal hthird))

theorem braces_returns (hinner : inner.Complete levels)
    (hroom : reader.HasRoom levels) {opening : Sign .lBrace}
    {statements : Statements} {closing : Sign .rBrace}
    (h : reader.unread = (Subgraph.bare opening statements closing).yield ++ rest)
    (hgroup : statements.noGroup false) (heager : statements.Eager)
    (hnesting : statements.nesting < levels) :
    reader.Returns (reader.groupOrSubgraph inner)
      (Subgraph.bare opening statements closing).yield
      (.subgraph (Subgraph.bare opening statements closing).tree) := by
  obtain ⟨run⟩ := statements.exists_run hgroup heager
  have hunread : reader.unread = opening.yield ++ (run.nodes.flatMap NodeId.yield ++
      (run.semicolon.elim [] Terminal.yield ++ (run.body.yield ++ (closing.yield ++ rest)))) := by
    rw [h]
    simp only [Subgraph.yield, run.yield_eq, List.append_assoc]
  have hnext : leading .endOfInput
      (run.semicolon.elim [] Terminal.yield ++ (run.body.yield ++ (closing.yield ++ rest))) =
      leading .rBrace (run.semicolon.elim [] Terminal.yield ++ run.body.yield) := by
    simp only [leading_append, leading_sign]
  have hfollows := followsStatement_leading run.semicolon run.body closing .endOfInput rest
  obtain ⟨second, hexpect, htakes⟩ := expect_returns hunread
  have hsecond := htakes.unread_of_append hunread
  obtain ⟨third, hnodes, htakesNodes⟩ := nodeIds_returns #[] hsecond
    (by rw [hnext]; exact run.ends)
    (ne_of_admits hfollows (by decide))
    run.eagerNodes
  have hthird := htakesNodes.unread_of_append hsecond
  obtain ⟨fourth, hread, htakesBody⟩ := hinner opening.position
    ((#[] ++ (run.nodes.map NodeId.tree).toArray).map bareStatement) third run.semicolon run.body
    closing rest ((htakes.trans htakesNodes).hasRoom hroom) hthird
    (by simpa using run.semicolon_eq) run.eager
    (Nat.lt_of_le_of_lt run.nesting_le hnesting)
  refine ⟨fourth, ?_, ?_⟩
  · have hgoes : ¬ (third.kind = .rBrace ∧ run.nodes ≠ []) := by
      intro hends
      obtain ⟨hkind, hnodes⟩ := hends
      rw [kind_eq_leading, hthird, hnext] at hkind
      exact run.goesOn (.inr hnodes) hkind
    simp only [groupOrSubgraph, hexpect, hnodes, hread]
    rw [if_neg (by simpa using hgoes)]
    simp [Subgraph.tree, run.trees_eq]
  · simpa only [Subgraph.yield, run.yield_eq, List.append_assoc] using
      htakes.trans (htakesNodes.trans htakesBody)

theorem endpoint_returns (hinner : inner.Complete levels)
    (hroom : reader.HasRoom levels) {endpoint : Grammar.Endpoint}
    (h : reader.unread = endpoint.yield ++ rest) (hcolon : leading .endOfInput rest ≠ .colon)
    (heager : endpoint.Eager (leading .endOfInput rest)) (hnesting : endpoint.nesting ≤ levels) :
    reader.Returns (reader.endpoint inner) endpoint.yield (some endpoint.tree) := by
  unfold TokenReader.endpoint
  cases endpoint with
  | node node =>
      have hunread : reader.unread = node.yield ++ rest := h
      have hkind : reader.kind.isId := by
        rw [kind_of_unread hunread]
        exact node.id.admitted
      obtain ⟨target, hnode, htakes⟩ := nodeId_returns hunread hcolon heager
      rw [if_neg (ne_of_admits hkind rfl), if_neg (ne_of_admits hkind rfl), if_pos hkind, hnode]
      exact ⟨target, rfl, htakes⟩
  | group opening first more closing =>
      have hkind : reader.kind = .lBrace := by
        rw [kind_of_unread h]
        simp only [Endpoint.yield, leading_append, leading_sign]
      obtain ⟨target, hgroup, htakes⟩ := @group_returns inner _ _ _ _ _ _ h heager
      rw [if_neg (by simp [hkind]), if_pos hkind, hgroup]
      exact ⟨target, rfl, htakes⟩
  | subgraph body =>
      have hunread : reader.unread = body.yield ++ rest := h
      cases body with
      | bare opening statements closing =>
          have hkind : reader.kind = .lBrace := by
            rw [kind_of_unread hunread]
            simp only [Subgraph.yield, leading_append, leading_sign]
          obtain ⟨target, hbraces, htakes⟩ :=
            braces_returns hinner hroom hunread heager.1 heager.2 hnesting
          rw [if_neg (by simp [hkind]), if_pos hkind, hbraces]
          exact ⟨target, rfl, htakes⟩
      | headed keyword id opening statements closing =>
          have hkind : reader.kind = .subgraph := by
            rw [kind_of_unread hunread]
            simp only [Subgraph.yield, leading_append, leading_sign]
          obtain ⟨target, hsubgraph, htakes⟩ :=
            subgraph_returns hinner hroom hunread heager.2 hnesting
          rw [if_pos hkind, hsubgraph]
          exact ⟨target, rfl, htakes⟩

/-- One edge operator with its endpoint, in front of other ones. -/
theorem hops_link (hinner : inner.Complete levels)
    (hroom : reader.HasRoom levels) (before : Array Tree.Hop) {link : Link}
    (h : reader.unread = link.yield ++ rest) (hcolon : leading .endOfInput rest ≠ .colon)
    (heager : link.Eager (leading .endOfInput rest)) (hnesting : link.nesting ≤ levels) :
    ∃ target, reader.hops inner before = target.hops inner (before.push link.tree) ∧
      reader.Takes link.yield target := by
  obtain ⟨op, endpoint⟩ := link
  have hunread : reader.unread = op.yield ++ (endpoint.yield ++ rest) := by
    rw [h]
    simp only [Link.yield, List.append_assoc]
  have hkind := kind_of_unread_terminal hunread
  obtain ⟨target, hendpoint, htakes⟩ :=
    endpoint_returns hinner ((takes_advance_terminal hunread).hasRoom hroom)
      (unread_advance hunread) hcolon heager hnesting
  refine ⟨target, ?_, (takes_advance_terminal hunread).trans htakes⟩
  rw [hops, dif_pos (by rw [hkind]; exact op.admitted)]
  simp only [hendpoint, hkind]
  rfl

theorem hops_returns (hinner : inner.Complete levels) :
    (links : Links) → (before : Array Tree.Hop) → {reader : TokenReader} → reader.HasRoom levels →
    reader.unread = links.yield ++ rest → (leading .endOfInput rest).isEdgeOp = false →
    leading .endOfInput rest ≠ .colon → links.Eager (leading .endOfInput rest) →
    links.nesting ≤ levels →
    reader.Returns (reader.hops inner before) links.yield (before ++ links.trees.toArray)
  | .nil, before, reader, _, h, hop, _, _, _ => by
      rw [hops, dif_neg (by rw [kind_of_unread h]; simp [Links.yield, hop])]
      exact ⟨reader, by simp [Links.trees], .refl reader⟩
  | .cons link links, before, reader, hroom, h, hop, hcolon, heager, hnesting => by
      have hunread : reader.unread = link.yield ++ (links.yield ++ rest) := by
        rw [h, Links.yield, List.append_assoc]
      -- behind a link stands the edge operator of the next one, or what ends the links
      have hnext : leading .endOfInput (links.yield ++ rest) ≠ .colon := by
        cases links with
        | nil => exact hcolon
        | cons next links =>
            rw [Links.yield, List.append_assoc, leading_link]
            exact next.op.kind_ne rfl
      obtain ⟨second, hlink, htakes⟩ := hops_link hinner hroom before hunread hnext
        (by rw [leading_append]; exact heager.1) (Nat.le_trans (Nat.le_max_left _ _) hnesting)
      obtain ⟨third, hlinks, htakesLinks⟩ := hops_returns hinner links (before.push link.tree)
        (htakes.hasRoom hroom) (htakes.unread_of_append hunread) hop hcolon heager.2
        (Nat.le_trans (Nat.le_max_right _ _) hnesting)
      refine ⟨third, ?_, htakes.trans htakesLinks⟩
      rw [hlink, hlinks]
      simp [Links.trees]

theorem edgeStatement_returns (hinner : inner.Complete levels)
    (hroom : reader.HasRoom levels) (left : Tree.Endpoint)
    {first : Link} {more : Links} {attributes : Option Grammar.AttributeList}
    (h : reader.unread =
      first.yield ++ (more.yield ++ (attributes.elim [] AttributeList.yield ++ rest)))
    (hnext : followsStatement (leading .endOfInput rest))
    (hfirst : first.Eager (leading (leading .endOfInput rest)
      (more.yield ++ attributes.elim [] AttributeList.yield)))
    (hmore : more.Eager (leading (leading .endOfInput rest)
      (attributes.elim [] AttributeList.yield)))
    (hnesting : max first.nesting more.nesting ≤ levels) :
    reader.Returns (reader.edgeStatement inner left)
      (first.yield ++ (more.yield ++ attributes.elim [] AttributeList.yield))
      (.edge left.position left (first.tree :: more.trees)
        (attributes.map AttributeList.tree)) := by
  obtain ⟨hcolon, _, hop⟩ := followsNames_ne (followsNames_leading hnext attributes)
  rw [← leading_append] at hcolon hop hmore
  have hlinks : reader.unread = (Links.cons first more).yield ++
      (attributes.elim [] AttributeList.yield ++ rest) := by
    rw [h, Links.yield, List.append_assoc]
  obtain ⟨second, hhops, htakes⟩ := hops_returns hinner (.cons first more) #[] hroom hlinks hop
    hcolon ⟨by simpa only [leading_append] using hfirst, hmore⟩ hnesting
  obtain ⟨third, hattributes, htakesAttributes⟩ :=
    attributeList?_returns (htakes.unread_of_append hlinks) (followsStatement_ne hnext)
  refine ⟨third, ?_, ?_⟩
  · simp only [edgeStatement, hhops, hattributes]
    simp [Links.trees]
  · simpa only [Links.yield, List.append_assoc] using htakes.trans htakesAttributes

theorem identStatement_assign {key value : Id} {equal : Sign .equal}
    (h : reader.unread = (Grammar.Statement.assign key equal value).yield ++ rest) :
    reader.Returns (reader.identStatement inner) (Grammar.Statement.assign key equal value).yield
      (some (Grammar.Statement.assign key equal value).tree) := by
  have hunread : reader.unread = key.yield ++ (equal.yield ++ (value.yield ++ rest)) := by
    rw [h]
    simp only [Statement.yield, List.append_assoc]
  obtain ⟨second, hkey, htakesKey⟩ := ident_returns hunread
  have hsecond := htakesKey.unread_of_append hunread
  have hthird := unread_advance hsecond
  obtain ⟨fourth, hvalue, htakesValue⟩ := ident_returns hthird
  refine ⟨fourth, ?_, ?_⟩
  · simp only [identStatement, hkey, kind_of_unread_sign hsecond, if_true, assignment,
      isId_kind_of_unread hthird, hvalue]
    rfl
  · simpa only [Statement.yield, List.append_assoc] using
      htakesKey.trans ((takes_advance_terminal hsecond).trans htakesValue)

theorem identStatement_node {node : NodeId} {attributes : Option Grammar.AttributeList}
    (h : reader.unread = (Grammar.Statement.node node attributes).yield ++ rest)
    (hnext : followsStatement (leading .endOfInput rest))
    (heager : (Grammar.Statement.node node attributes).Eager (leading .endOfInput rest)) :
    reader.Returns (reader.identStatement inner)
      (Grammar.Statement.node node attributes).yield
      (some (Grammar.Statement.node node attributes).tree) := by
  have hunread : reader.unread = node.id.yield ++ (node.port.elim [] Port.yield ++
      (attributes.elim [] AttributeList.yield ++ rest)) := by
    rw [h]
    simp only [Statement.yield, NodeId.yield, List.append_assoc]
  obtain ⟨hcolon, hequal, hop⟩ := followsNames_ne (followsNames_leading hnext attributes)
  have hports : ∀ port ∈ node.port, port.Eager (leading (leading .endOfInput rest)
      (attributes.elim [] AttributeList.yield)) := heager
  rw [← leading_append] at hcolon hequal hop hports
  obtain ⟨second, hid, htakesId⟩ := ident_returns hunread
  have hsecond := htakesId.unread_of_append hunread
  have hkind : second.kind ≠ .equal := by
    rw [kind_of_unread hsecond]
    cases node.port with
    | none => exact hequal
    | some port => simp [Port.yield, leading_append]
  obtain ⟨third, hport, htakesPort⟩ := port?_returns hsecond hcolon hports
  have hthird := htakesPort.unread_of_append hsecond
  obtain ⟨fourth, hattributes, htakes⟩ :=
    attributeList?_returns hthird (followsStatement_ne hnext)
  refine ⟨fourth, ?_, (htakesId.trans htakesPort).trans htakes⟩
  simp only [identStatement, hid, hkind, if_false, hport, kind_eq_leading third, hthird, hop,
    hattributes]
  rfl

theorem identStatement_edge (hinner : inner.Complete levels)
    (hroom : reader.HasRoom levels) {node : NodeId} {first : Link}
    {more : Links} {attributes : Option Grammar.AttributeList}
    (h : reader.unread = (Grammar.Statement.edge (.node node) first more attributes).yield ++ rest)
    (hnext : followsStatement (leading .endOfInput rest))
    (heager : (Grammar.Statement.edge (.node node) first more attributes).Eager
      (leading .endOfInput rest))
    (hnesting : (Grammar.Statement.edge (.node node) first more attributes).nesting ≤ levels) :
    reader.Returns (reader.identStatement inner)
      (Grammar.Statement.edge (.node node) first more attributes).yield
      (some (Grammar.Statement.edge (.node node) first more attributes).tree) := by
  have hunread : reader.unread = node.id.yield ++ (node.port.elim [] Port.yield ++
      (first.yield ++ (more.yield ++ (attributes.elim [] AttributeList.yield ++ rest)))) := by
    rw [h]
    simp only [Statement.yield, Left.yield, NodeId.yield, List.append_assoc]
  have hop : leading .endOfInput (first.yield ++ (more.yield ++
      (attributes.elim [] AttributeList.yield ++ rest))) = first.op.kind :=
    leading_link _ first _
  obtain ⟨second, hid, htakesId⟩ := ident_returns hunread
  have hsecond := htakesId.unread_of_append hunread
  have hkind : second.kind ≠ .equal := by
    rw [kind_of_unread hsecond, hop]
    cases node.port with
    | none => exact first.op.kind_ne rfl
    | some port => simp [Port.yield, leading_append]
  obtain ⟨third, hport, htakesPort⟩ := port?_returns hsecond
    (by rw [hop]; exact first.op.kind_ne rfl)
    (by
      intro port _ _
      rw [hop]
      have hadmitted := first.op.admitted
      revert hadmitted
      show first.op.kind.isEdgeOp = true → _
      cases first.op.kind <;> decide)
  have hthird := htakesPort.unread_of_append hsecond
  obtain ⟨fourth, hedge, htakes⟩ := edgeStatement_returns hinner
    ((htakesId.trans htakesPort).hasRoom hroom) (.node node.tree) hthird hnext
    heager.2.1 heager.2.2 (Nat.le_trans (Nat.le_max_right _ _) hnesting)
  have hthirdKind : third.kind.isEdgeOp := by
    rw [kind_eq_leading third, hthird, hop]
    exact first.op.admitted
  refine ⟨fourth, ?_, ?_⟩
  · simp only [NodeId.tree, Id.tree] at hedge
    simp only [identStatement, hid, hkind, if_false, hport, hthirdKind, if_true, Id.tree, hedge]
    rfl
  · simpa only [Statement.yield, Left.yield, NodeId.yield, List.append_assoc] using
      htakesId.trans (htakesPort.trans htakes)

theorem defaultsStatement_returns {subject : Tree.Subject} {sign : Sign (keyword subject)}
    {attributes : Option Grammar.AttributeList}
    (h : reader.unread = (Grammar.Statement.defaults subject sign attributes).yield ++ rest)
    (hnext : followsStatement (leading .endOfInput rest)) :
    reader.Returns (reader.defaultsStatement subject)
      (Grammar.Statement.defaults subject sign attributes).yield
      (Grammar.Statement.defaults subject sign attributes).tree := by
  have hunread : reader.unread =
      sign.yield ++ (attributes.elim [] AttributeList.yield ++ rest) := by
    rw [h, Statement.yield, List.append_assoc]
  obtain ⟨target, hattributes, htakes⟩ :=
    attributeList?_returns (unread_advance hunread) (followsStatement_ne hnext)
  refine ⟨target, ?_, (takes_advance_terminal hunread).trans htakes⟩
  simp only [defaultsStatement, hattributes, position_eq hunread]
  rfl

theorem subgraphStatement_bare (hinner : inner.Complete levels)
    (hroom : reader.HasRoom levels) {body : Grammar.Subgraph}
    (h : reader.unread = body.yield ++ rest) (hnext : followsStatement (leading .endOfInput rest))
    (heager : body.Eager) (hnesting : body.nesting ≤ levels) :
    reader.Returns (reader.subgraphStatement inner) body.yield
      (Grammar.Statement.subgraph body).tree := by
  obtain ⟨target, hbody, htakes⟩ := subgraph_returns hinner hroom h heager hnesting
  have hop : target.kind.isEdgeOp = false := by
    rw [kind_eq_leading, htakes.unread_of_append h]
    exact (followsNames_ne (by simp [followsNames, hnext])).2.2
  refine ⟨target, ?_, htakes⟩
  simp only [subgraphStatement, hbody, hop]
  rfl

theorem subgraphStatement_edge (hinner : inner.Complete levels)
    (hroom : reader.HasRoom levels) {body : Grammar.Subgraph}
    {first : Link} {more : Links} {attributes : Option Grammar.AttributeList}
    (h : reader.unread =
      (Grammar.Statement.edge (.subgraph body) first more attributes).yield ++ rest)
    (hnext : followsStatement (leading .endOfInput rest))
    (heager : (Grammar.Statement.edge (.subgraph body) first more attributes).Eager
      (leading .endOfInput rest))
    (hnesting : (Grammar.Statement.edge (.subgraph body) first more attributes).nesting ≤ levels) :
    reader.Returns (reader.subgraphStatement inner)
      (Grammar.Statement.edge (.subgraph body) first more attributes).yield
      (Grammar.Statement.edge (.subgraph body) first more attributes).tree := by
  have hunread : reader.unread = body.yield ++ (first.yield ++ (more.yield ++
      (attributes.elim [] AttributeList.yield ++ rest))) := by
    rw [h]
    simp only [Statement.yield, Left.yield, List.append_assoc]
  obtain ⟨second, hbody, htakesBody⟩ := subgraph_returns hinner hroom hunread heager.1
    (Nat.le_trans (Nat.le_max_left _ _) hnesting)
  have hsecond := htakesBody.unread_of_append hunread
  have hop : second.kind.isEdgeOp := by
    rw [kind_eq_leading, hsecond, leading_link]
    exact first.op.admitted
  obtain ⟨third, hedge, htakes⟩ := edgeStatement_returns hinner (htakesBody.hasRoom hroom)
    (.subgraph body.tree) hsecond hnext heager.2.1 heager.2.2
    (Nat.le_trans (Nat.le_max_right _ _) hnesting)
  refine ⟨third, ?_, ?_⟩
  · simp only [subgraphStatement, hbody, hop, if_true, hedge]
    rfl
  · simpa only [Statement.yield, Left.yield, List.append_assoc] using htakesBody.trans htakes

theorem statement_of_subgraph (body : Grammar.Subgraph) (h : reader.unread = body.yield ++ rest) :
    reader.statement inner = (reader.subgraphStatement inner).map some id := by
  have hkind := leading_subgraph .endOfInput body rest
  rw [← h, ← kind_eq_leading] at hkind
  unfold statement
  rcases hkind with hkind | hkind <;> rw [hkind]

theorem statement_returns (hinner : inner.Complete levels)
    (hroom : reader.HasRoom levels) {statement : Grammar.Statement}
    (h : reader.unread = statement.yield ++ rest)
    (hnext : followsStatement (leading .endOfInput rest))
    (heager : statement.Eager (leading .endOfInput rest)) (hnesting : statement.nesting ≤ levels) :
    reader.Returns (reader.statement inner) statement.yield (some statement.tree) := by
  cases statement with
  | defaults subject sign attributes =>
      obtain ⟨target, hdefaults, htakes⟩ := defaultsStatement_returns h hnext
      have hkind : reader.kind = keyword subject := by
        rw [kind_of_unread h, Statement.yield, leading_append, leading_sign]
      refine ⟨target, ?_, htakes⟩
      unfold TokenReader.statement
      cases subject <;> simp only [hkind, keyword, hdefaults] <;> rfl
  | subgraph body =>
      obtain ⟨target, hbody, htakes⟩ := subgraphStatement_bare hinner hroom h hnext heager hnesting
      rw [statement_of_subgraph body h, hbody]
      exact ⟨target, rfl, htakes⟩
  | assign key equal value =>
      rw [statement_of_isId (by rw [kind_of_unread h]; exact key.admitted)]
      exact identStatement_assign h
  | node node attributes =>
      rw [statement_of_isId (by rw [kind_of_unread h]; exact node.id.admitted)]
      exact identStatement_node h hnext heager
  | edge left first more attributes =>
      cases left with
      | node node =>
          rw [statement_of_isId (by rw [kind_of_unread h]; exact node.id.admitted)]
          exact identStatement_edge hinner hroom h hnext heager hnesting
      | subgraph body =>
          obtain ⟨target, hedge, htakes⟩ :=
            subgraphStatement_edge hinner hroom h hnext heager hnesting
          have hunread : reader.unread = body.yield ++ (first.yield ++ (more.yield ++
              (attributes.elim [] AttributeList.yield ++ rest))) := by
            rw [h]
            simp only [Statement.yield, Left.yield, List.append_assoc]
          rw [statement_of_subgraph body hunread, hedge]
          exact ⟨target, rfl, htakes⟩

end DotGraph.TokenReader
