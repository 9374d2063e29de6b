import DotGraph.Proofs.Grammar.Follow
import DotGraph.Proofs.Reader.SoundName

namespace DotGraph.TokenReader

/-! Statements that are read without a fault have been derived by the grammar, and the derivation is
eager and no deeper than the reader goes. -/

open DotGraph.Grammar

/-- What a reader of blocks has to do for the statements around it. -/
def BlockReader.Sound (inner : BlockReader) (levels : Nat) : Prop :=
  ∀ opened before reader,
    FaultOr reader (inner.read opened before reader).2 fun spelling =>
      ∃ (semicolon : Option (Sign .semicolon)) (body : Statements) (closing : Sign .rBrace),
        semicolon.elim [] Terminal.yield ++ body.yield ++ closing.yield = spelling ∧
        (inner.read opened before reader).1 = before.toList ++ body.trees ∧
        (before.isEmpty → semicolon = none) ∧ body.Eager ∧ body.nesting < levels

variable {inner : BlockReader} {levels : Nat}

theorem faultOr_subgraph (hinner : inner.Sound levels) (reader : TokenReader) :
    FaultOr reader (reader.subgraph inner).2 fun spelling =>
      ∃ body : Grammar.Subgraph, body.yield = spelling ∧
        body.tree = (reader.subgraph inner).1 ∧ body.Eager ∧ body.nesting ≤ levels ∧
        (reader.kind = .subgraph → body.noGroup) := by
  by_cases hkind : reader.kind = .subgraph
  · obtain ⟨keyword, hunread⟩ := exists_sign hkind (by decide)
    have hopening := @faultOr_expect reader.advance.ident?.2 .lBrace (by decide)
    have hbody := hinner (reader.advance.ident?.2.expect .lBrace).1 #[]
      (reader.advance.ident?.2.expect .lBrace).2
    simp only [subgraph, hkind, if_true]
    refine ((((faultOr_advance hunread).append (faultOr_ident? reader.advance)).append
      (hopening.append hbody))).mono ?_
    intro spelling _ described
    obtain ⟨_, _, rfl, ⟨_, _, rfl, rfl, id, rfl, hid, _⟩, _, _, rfl, ⟨opening, rfl, _⟩, semicolon,
      statements, closing, rfl, htrees, hnone, heager, hnesting⟩ := described
    obtain rfl := hnone rfl
    refine ⟨.headed keyword id opening statements closing, ?_, ?_, heager, hnesting,
      fun _ => rfl⟩
    · simp [Subgraph.yield]
    · simp only [Subgraph.tree, hid, htrees, position_eq hunread]
      rfl
  · have hopening := @faultOr_expect reader .lBrace (by decide)
    have hbody := hinner (reader.expect .lBrace).1 #[] (reader.expect .lBrace).2
    simp only [subgraph, hkind, if_false]
    refine (hopening.append hbody).mono ?_
    intro spelling _ described
    obtain ⟨_, _, rfl, ⟨opening, rfl, hposition⟩, semicolon, statements, closing, rfl, htrees,
      hnone, heager, hnesting⟩ := described
    obtain rfl := hnone rfl
    refine ⟨.bare opening statements closing, ?_, ?_, heager, hnesting, by simp⟩
    · simp [Subgraph.yield]
    · simp only [Subgraph.tree, htrees, hposition]
      rfl

theorem faultOr_groupOrSubgraph (hinner : inner.Sound levels) (reader : TokenReader) :
    FaultOr reader (reader.groupOrSubgraph inner).2 fun spelling =>
      ∃ endpoint : Grammar.Endpoint, endpoint.yield = spelling ∧
        endpoint.tree = (reader.groupOrSubgraph inner).1 ∧
        endpoint.Eager (reader.groupOrSubgraph inner).2.kind ∧ endpoint.nesting ≤ levels := by
  have hopening := @faultOr_expect reader .lBrace (by decide)
  have hnodes := faultOr_nodeIds #[] (reader.expect .lBrace).2
  unfold groupOrSubgraph
  simp only
  split
  · rename_i h
    obtain ⟨hkind, hsome⟩ : ((reader.expect .lBrace).2.nodeIds #[]).2.kind = .rBrace ∧
        ((reader.expect .lBrace).2.nodeIds #[]).1 ≠ #[] := by
      simpa using h
    obtain ⟨closing, hunread⟩ := exists_sign hkind (by decide)
    refine ((hopening.append hnodes).append (faultOr_advance hunread)).mono ?_
    intro spelling _ described
    obtain ⟨_, _, rfl, ⟨_, _, rfl, ⟨opening, rfl, hposition⟩, nodes, rfl, htrees, heager, _⟩, rfl⟩
      := described
    cases nodes with
    | nil => exact absurd (by simpa using htrees) hsome
    | cons first more =>
        refine ⟨.group opening first more closing, rfl, ?_, heager, Nat.zero_le _⟩
        simp only [Endpoint.tree, htrees, hposition]
        rfl
  · rename_i h
    have hbody := hinner (reader.expect .lBrace).1
      (((reader.expect .lBrace).2.nodeIds #[]).1.map bareStatement)
      ((reader.expect .lBrace).2.nodeIds #[]).2
    refine ((hopening.append hnodes).append hbody.and_takes).mono ?_
    intro spelling _ described
    obtain ⟨_, _, rfl, ⟨_, _, rfl, ⟨opening, rfl, hposition⟩, nodes, rfl, htrees, heagers, hlast⟩,
      htakes, semicolon, statements, closing, rfl, hbodyTrees, hnone, heager, hnesting⟩ := described
    have hkind : ((reader.expect .lBrace).2.nodeIds #[]).2.kind =
        leading .rBrace (semicolon.elim [] Terminal.yield ++ statements.yield) := by
      rw [htakes.kind_eq, leading_append, leading_sign]
    rw [hkind] at hlast
    have hbefore : (((reader.expect .lBrace).2.nodeIds #[]).1.map bareStatement).toList =
        nodes.map fun node => bareStatement node.tree := by
      rw [Array.toList_map, htrees]
      simp
    rw [hbefore] at hbodyTrees
    cases nodes with
    | nil =>
        obtain rfl := hnone (by simpa using hbefore)
        refine ⟨.subgraph (.bare opening statements closing), ?_, ?_, ⟨?_, heager⟩, hnesting⟩
        · simp [Endpoint.yield, Subgraph.yield]
        · simp only [Endpoint.tree, Subgraph.tree, hbodyTrees, hposition]
          rfl
        · exact Statements.noGroup_of_leading statements hlast (by simp)
    | cons first more =>
        refine ⟨.subgraph (.bare opening (.startingWith semicolon statements first more) closing),
          ?_, ?_, ⟨?_, ?_⟩, ?_⟩
        · simp [Endpoint.yield, Subgraph.yield, Statements.yield_startingWith]
        · simp only [Endpoint.tree, Subgraph.tree, Statements.trees_startingWith, hbodyTrees,
            hposition]
        · refine Statements.noGroup_startingWith semicolon statements false first more ?_
          cases semicolon with
          | some semicolon => rfl
          | none =>
              refine Statements.noGroup_of_leading statements hlast ?_
              -- otherwise the braces would hold nothing but the nodes
              rintro - rfl
              have hsome : ((reader.expect .lBrace).2.nodeIds #[]).1.isEmpty = false := by
                simpa using congrArg List.isEmpty htrees
              exact h (by rw [hkind, hsome]; rfl)
        · exact Statements.eager_startingWith semicolon statements first more heagers heager hlast
        · rw [Endpoint.nesting, Subgraph.nesting, Statements.nesting_startingWith]
          exact hnesting

theorem faultOr_endpoint (hinner : inner.Sound levels) (reader : TokenReader) :
    FaultOr reader (reader.endpoint inner).2 fun spelling =>
      ∃ endpoint : Grammar.Endpoint, endpoint.yield = spelling ∧
        some endpoint.tree = (reader.endpoint inner).1 ∧
        endpoint.Eager (reader.endpoint inner).2.kind ∧ endpoint.nesting ≤ levels := by
  unfold endpoint
  split
  · rename_i h
    refine (faultOr_subgraph hinner reader).mono ?_
    intro spelling _ described
    obtain ⟨body, hyield, htree, heager, hnesting, hgroup⟩ := described
    exact ⟨.subgraph body, hyield, congrArg (some ∘ Tree.Endpoint.subgraph) htree,
      ⟨hgroup h, heager⟩, hnesting⟩
  split
  · refine (faultOr_groupOrSubgraph hinner reader).mono ?_
    intro spelling _ described
    obtain ⟨endpoint, hyield, htree, heager, hnesting⟩ := described
    exact ⟨endpoint, hyield, congrArg some htree, heager, hnesting⟩
  split
  · refine (faultOr_nodeId reader).mono ?_
    intro spelling _ described
    obtain ⟨node, hyield, htree, heager⟩ := described
    exact ⟨.node node, hyield, congrArg (some ∘ Tree.Endpoint.node) htree, heager,
      Nat.zero_le _⟩
  · exact .inl (faults_report_lt reader _)

theorem faultOr_hops (hinner : inner.Sound levels) (before : Array Tree.Hop)
    (reader : TokenReader) :
    FaultOr reader (reader.hops inner before).2 fun spelling =>
      ∃ links : Links, links.yield = spelling ∧
        (reader.hops inner before).1.toList = before.toList ++ links.trees ∧
        links.Eager (reader.hops inner before).2.kind ∧ links.nesting ≤ levels ∧
        (reader.kind.isEdgeOp → links ≠ .nil) := by
  fun_induction hops inner before reader with
  | case1 before reader h next endpoint hsome ih =>
      obtain ⟨op, hunread⟩ : ∃ op : EdgeOp, reader.unread = op.lexeme :: reader.advance.unread :=
        exists_terminal h rfl
      refine (((faultOr_advance hunread).append (faultOr_endpoint hinner reader.advance)).append ih.and_takes).mono ?_
      intro spelling _ described
      obtain ⟨_, _, rfl, ⟨_, _, rfl, rfl, derived, rfl, htree, heager, hnesting⟩, htakes, links,
        rfl, htrees, heagers, hnestings, _⟩ := described
      obtain rfl : derived.tree = endpoint := Option.some.inj (htree.trans hsome)
      refine ⟨.cons ⟨op, derived⟩ links, rfl, ?_, ⟨?_, heagers⟩, ?_, by simp⟩
      · have hkind : op.kind = reader.kind := (kind_eq hunread).symm
        rw [htrees, Array.toList_push, List.append_assoc, Links.trees, Link.tree, hkind]
        rfl
      · rw [Link.Eager, ← htakes.kind_eq]
        exact heager
      · exact Nat.max_le.mpr ⟨hnesting, hnestings⟩
  | case2 before reader h next hnone =>
      obtain ⟨op, hunread⟩ : ∃ op : EdgeOp, reader.unread = op.lexeme :: reader.advance.unread :=
        exists_terminal h rfl
      refine ((faultOr_advance hunread).append (faultOr_endpoint hinner reader.advance)).mono ?_
      intro spelling _ described
      obtain ⟨_, _, rfl, rfl, derived, rfl, htree, _⟩ := described
      exact absurd (htree.trans hnone) (by simp)
  | case3 before reader h =>
      exact .nothing reader ⟨.nil, rfl, by simp [Links.trees], trivial, Nat.zero_le _,
        fun hop => absurd hop h⟩

theorem faultOr_edgeStatement (hinner : inner.Sound levels) (left : Tree.Endpoint)
    {reader : TokenReader} (h : reader.kind.isEdgeOp) :
    FaultOr reader (reader.edgeStatement inner left).2 fun spelling =>
      ∃ (first : Link) (more : Links) (attributes : Option AttributeList),
        first.yield ++ more.yield ++ attributes.elim [] AttributeList.yield = spelling ∧
        Tree.Statement.edge left.position left (first.tree :: more.trees)
          (attributes.map AttributeList.tree) = (reader.edgeStatement inner left).1 ∧
        first.Eager (leading (reader.edgeStatement inner left).2.kind
          (more.yield ++ attributes.elim [] AttributeList.yield)) ∧
        more.Eager (leading (reader.edgeStatement inner left).2.kind
          (attributes.elim [] AttributeList.yield)) ∧
        max first.nesting more.nesting ≤ levels := by
  have hhops := faultOr_hops hinner #[] reader
  have hattributes := faultOr_attributeList? (reader.hops inner #[]).2
  refine (hhops.append hattributes.and_takes).mono ?_
  intro spelling _ described
  obtain ⟨_, _, rfl, ⟨links, rfl, htrees, heager, hnesting, hsome⟩, htakes, attributes, rfl,
    hattributes⟩ := described
  cases links with
  | nil => exact absurd rfl (hsome h)
  | cons first more =>
      rw [htakes.kind_eq] at heager
      refine ⟨first, more, attributes, rfl, ?_, ?_, heager.2, hnesting⟩
      · simp only [edgeStatement, htrees, hattributes]
        rfl
      · rw [leading_append]
        exact heager.1

theorem faultOr_assignment {reader : TokenReader} (key : Tree.Ident)
    (h : reader.kind = .equal) :
    FaultOr reader (reader.assignment key).2 fun spelling =>
      ∃ (equal : Sign .equal) (value : Id), equal.yield ++ value.yield = spelling ∧
        some (Tree.Statement.assign key.position key value.tree) = (reader.assignment key).1 := by
  obtain ⟨equal, hunread⟩ := exists_sign h (by decide)
  unfold assignment
  simp only
  split
  · refine ((faultOr_advance hunread).append (faultOr_ident reader.advance)).mono ?_
    intro spelling _ described
    obtain ⟨_, _, rfl, rfl, value, rfl, htree⟩ := described
    refine ⟨equal, value, rfl, ?_⟩
    rw [htree]
  · exact .inl (faults_report_lt reader.advance _)

theorem faultOr_identStatement (hinner : inner.Sound levels) (reader : TokenReader) :
    FaultOr reader (reader.identStatement inner).2 fun spelling =>
      ∃ statement : Grammar.Statement, statement.yield = spelling ∧
        some statement.tree = (reader.identStatement inner).1 ∧
        statement.Eager (reader.identStatement inner).2.kind ∧ statement.nesting ≤ levels := by
  have hident := faultOr_ident reader
  unfold identStatement
  simp only
  split
  · rename_i h
    refine (hident.append (faultOr_assignment reader.ident.1 h)).mono ?_
    intro spelling _ described
    obtain ⟨_, _, rfl, ⟨key, rfl, hkey⟩, equal, value, rfl, htree⟩ := described
    refine ⟨.assign key equal value, ?_, ?_, trivial, Nat.zero_le _⟩
    · simp only [Statement.yield, List.append_assoc]
    · rw [← htree, ← hkey]
      rfl
  have hport := faultOr_port? reader.ident.2
  split
  · rename_i h
    have hedge := faultOr_edgeStatement hinner
      (.node ⟨reader.ident.1.position, reader.ident.1, reader.ident.2.port?.1⟩) h
    refine ((hident.append hport).append hedge).mono ?_
    intro spelling _ described
    obtain ⟨_, _, rfl, ⟨_, _, rfl, ⟨id, rfl, hid⟩, port, rfl, hport, _⟩, first, more, attributes,
      rfl, htree, hfirst, hmore, hnesting⟩ := described
    refine ⟨.edge (.node ⟨id, port⟩) first more attributes, ?_, ?_,
      ⟨trivial, hfirst, hmore⟩, ?_⟩
    · simp only [Statement.yield, Left.yield, NodeId.yield, List.append_assoc]
    · rw [← htree, ← hid, ← hport]
      rfl
    · exact Nat.max_le.mpr ⟨Nat.zero_le _, hnesting⟩
  · have hattributes := faultOr_attributeList? reader.ident.2.port?.2
    refine ((hident.append hport).append hattributes.and_takes).mono ?_
    intro spelling _ described
    obtain ⟨_, _, rfl, ⟨_, _, rfl, ⟨id, rfl, hid⟩, port, rfl, hport, heager⟩, htakes, attributes,
      rfl, hattributes⟩ := described
    rw [htakes.kind_eq] at heager
    refine ⟨.node ⟨id, port⟩ attributes, rfl, ?_, heager, Nat.zero_le _⟩
    rw [← hattributes, ← hid, ← hport]
    rfl

theorem faultOr_defaultsStatement (subject : Tree.Subject) {reader : TokenReader}
    (h : reader.kind = keyword subject) :
    FaultOr reader (reader.defaultsStatement subject).2 fun spelling =>
      ∃ statement : Grammar.Statement, statement.yield = spelling ∧
        statement.tree = (reader.defaultsStatement subject).1 ∧
        statement.Eager (reader.defaultsStatement subject).2.kind ∧
        statement.nesting ≤ levels := by
  obtain ⟨sign, hunread⟩ := exists_sign h (by cases subject <;> decide)
  have hattributes := faultOr_attributeList? reader.advance
  refine ((faultOr_advance hunread).append hattributes).mono ?_
  intro spelling _ described
  obtain ⟨_, _, rfl, rfl, attributes, rfl, htree⟩ := described
  refine ⟨.defaults subject sign attributes, rfl, ?_, trivial, Nat.zero_le _⟩
  simp only [Statement.tree, defaultsStatement, htree, position_eq hunread]
  rfl

theorem faultOr_subgraphStatement (hinner : inner.Sound levels) (reader : TokenReader) :
    FaultOr reader (reader.subgraphStatement inner).2 fun spelling =>
      ∃ statement : Grammar.Statement, statement.yield = spelling ∧
        statement.tree = (reader.subgraphStatement inner).1 ∧
        statement.Eager (reader.subgraphStatement inner).2.kind ∧
        statement.nesting ≤ levels := by
  have hsubgraph := faultOr_subgraph hinner reader
  unfold subgraphStatement
  simp only
  split
  · rename_i h
    have hedge := faultOr_edgeStatement hinner (.subgraph (reader.subgraph inner).1) h
    refine (hsubgraph.append hedge).mono ?_
    intro spelling _ described
    obtain ⟨_, _, rfl, ⟨body, rfl, hbody, heager, hdepth, _⟩, first, more, attributes, rfl, htree,
      hfirst, hmore, hnesting⟩ := described
    refine ⟨.edge (.subgraph body) first more attributes, ?_, ?_,
      ⟨heager, hfirst, hmore⟩, Nat.max_le.mpr ⟨hdepth, hnesting⟩⟩
    · simp only [Statement.yield, Left.yield, List.append_assoc]
    · rw [← htree, ← hbody]
      rfl
  · refine hsubgraph.mono ?_
    intro spelling _ described
    obtain ⟨body, hyield, htree, heager, hnesting, _⟩ := described
    exact ⟨.subgraph body, hyield, congrArg Tree.Statement.subgraph htree, heager, hnesting⟩

theorem faultOr_statement (hinner : inner.Sound levels) (reader : TokenReader) :
    FaultOr reader (reader.statement inner).2 fun spelling =>
      ∃ statement : Grammar.Statement, statement.yield = spelling ∧
        some statement.tree = (reader.statement inner).1 ∧
        statement.Eager (reader.statement inner).2.kind ∧ statement.nesting ≤ levels := by
  have always : ∀ result : Tree.Statement × TokenReader,
      FaultOr reader result.2 (fun spelling =>
        ∃ statement : Grammar.Statement, statement.yield = spelling ∧
          statement.tree = result.1 ∧ statement.Eager result.2.kind ∧
          statement.nesting ≤ levels) →
      FaultOr reader result.2 fun spelling =>
        ∃ statement : Grammar.Statement, statement.yield = spelling ∧
          some statement.tree = some result.1 ∧ statement.Eager result.2.kind ∧
          statement.nesting ≤ levels := by
    intro result h
    refine h.mono ?_
    intro spelling _ described
    obtain ⟨statement, hyield, htree, heager, hnesting⟩ := described
    exact ⟨statement, hyield, congrArg some htree, heager, hnesting⟩
  have hsubgraph := always _ (faultOr_subgraphStatement hinner reader)
  unfold statement
  split
  · rename_i h; exact always _ (faultOr_defaultsStatement .graph h)
  · rename_i h; exact always _ (faultOr_defaultsStatement .node h)
  · rename_i h; exact always _ (faultOr_defaultsStatement .edge h)
  · exact hsubgraph
  · exact hsubgraph
  · exact faultOr_identStatement hinner reader
  · exact faultOr_identStatement hinner reader
  · exact faultOr_identStatement hinner reader
  · exact .inl (faults_report_lt reader _)

theorem faultOr_statements (hinner : inner.Sound levels) (before : Array Tree.Statement)
    (reader : TokenReader) :
    FaultOr reader (reader.statements inner before).2 fun spelling =>
      ∃ body : Statements, body.yield = spelling ∧
        (reader.statements inner before).1.toList = before.toList ++ body.trees ∧
        ((reader.statements inner before).2.kind = .rBrace → body.Eager) ∧
        body.nesting ≤ levels := by
  fun_induction statements inner before reader with
  | case1 before reader h =>
      exact .nothing reader ⟨.nil, rfl, by simp [Statements.trees], fun _ => trivial,
        Nat.zero_le _⟩
  | case2 before reader h next ih =>
      have hsemicolon := @faultOr_skipOver (reader.statement inner).2 [.semicolon]
        (· == .semicolon) (by decide) rfl
      refine ((faultOr_statement hinner reader).append (hsemicolon.append ih).and_takes).mono ?_
      intro spelling _ described
      obtain ⟨_, _, rfl, ⟨statement, rfl, htree, heager, hnesting⟩, htakes, _, _, rfl,
        ⟨semicolon, rfl⟩, body, rfl, htrees, heagers, hnestings⟩ := described
      refine ⟨.cons statement semicolon body, ?_, ?_, ?_, Nat.max_le.mpr ⟨hnesting, hnestings⟩⟩
      · simp only [Statements.yield, List.append_assoc]
      · have hnext : next.1 = some statement.tree := htree.symm
        rw [htrees, hnext]
        simp [Statements.trees]
      · intro hclosed
        rw [htakes.kind_eq, hclosed] at heager
        exact ⟨heager, heagers hclosed⟩

theorem faultOr_block (hinner : inner.Sound levels) (before : Array Tree.Statement)
    (reader : TokenReader) :
    FaultOr reader (reader.block inner before).2 fun spelling =>
      ∃ (semicolon : Option (Sign .semicolon)) (body : Statements) (closing : Sign .rBrace),
        semicolon.elim [] Terminal.yield ++ body.yield ++ closing.yield = spelling ∧
        (reader.block inner before).1 = before.toList ++ body.trees ∧
        (before.isEmpty → semicolon = none) ∧ body.Eager ∧ body.nesting ≤ levels := by
  have hsemicolon : FaultOr reader.enter
      (if before.isEmpty then reader.enter else reader.enter.skipOver [.semicolon]) fun spelling =>
      ∃ semicolon : Option (Sign .semicolon), semicolon.elim [] Terminal.yield = spelling ∧
        (before.isEmpty → semicolon = none) := by
    split
    · exact .nothing reader.enter ⟨none, rfl, fun _ => rfl⟩
    · rename_i h
      refine (@faultOr_skipOver reader.enter _ (· == .semicolon) (by decide) rfl).mono ?_
      intro spelling _ described
      obtain ⟨semicolon, hyield⟩ := described
      exact ⟨semicolon, hyield, fun hempty => absurd hempty h⟩
  have hclosing := fun source => @faultOr_expect source .rBrace (by decide)
  refine ((hsemicolon.append (faultOr_statements hinner before _)).enclose.append
    (hclosing _).and_takes).mono ?_
  intro spelling _ described
  obtain ⟨_, _, rfl, ⟨_, _, rfl, ⟨semicolon, rfl, hnone⟩, body, rfl, htrees, heager, hnesting⟩,
    htakes, closing, rfl, _⟩ := described
  exact ⟨semicolon, body, closing, rfl, htrees, hnone,
    heager (htakes.kind_eq.trans (leading_sign _ closing)), hnesting⟩

theorem faults_skipBlock (opened : Nat) (reader : TokenReader) :
    (reader.skipBlock opened).faults = reader.faults := by
  fun_induction skipBlock opened reader with
  | case1 => rfl
  | case2 _ _ _ _ ih => exact ih
  | case3 => rfl
  | case4 _ _ _ _ _ ih => exact ih
  | case5 _ _ _ _ _ ih => exact ih

theorem faults_tooDeep_lt (opened : Position) (before : Array Tree.Statement)
    (reader : TokenReader) :
    reader.faults.size < (reader.tooDeep opened before).2.faults.size := by
  simp [tooDeep, faults_skipBlock, reportAt]

theorem blockReader_sound (levels : Nat) : (blockReader levels).Sound levels := by
  induction levels with
  | zero => exact fun opened before reader => .inl (faults_tooDeep_lt opened before reader)
  | succ levels ih =>
      intro opened before reader
      rw [read_blockReader_succ]
      split
      case isFalse => exact .inl (faults_tooDeep_lt opened before reader)
      refine (faultOr_block ih before reader).mono ?_
      intro spelling _ described
      obtain ⟨semicolon, body, closing, hyield, htrees, hnone, heager, hnesting⟩ := described
      exact ⟨semicolon, body, closing, hyield, htrees, hnone, heager, Nat.lt_succ_of_le hnesting⟩

/-- A description that is read without a fault has been derived by the grammar. -/
theorem faultOr_document (reader : TokenReader) :
    FaultOr reader reader.document.2 fun spelling =>
      ∃ document : Grammar.Document, document.yield = spelling ∧
        document.tree = reader.document.1 ∧ document.Eager ∧ document.nesting ≤ maxNesting := by
  have hstrict : FaultOr reader
      (if reader.kind = .strict then (true, reader.advance) else (false, reader)).2
      fun spelling => ∃ strict : Option (Sign .strict),
        strict.elim [] Terminal.yield = spelling ∧
        strict.isSome =
          (if reader.kind = .strict then (true, reader.advance) else (false, reader)).1 ∧
        strict.elim (if reader.kind = .strict then (true, reader.advance)
          else (false, reader)).2.position Terminal.position = reader.position := by
    split
    · rename_i h
      obtain ⟨strict, hunread⟩ := exists_sign h (by decide)
      exact .of_takes (takes_advance hunread)
        ⟨some strict, rfl, rfl, (position_eq hunread).symm⟩
    · exact .nothing reader ⟨none, rfl, rfl, rfl⟩
  unfold document
  simp only
  generalize (if reader.kind = .strict then (true, reader.advance) else (false, reader)) = start
    at hstrict ⊢
  split
  · rename_i h
    obtain ⟨header, hunread⟩ : ∃ header : Terminal isHeader,
        start.2.unread = header.lexeme :: start.2.advance.unread :=
      exists_terminal (by simpa [isHeader] using h) rfl
    have hid := faultOr_ident? start.2.advance
    have hopening := @faultOr_expect start.2.advance.ident?.2 .lBrace (by decide)
    have hbody := faultOr_statements (blockReader_sound maxNesting) #[]
      (start.2.advance.ident?.2.expect .lBrace).2
    have hclosing := fun source => @faultOr_expect source .rBrace (by decide)
    refine (((hstrict.append (faultOr_advance hunread)).append hid).append
      (hopening.append (hbody.append (hclosing _).and_takes))).mono ?_
    intro spelling _ described
    obtain ⟨_, _, rfl, ⟨_, _, rfl, ⟨_, _, rfl, ⟨strict, rfl, hstrict, hposition⟩, rfl⟩, id, rfl,
      hid, _⟩, _, _, rfl, ⟨opening, rfl, _⟩, _, _, rfl, ⟨statements, rfl, htrees, heager, hnesting⟩,
      htakes, closing, rfl, _⟩ := described
    refine ⟨⟨strict, header, id, opening, statements, closing⟩, ?_, ?_,
      heager (htakes.kind_eq.trans (leading_sign _ closing)), hnesting⟩
    · simp [Document.yield]
    · have hheader : header.position = start.2.position := (position_eq hunread).symm
      have hkind : header.kind = start.2.kind := (kind_eq hunread).symm
      simp only [Document.tree, hheader, hkind, hposition, hstrict, hid, htrees]
      rfl
  · exact .inl (Nat.lt_of_le_of_lt hstrict.faults_le (faults_report_lt start.2 _))

end DotGraph.TokenReader
