import DotGraph.Proofs.Grammar.Follow
import DotGraph.Proofs.Tree.Writing

namespace DotGraph.Grammar

/-! The tokens that a tree is written with have a derivation, and it is a derivation of this tree:
wherever the tokens stand, and whatever comes behind them. -/

open Lexeme (token)

variable {spelling : List Lexeme}

theorem exists_terminal {admits : Token.Kind → Bool} {written : Token}
    (h : spelling.map token = [written]) (hadmits : admits written.kind) :
    ∃ terminal : Terminal admits, terminal.yield = spelling ∧ terminal.lexeme.token = written := by
  obtain ⟨lexeme, rest, rfl, rfl, hrest⟩ := List.map_eq_cons_iff.mp h
  obtain rfl := List.map_eq_nil_iff.mp hrest
  exact ⟨⟨lexeme, hadmits⟩, rfl, rfl⟩

theorem exists_sign (kind : Token.Kind) {written : Token} (h : spelling.map token = [written])
    (hkind : written.kind = kind) :
    ∃ sign : Sign kind, sign.yield = spelling := by
  obtain ⟨sign, hyield, _⟩ := @exists_terminal spelling (· == kind) written h (by simp [hkind])
  exact ⟨sign, hyield⟩

theorem exists_id {ident : Tree.Ident} (h : spelling.map token = [ident.token]) :
    ∃ id : Id, id.yield = spelling ∧ id.tree.unplaced = ident.unplaced := by
  have hid : ident.token.kind.isId := by
    unfold Tree.Ident.token
    cases ident.flavour <;> rfl
  obtain ⟨id, hyield, htoken⟩ := exists_terminal h hid
  refine ⟨id, hyield, ?_⟩
  unfold Id.tree Terminal.kind Tree.Ident.unplaced
  rw [htoken]
  obtain ⟨position, name, flavour⟩ := ident
  cases flavour <;> rfl

/-- Tokens that are written one behind the other can be told apart. -/
theorem exists_append {front back : List Token} (h : spelling.map token = front ++ back) :
    ∃ left right, spelling = left ++ right ∧ left.map token = front ∧ right.map token = back :=
  List.map_eq_append_iff.mp h

theorem exists_cons {written : Token} {back : List Token}
    (h : spelling.map token = written :: back) :
    ∃ left right, spelling = left ++ right ∧ left.map token = [written] ∧
      right.map token = back :=
  exists_append h

theorem exists_id? {ident : Option Tree.Ident}
    (h : spelling.map token = ident.elim [] fun ident => [ident.token]) :
    ∃ id : Option Id, id.elim [] Terminal.yield = spelling ∧
      (id.map Id.tree).map Tree.Ident.unplaced = ident.map Tree.Ident.unplaced := by
  cases ident with
  | none =>
      obtain rfl := List.map_eq_nil_iff.mp h
      exact ⟨none, rfl, rfl⟩
  | some ident =>
      obtain ⟨id, hyield, htree⟩ := exists_id h
      exact ⟨some id, hyield, congrArg some htree⟩

/-- A port is read whole whatever comes behind it, since its last name is there. -/
theorem exists_port {port : Tree.Port} (hport : port.isWritable)
    (h : spelling.map token = port.tokens) :
    ∃ derived : Port, derived.yield = spelling ∧ derived.tree.unplaced = port.unplaced ∧
      derived.isOpen = false := by
  obtain ⟨_, _, rfl, hcolon, hnames⟩ := exists_cons h
  obtain ⟨_, _, rfl, hname, hcompass⟩ := exists_append hnames
  obtain ⟨colon, rfl⟩ := exists_sign .colon hcolon rfl
  obtain ⟨name, rfl, hnameTree⟩ := exists_id? hname
  simp only [Tree.Port.isWritable, Bool.and_eq_true] at hport
  obtain ⟨⟨hnamed, _⟩, _⟩ := hport
  cases hsome : port.compass with
  | none =>
      rw [hsome] at hcompass hnamed
      obtain rfl := List.map_eq_nil_iff.mp hcompass
      refine ⟨⟨colon, name, none⟩, ?_, ?_, ?_⟩
      · simp [Port.yield]
      · simp [Port.tree, Tree.Port.unplaced, hnameTree, hsome]
      · have hisSome : name.isSome = port.name.isSome := by
          simpa using congrArg Option.isSome hnameTree
        rw [Option.isSome_none, Bool.or_false, ← hisSome] at hnamed
        simpa [Port.isOpen] using hnamed
  | some compass =>
      rw [hsome] at hcompass
      obtain ⟨_, _, rfl, hsign, hid⟩ := exists_cons hcompass
      obtain ⟨sign, rfl⟩ := exists_sign .colon hsign rfl
      obtain ⟨id, rfl, hidTree⟩ := exists_id hid
      refine ⟨⟨colon, name, some ⟨sign, some id⟩⟩, ?_, ?_, rfl⟩
      · simp [Port.yield, Compass.yield]
      · simp [Port.tree, Tree.Port.unplaced, hnameTree, hsome, hidTree]

theorem exists_nodeId {node : Tree.NodeId} (hnode : node.isWritable)
    (h : spelling.map token = node.tokens) :
    ∃ derived : NodeId, derived.yield = spelling ∧ derived.tree.unplaced = node.unplaced ∧
      ∀ next, derived.Eager next := by
  obtain ⟨_, _, rfl, hident, hport⟩ := exists_cons h
  obtain ⟨id, rfl, hidTree⟩ := exists_id hident
  simp only [Tree.NodeId.isWritable, Bool.and_eq_true] at hnode
  cases hsome : node.port with
  | none =>
      rw [hsome] at hport
      obtain rfl := List.map_eq_nil_iff.mp hport
      refine ⟨⟨id, none⟩, ?_, ?_, ?_⟩
      · simp [NodeId.yield]
      · simp [NodeId.tree, Tree.NodeId.unplaced, hidTree, hsome]
      · intro next port hmem
        cases hmem
  | some port =>
      rw [hsome] at hport hnode
      obtain ⟨derived, rfl, hportTree, hopen⟩ := exists_port hnode.2 hport
      refine ⟨⟨id, some derived⟩, rfl, ?_, ?_⟩
      · simp [NodeId.tree, Tree.NodeId.unplaced, hidTree, hsome, hportTree]
      · intro next port hmem
        cases hmem
        intro hisOpen
        rw [hopen] at hisOpen
        exact absurd hisOpen (by decide)

theorem exists_nodes {nodes : List Tree.NodeId} (hnodes : nodes.all Tree.NodeId.isWritable)
    (h : spelling.map token = nodes.flatMap Tree.NodeId.tokens) :
    ∃ derived : List NodeId, derived.flatMap NodeId.yield = spelling ∧
      (derived.map NodeId.tree).map Tree.NodeId.unplaced = nodes.map Tree.NodeId.unplaced ∧
      eagerNodes derived := by
  induction nodes generalizing spelling with
  | nil =>
      obtain rfl := List.map_eq_nil_iff.mp h
      exact ⟨[], rfl, rfl, trivial⟩
  | cons node nodes ih =>
      obtain ⟨_, _, rfl, hnode, hmore⟩ := exists_append h
      rw [List.all_cons, Bool.and_eq_true] at hnodes
      obtain ⟨first, rfl, hfirst, heager⟩ := exists_nodeId hnodes.1 hnode
      obtain ⟨more, rfl, hmoreTrees, heagers⟩ := ih hnodes.2 hmore
      refine ⟨first :: more, rfl, ?_, heager _, heagers⟩
      rw [List.map_cons, List.map_cons, List.map_cons, hfirst, hmoreTrees]

theorem exists_attribute {entry : Tree.Attribute}
    {separator : Option (Terminal isSeparator)} {behind : List Lexeme}
    (hbehind : separator.elim [] Terminal.yield = behind)
    (h : spelling.map token = entry.tokens) :
    ∃ derived : Attribute, derived.yield = spelling ++ behind ∧
      derived.tree.unplaced = entry.unplaced := by
  obtain ⟨_, _, rfl, hkey, hassigned⟩ := exists_cons h
  obtain ⟨_, _, rfl, hequal, hvalue⟩ := exists_cons hassigned
  obtain ⟨key, rfl, hkeyTree⟩ := exists_id hkey
  obtain ⟨equal, rfl⟩ := exists_sign .equal hequal rfl
  obtain ⟨value, rfl, hvalueTree⟩ := exists_id hvalue
  refine ⟨⟨key, some ⟨equal, value⟩, separator⟩, ?_, ?_⟩
  · simp [Attribute.yield, Value.yield, hbehind]
  · simp [Attribute.tree, Tree.Attribute.unplaced, hkeyTree, hvalueTree]

theorem exists_attributes {entries : List Tree.Attribute}
    (h : spelling.map token =
      [Token.punctuation .comma].intercalate (entries.map Tree.Attribute.tokens)) :
    ∃ derived : List Attribute, derived.flatMap Attribute.yield = spelling ∧
      (derived.map Attribute.tree).map Tree.Attribute.unplaced =
        entries.map Tree.Attribute.unplaced := by
  induction entries generalizing spelling with
  | nil =>
      obtain rfl := List.map_eq_nil_iff.mp h
      exact ⟨[], rfl, rfl⟩
  | cons entry entries ih =>
      cases entries with
      | nil =>
          rw [List.map_singleton, List.intercalate_singleton] at h
          obtain ⟨derived, hyield, htree⟩ := @exists_attribute _ _ none [] rfl h
          refine ⟨[derived], ?_, ?_⟩
          · simpa using hyield
          · simp [htree]
      | cons next entries =>
          rw [List.map_cons, List.map_cons, List.intercalate_cons_cons, ← List.map_cons,
            List.append_assoc] at h
          obtain ⟨_, _, rfl, hentry, hbehind⟩ := exists_append h
          obtain ⟨_, _, rfl, hcomma, hmore⟩ := exists_append hbehind
          obtain ⟨comma, rfl, _⟩ := @exists_terminal _ isSeparator _ hcomma rfl
          obtain ⟨derived, hyield, htree⟩ := @exists_attribute _ _ (some comma) _ rfl hentry
          obtain ⟨more, rfl, hmoreTrees⟩ := ih hmore
          refine ⟨derived :: more, ?_, ?_⟩
          · rw [List.flatMap_cons, hyield, Option.elim_some, List.append_assoc]
          · rw [List.map_cons, List.map_cons, htree, hmoreTrees]
            rfl

theorem exists_attributeList? {list : Option Tree.AttributeList}
    (h : spelling.map token = list.elim [] Tree.AttributeList.tokens) :
    ∃ derived : Option AttributeList, derived.elim [] AttributeList.yield = spelling ∧
      (derived.map AttributeList.tree).map Tree.AttributeList.unplaced =
        list.map Tree.AttributeList.unplaced := by
  cases list with
  | none =>
      obtain rfl := List.map_eq_nil_iff.mp h
      exact ⟨none, rfl, rfl⟩
  | some list =>
      obtain ⟨_, _, rfl, hopening, hinside⟩ := exists_cons h
      obtain ⟨_, _, rfl, hentries, hclosing⟩ := exists_append hinside
      obtain ⟨opening, rfl⟩ := exists_sign .lBracket hopening rfl
      obtain ⟨closing, rfl⟩ := exists_sign .rBracket hclosing rfl
      obtain ⟨entries, rfl, htrees⟩ := exists_attributes hentries
      refine ⟨some ⟨⟨opening, entries, closing⟩, []⟩, ?_, ?_⟩
      · simp [AttributeList.yield, Bracket.yield]
      · simpa [AttributeList.tree, Tree.AttributeList.unplaced] using htrees

theorem unplacedHops_cons (hop : Tree.Hop) (hops : List Tree.Hop) :
    Tree.unplacedHops (hop :: hops) =
      ⟨.nowhere, hop.directed, hop.endpoint.unplaced⟩ :: Tree.unplacedHops hops := by
  cases hop
  rfl

theorem exists_edgeOp {directed : Bool}
    (h : spelling.map token = [.punctuation (if directed then .arrow else .dashDash)]) :
    ∃ op : EdgeOp, op.yield = spelling ∧ (op.kind = .arrow) = directed := by
  cases directed with
  | true =>
      obtain ⟨op, hyield, htoken⟩ := @exists_terminal spelling Token.Kind.isEdgeOp _ h rfl
      exact ⟨op, hyield, by simp [Terminal.kind, htoken, Token.punctuation]⟩
  | false =>
      obtain ⟨op, hyield, htoken⟩ := @exists_terminal spelling Token.Kind.isEdgeOp _ h rfl
      exact ⟨op, hyield, by simp [Terminal.kind, htoken, Token.punctuation]⟩

/-- An edge with its attributes, behind its left end. -/
theorem exists_edge {left : Left} {leftTree : Tree.Endpoint} {hops : List Tree.Hop}
    {attributes : Option Tree.AttributeList} {position : Position} {behind : List Lexeme}
    (hleft : left.tree.unplaced = leftTree.unplaced ∧ left.Eager ∧
      left.nesting = leftTree.nesting)
    (hhops : !hops.isEmpty) {links : Links} (htrees : Tree.unplacedHops links.trees =
      Tree.unplacedHops hops) (heager : ∀ next, links.Eager next)
    (hnesting : links.nesting = Tree.nestingOfHops hops)
    (h : behind.map token = attributes.elim [] Tree.AttributeList.tokens) :
    ∃ derived : Statement, derived.yield = left.yield ++ (links.yield ++ behind) ∧
      derived.tree.unplaced = (Tree.Statement.edge position leftTree hops attributes).unplaced ∧
      (∀ next, derived.Eager next) ∧
      derived.nesting = (Tree.Statement.edge position leftTree hops attributes).nesting := by
  obtain ⟨list, rfl, hlist⟩ := exists_attributeList? h
  cases links with
  | nil =>
      cases hops with
      | nil => exact absurd hhops (by decide)
      | cons hop hops =>
          rw [unplacedHops_cons] at htrees
          exact absurd htrees (List.cons_ne_nil _ _).symm
  | cons first more =>
      refine ⟨.edge left first more list, ?_, ?_, ?_, ?_⟩
      · simp only [Statement.yield, Links.yield, List.append_assoc]
      · simp only [Statement.tree, Tree.Statement.unplaced, hleft.1, hlist]
        rw [← htrees]
        rfl
      · intro next
        -- the first link is followed by the other ones and then by the attributes
        have hlinks := heager (leading next (list.elim [] AttributeList.yield))
        refine ⟨hleft.2.1, ?_, hlinks.2⟩
        rw [leading_append]
        exact hlinks.1
      · simp only [Statement.nesting, Tree.Statement.nesting, hleft.2.2, ← hnesting]
        rfl

mutual
theorem exists_statement : (statement : Tree.Statement) → statement.isWritable →
    (spelling : List Lexeme) → spelling.map token = statement.tokens →
    ∃ derived : Statement, derived.yield = spelling ∧
      derived.tree.unplaced = statement.unplaced ∧ (∀ next, derived.Eager next) ∧
      derived.nesting = statement.nesting
  | .node position node attributes, hwritable, spelling, h => by
      obtain ⟨_, _, rfl, hnode, hattributes⟩ := exists_append h
      rw [Tree.Statement.isWritable, Bool.and_eq_true] at hwritable
      obtain ⟨derived, rfl, htree, heager⟩ := exists_nodeId hwritable.1 hnode
      obtain ⟨list, rfl, hlist⟩ := exists_attributeList? hattributes
      refine ⟨.node derived list, rfl, ?_, fun next => heager _, rfl⟩
      simp only [Statement.tree, Tree.Statement.unplaced, htree, hlist]
  | .edge position (.node node) hops attributes, hwritable, spelling, h => by
      obtain ⟨_, _, rfl, hnode, hbehind⟩ := exists_append h
      obtain ⟨_, _, rfl, hhops, hattributes⟩ := exists_append hbehind
      simp only [Tree.Statement.isWritable, Bool.and_eq_true] at hwritable
      obtain ⟨⟨⟨⟨_, hsome⟩, hleft⟩, hhopsWritable⟩, _⟩ := hwritable
      obtain ⟨derived, rfl, htree, heager⟩ := exists_nodeId hleft hnode
      obtain ⟨links, rfl, htrees, heagers, hnesting⟩ := exists_links hops hhopsWritable _ hhops
      exact @exists_edge (.node derived) (.node node) _ _ _ _
        ⟨congrArg Tree.Endpoint.node htree, trivial, rfl⟩ hsome _ htrees heagers hnesting
        hattributes
  | .edge position (.group _ nodes) hops attributes, hwritable, spelling, h => by
      simp [Tree.Statement.isWritable, Tree.Endpoint.isGroup] at hwritable
  | .edge position (.subgraph body) hops attributes, hwritable, spelling, h => by
      obtain ⟨_, _, rfl, hbody, hbehind⟩ := exists_append h
      obtain ⟨_, _, rfl, hhops, hattributes⟩ := exists_append hbehind
      simp only [Tree.Statement.isWritable, Bool.and_eq_true] at hwritable
      obtain ⟨⟨⟨⟨_, hsome⟩, hleft⟩, hhopsWritable⟩, _⟩ := hwritable
      obtain ⟨derived, rfl, htree, heager, _, hdepth⟩ := exists_subgraph body hleft _ hbody
      obtain ⟨links, rfl, htrees, heagers, hnesting⟩ := exists_links hops hhopsWritable _ hhops
      exact @exists_edge (.subgraph derived) (.subgraph body) _ _ _ _
        ⟨congrArg Tree.Endpoint.subgraph htree, heager, hdepth⟩ hsome _ htrees heagers hnesting
        hattributes
  | .defaults position subject attributes, _, spelling, h => by
      obtain ⟨_, _, rfl, hsubject, hattributes⟩ := exists_cons h
      obtain ⟨sign, rfl⟩ := exists_sign (keyword subject) hsubject rfl
      obtain ⟨list, rfl, hlist⟩ := exists_attributeList? hattributes
      refine ⟨.defaults subject sign list, rfl, ?_, fun _ => trivial, rfl⟩
      simp only [Statement.tree, Tree.Statement.unplaced, hlist]
  | .assign position key value, _, spelling, h => by
      obtain ⟨_, _, rfl, hkey, hassigned⟩ := exists_cons h
      obtain ⟨_, _, rfl, hequal, hvalue⟩ := exists_cons hassigned
      obtain ⟨key, rfl, hkeyTree⟩ := exists_id hkey
      obtain ⟨equal, rfl⟩ := exists_sign .equal hequal rfl
      obtain ⟨value, rfl, hvalueTree⟩ := exists_id hvalue
      refine ⟨.assign key equal value, ?_, ?_, fun _ => trivial, rfl⟩
      · simp only [Statement.yield, List.append_assoc]
      · simp only [Statement.tree, Tree.Statement.unplaced, hkeyTree, hvalueTree]
  | .subgraph body, hwritable, spelling, h => by
      obtain ⟨derived, hyield, htree, heager, _, hnesting⟩ :=
        exists_subgraph body hwritable spelling h
      exact ⟨.subgraph derived, hyield, congrArg Tree.Statement.subgraph htree, fun _ => heager,
        hnesting⟩

theorem exists_endpoint : (endpoint : Tree.Endpoint) → endpoint.isWritable →
    (spelling : List Lexeme) → spelling.map token = endpoint.tokens →
    ∃ derived : Endpoint, derived.yield = spelling ∧
      derived.tree.unplaced = endpoint.unplaced ∧ (∀ next, derived.Eager next) ∧
      derived.nesting = endpoint.nesting
  | .node node, hwritable, spelling, h => by
      obtain ⟨derived, hyield, htree, heager⟩ := exists_nodeId hwritable h
      exact ⟨.node derived, hyield, congrArg Tree.Endpoint.node htree, heager, rfl⟩
  | .group position nodes, hwritable, spelling, h => by
      obtain ⟨_, _, rfl, hopening, hinside⟩ := exists_cons h
      obtain ⟨_, _, rfl, hnodes, hclosing⟩ := exists_append hinside
      rw [Tree.Endpoint.isWritable, Bool.and_eq_true] at hwritable
      obtain ⟨opening, rfl⟩ := exists_sign .lBrace hopening rfl
      obtain ⟨closing, rfl⟩ := exists_sign .rBrace hclosing rfl
      obtain ⟨derived, rfl, htrees, heager⟩ := exists_nodes hwritable.2 hnodes
      cases derived with
      | nil =>
          obtain rfl := List.map_eq_nil_iff.mp htrees.symm
          exact absurd hwritable.1 (by decide)
      | cons first more =>
          refine ⟨.group opening first more closing, ?_, ?_, fun _ => heager, rfl⟩
          · simp only [Endpoint.yield, List.append_assoc]
          · simp only [Endpoint.tree, Tree.Endpoint.unplaced, htrees]
  | .subgraph body, hwritable, spelling, h => by
      obtain ⟨derived, hyield, htree, heager, hgroup, hnesting⟩ :=
        exists_subgraph body hwritable spelling h
      exact ⟨.subgraph derived, hyield, congrArg Tree.Endpoint.subgraph htree,
        fun _ => ⟨hgroup, heager⟩, hnesting⟩

theorem exists_links : (hops : List Tree.Hop) → Tree.areWritableHops hops →
    (spelling : List Lexeme) → spelling.map token = Tree.tokensOfHops hops →
    ∃ derived : Links, derived.yield = spelling ∧
      Tree.unplacedHops derived.trees = Tree.unplacedHops hops ∧ (∀ next, derived.Eager next) ∧
      derived.nesting = Tree.nestingOfHops hops
  | [], _, spelling, h => by
      obtain rfl := List.map_eq_nil_iff.mp h
      exact ⟨.nil, rfl, rfl, fun _ => trivial, rfl⟩
  | ⟨position, directed, endpoint⟩ :: hops, hwritable, spelling, h => by
      obtain ⟨_, _, rfl, hop, hbehind⟩ := exists_cons h
      obtain ⟨_, _, rfl, hendpoint, hmore⟩ := exists_append hbehind
      rw [Tree.areWritableHops, Bool.and_eq_true] at hwritable
      obtain ⟨op, rfl, hdirected⟩ := exists_edgeOp hop
      obtain ⟨derived, rfl, htree, heager, hnesting⟩ :=
        exists_endpoint endpoint hwritable.1 _ hendpoint
      obtain ⟨links, rfl, htrees, heagers, hnestings⟩ :=
        exists_links hops hwritable.2 _ hmore
      refine ⟨.cons ⟨op, derived⟩ links, ?_, ?_, fun next => ⟨heager _, heagers next⟩, ?_⟩
      · simp only [Links.yield, Link.yield, List.append_assoc]
      · simp only [Links.trees, Link.tree, Tree.unplacedHops, htree, htrees, hdirected,
          Bool.decide_eq_true]
      · simp only [Links.nesting, Link.nesting, Tree.nestingOfHops, hnesting, hnestings]

theorem exists_subgraph : (body : Tree.Subgraph) → body.isWritable →
    (spelling : List Lexeme) → spelling.map token = body.tokens →
    ∃ derived : Subgraph, derived.yield = spelling ∧ derived.tree.unplaced = body.unplaced ∧
      derived.Eager ∧ derived.noGroup ∧ derived.nesting = body.nesting
  | ⟨position, ident, statements⟩, hwritable, spelling, h => by
      obtain ⟨_, _, rfl, hkeyword, hbehind⟩ := exists_cons h
      obtain ⟨_, _, rfl, hident, hbraces⟩ := exists_append hbehind
      obtain ⟨_, _, rfl, hopening, hinside⟩ := exists_cons hbraces
      obtain ⟨_, _, rfl, hstatements, hclosing⟩ := exists_append hinside
      rw [Tree.Subgraph.isWritable, Bool.and_eq_true] at hwritable
      obtain ⟨keyword, rfl⟩ := exists_sign .subgraph hkeyword rfl
      obtain ⟨id, rfl, hid⟩ := exists_id? hident
      obtain ⟨opening, rfl⟩ := exists_sign .lBrace hopening rfl
      obtain ⟨closing, rfl⟩ := exists_sign .rBrace hclosing rfl
      obtain ⟨derived, rfl, htrees, heager, hnesting⟩ :=
        exists_statements statements hwritable.2 _ hstatements
      refine ⟨.headed keyword id opening derived closing, ?_, ?_, heager, rfl, ?_⟩
      · simp only [Subgraph.yield, List.append_assoc]
      · simp only [Subgraph.tree, Tree.Subgraph.unplaced, hid, htrees]
      · simp only [Subgraph.nesting, Tree.Subgraph.nesting, hnesting]

theorem exists_statements : (statements : List Tree.Statement) →
    Tree.areWritable statements → (spelling : List Lexeme) →
    spelling.map token = Tree.tokensOfStatements statements →
    ∃ derived : Statements, derived.yield = spelling ∧
      Tree.unplacedAll derived.trees = Tree.unplacedAll statements ∧ derived.Eager ∧
      derived.nesting = Tree.nestingOf statements
  | [], _, spelling, h => by
      obtain rfl := List.map_eq_nil_iff.mp h
      exact ⟨.nil, rfl, rfl, trivial, rfl⟩
  | statement :: statements, hwritable, spelling, h => by
      obtain ⟨_, _, rfl, hstatement, hbehind⟩ := exists_append h
      obtain ⟨_, _, rfl, hsemicolon, hmore⟩ := exists_cons hbehind
      rw [Tree.areWritable, Bool.and_eq_true] at hwritable
      obtain ⟨derived, rfl, htree, heager, hnesting⟩ :=
        exists_statement statement hwritable.1 _ hstatement
      obtain ⟨semicolon, rfl⟩ := exists_sign .semicolon hsemicolon rfl
      obtain ⟨more, rfl, htrees, heagers, hnestings⟩ :=
        exists_statements statements hwritable.2 _ hmore
      refine ⟨.cons derived (some semicolon) more, ?_, ?_, ⟨heager _, heagers⟩, ?_⟩
      · simp only [Statements.yield, Option.elim_some, List.append_assoc]
      · simp only [Statements.trees, Tree.unplacedAll, htree, htrees]
      · simp only [Statements.nesting, Tree.nestingOf, hnesting, hnestings]
end

theorem exists_document {document : Tree.Document} (hwritable : document.isWritable)
    (h : spelling.map token = document.tokens) :
    ∃ derived : Document, derived.yield = spelling ∧
      derived.tree.unplaced = document.unplaced ∧ derived.Eager ∧
      derived.nesting ≤ TokenReader.maxNesting := by
  obtain ⟨_, _, rfl, hstrict, hbehind⟩ := exists_append h
  obtain ⟨_, _, rfl, hheader, hnamed⟩ := exists_cons hbehind
  obtain ⟨_, _, rfl, hident, hbraces⟩ := exists_append hnamed
  obtain ⟨_, _, rfl, hopening, hinside⟩ := exists_cons hbraces
  obtain ⟨_, _, rfl, hstatements, hclosing⟩ := exists_append hinside
  simp only [Tree.Document.isWritable, Bool.and_eq_true, decide_eq_true_eq] at hwritable
  obtain ⟨strict, rfl, hstrictTree⟩ : ∃ strict : Option (Sign .strict),
      strict.elim [] Terminal.yield = _ ∧ strict.isSome = document.strict := by
    split at hstrict
    · rename_i hstrictSet
      obtain ⟨sign, hyield⟩ := exists_sign .strict hstrict rfl
      exact ⟨some sign, hyield, hstrictSet.symm⟩
    · rename_i hstrictSet
      obtain rfl := List.map_eq_nil_iff.mp hstrict
      exact ⟨none, rfl, (Bool.eq_false_iff.mpr hstrictSet).symm⟩
  obtain ⟨header, rfl, htoken⟩ := @exists_terminal _ isHeader _ hheader
    (by cases document.directed <;> rfl)
  obtain ⟨id, rfl, hid⟩ := exists_id? hident
  obtain ⟨opening, rfl⟩ := exists_sign .lBrace hopening rfl
  obtain ⟨closing, rfl⟩ := exists_sign .rBrace hclosing rfl
  obtain ⟨derived, rfl, htrees, heager, hnesting⟩ :=
    exists_statements document.statements hwritable.1.2 _ hstatements
  refine ⟨⟨strict, header, id, opening, derived, closing⟩, ?_, ?_, heager, ?_⟩
  · simp only [Document.yield, List.append_assoc]
  · have hdirected : decide (header.kind = .digraph) = document.directed := by
      unfold Terminal.kind
      rw [htoken]
      cases document.directed <;> rfl
    simp only [Document.tree, Tree.Document.unplaced, hstrictTree, hdirected, hid, htrees]
  · exact Nat.le_trans (Nat.le_of_eq hnesting) hwritable.2

end DotGraph.Grammar
