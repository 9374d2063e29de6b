import DotGraph.Proofs.Grammar
import DotGraph.Proofs.Token.Order

namespace DotGraph.Tree

/-! The identifiers of a tree, in the order of their source. -/

def Port.idents (port : Port) : List Ident :=
  port.name.toList ++ port.compass.toList

def NodeId.idents (node : NodeId) : List Ident :=
  node.ident :: node.port.elim [] Port.idents

/-- A value that stands where its key does has been supplied. -/
def Attribute.idents (entry : Attribute) : List Ident :=
  if entry.value.position = entry.key.position then [entry.key] else [entry.key, entry.value]

def AttributeList.idents (list : AttributeList) : List Ident :=
  list.attributes.flatMap Attribute.idents

mutual
def Statement.idents : Statement → List Ident
  | .node _ node attributes => node.idents ++ attributes.elim [] AttributeList.idents
  | .edge _ left hops attributes =>
      left.idents ++ identsOfHops hops ++ attributes.elim [] AttributeList.idents
  | .defaults _ _ attributes => attributes.elim [] AttributeList.idents
  | .assign _ key value => [key, value]
  | .subgraph body => body.idents

def Endpoint.idents : Endpoint → List Ident
  | .node node => node.idents
  | .group _ nodes => nodes.flatMap NodeId.idents
  | .subgraph body => body.idents

def identsOfHops : List Hop → List Ident
  | [] => []
  | ⟨_, _, endpoint⟩ :: hops => endpoint.idents ++ identsOfHops hops

def Subgraph.idents : Subgraph → List Ident
  | ⟨_, ident, statements⟩ => ident.toList ++ identsOfStatements statements

def identsOfStatements : List Statement → List Ident
  | [] => []
  | statement :: statements => statement.idents ++ identsOfStatements statements
end

def Document.idents (document : Document) : List Ident :=
  document.ident.toList ++ identsOfStatements document.statements

end DotGraph.Tree

namespace DotGraph.Lexeme

/-- What a token names, if it is like an identifier. -/
def ident? (lexeme : Lexeme) : Option Tree.Ident :=
  (TokenReader.flavour? lexeme.token.kind).map fun flavour =>
    ⟨lexeme.position, lexeme.token.text, flavour⟩

def idents (spelling : List Lexeme) : List Tree.Ident :=
  spelling.filterMap ident?

@[simp] theorem idents_nil : idents [] = [] := rfl

@[simp] theorem idents_append (front back : List Lexeme) :
    idents (front ++ back) = idents front ++ idents back :=
  List.filterMap_append

/-- No two of the tokens stand at one place. -/
def Distinct (spelling : List Lexeme) : Prop :=
  (spelling.map position).Nodup

theorem Distinct.left {front back : List Lexeme} (h : Distinct (front ++ back)) :
    Distinct front := by
  unfold Distinct at h
  rw [List.map_append] at h
  exact (List.nodup_append.mp h).1

theorem Distinct.right {front back : List Lexeme} (h : Distinct (front ++ back)) :
    Distinct back := by
  unfold Distinct at h
  rw [List.map_append] at h
  exact (List.nodup_append.mp h).2.1

end DotGraph.Lexeme

namespace DotGraph.Grammar

/-! The identifiers of the tree of a derivation are those among the tokens. -/

open Lexeme (idents Distinct)

@[simp] theorem idents_id (id : Id) : idents id.yield = [id.tree] := by
  have hadmitted := id.admitted
  unfold idents Terminal.yield Lexeme.ident? Id.tree Terminal.kind
  cases hkind : id.lexeme.token.kind <;>
    simp_all [Token.Kind.isId, TokenReader.flavour?, flavourOf, Terminal.position]

theorem idents_terminal {admits : Token.Kind → Bool} (terminal : Terminal admits)
    (h : ∀ kind, admits kind → TokenReader.flavour? kind = none) :
    idents terminal.yield = [] := by
  simp [idents, Terminal.yield, Lexeme.ident?, h _ terminal.admitted]

theorem idents_sign {kind : Token.Kind} (sign : Sign kind) (h : kind.isId = false) :
    idents sign.yield = [] := by
  apply idents_terminal
  intro other hother
  cases eq_of_beq hother
  revert h
  cases kind <;> decide

@[simp] theorem idents_id? (id : Option Id) :
    idents (id.elim [] Terminal.yield) = (id.map Id.tree).toList := by
  cases id with
  | none => rfl
  | some id => exact idents_id id

theorem idents_terminal? {admits : Token.Kind → Bool} (terminal : Option (Terminal admits))
    (h : ∀ kind, admits kind → TokenReader.flavour? kind = none) :
    idents (terminal.elim [] Terminal.yield) = [] := by
  cases terminal with
  | none => rfl
  | some terminal => exact idents_terminal terminal h

theorem Compass.idents_yield (compass : Compass) :
    idents compass.yield = (compass.name.map Id.tree).toList := by
  rw [Compass.yield, Lexeme.idents_append, idents_sign compass.colon rfl, idents_id?, List.nil_append]

theorem Port.idents_tree (port : Port) : port.tree.idents = idents port.yield := by
  have hcompass : idents (port.compass.elim [] Compass.yield) =
      (port.compass.bind fun compass => compass.name.map Id.tree).toList := by
    cases port.compass with
    | none => rfl
    | some compass => exact compass.idents_yield
  simp only [Port.yield, Lexeme.idents_append, idents_sign port.colon rfl, idents_id?, hcompass]
  rfl

theorem NodeId.idents_tree (node : NodeId) : node.tree.idents = idents node.yield := by
  have hport : (node.port.map Port.tree).elim [] Tree.Port.idents =
      idents (node.port.elim [] Port.yield) := by
    cases node.port with
    | none => rfl
    | some port => exact port.idents_tree
  simp only [NodeId.yield, Lexeme.idents_append, idents_id, ← hport]
  rfl

theorem Attribute.idents_tree (entry : Attribute) (h : Distinct entry.yield) :
    entry.tree.idents = idents entry.yield := by
  have hseparator := idents_terminal? entry.separator (by intro kind; cases kind <;> decide)
  unfold Attribute.yield at h ⊢
  rw [Lexeme.idents_append, Lexeme.idents_append, hseparator, List.append_nil, idents_id]
  cases hvalue : entry.value with
  | none => simp [Tree.Attribute.idents, Attribute.tree, hvalue, Id.tree]
  | some value =>
      rw [hvalue] at h
      have hne : value.id.position ≠ entry.key.position := by
        have hdistinct := h.left
        simp only [Distinct, Option.elim_some, Value.yield, Terminal.yield] at hdistinct
        intro heq
        simp_all [Terminal.position]
      simp only [Tree.Attribute.idents, Attribute.tree, hvalue, Option.elim_some, Id.tree,
        if_neg hne, Value.yield, Lexeme.idents_append, idents_sign value.equal rfl, idents_id]
      rfl

theorem idents_attributes (entries : List Attribute)
    (h : Distinct (entries.flatMap Attribute.yield)) :
    (entries.map Attribute.tree).flatMap Tree.Attribute.idents =
      idents (entries.flatMap Attribute.yield) := by
  induction entries with
  | nil => rfl
  | cons entry entries ih =>
      rw [List.flatMap_cons] at h
      rw [List.map_cons, List.flatMap_cons, List.flatMap_cons, Lexeme.idents_append,
        entry.idents_tree h.left, ih h.right]

theorem Bracket.idents_yield (bracket : Bracket) (h : Distinct bracket.yield) :
    (bracket.attributes.map Attribute.tree).flatMap Tree.Attribute.idents =
      idents bracket.yield := by
  simp only [Bracket.yield, Lexeme.idents_append, idents_sign bracket.opening rfl,
    idents_sign bracket.closing rfl, List.nil_append, List.append_nil]
  exact idents_attributes bracket.attributes h.left.right

theorem idents_brackets (brackets : List Bracket) (h : Distinct (brackets.flatMap Bracket.yield)) :
    (brackets.flatMap fun bracket => bracket.attributes.map Attribute.tree).flatMap
        Tree.Attribute.idents =
      idents (brackets.flatMap Bracket.yield) := by
  induction brackets with
  | nil => rfl
  | cons bracket brackets ih =>
      rw [List.flatMap_cons] at h
      rw [List.flatMap_cons, List.flatMap_cons, List.flatMap_append, Lexeme.idents_append,
        bracket.idents_yield h.left, ih h.right]

theorem idents_attributeList? (list : Option AttributeList)
    (h : Distinct (list.elim [] AttributeList.yield)) :
    (list.map AttributeList.tree).elim [] Tree.AttributeList.idents =
      idents (list.elim [] AttributeList.yield) := by
  cases list with
  | none => rfl
  | some list => exact idents_brackets (list.first :: list.more) h

theorem identsOfHops_cons (hop : Tree.Hop) (hops : List Tree.Hop) :
    Tree.identsOfHops (hop :: hops) = hop.endpoint.idents ++ Tree.identsOfHops hops := by
  cases hop
  rfl

theorem idents_nodes (nodes : List NodeId) :
    (nodes.map NodeId.tree).flatMap Tree.NodeId.idents =
      idents (nodes.flatMap NodeId.yield) := by
  induction nodes with
  | nil => rfl
  | cons node nodes ih =>
      rw [List.map_cons, List.flatMap_cons, List.flatMap_cons, Lexeme.idents_append,
        node.idents_tree, ih]

mutual
theorem Statement.idents_tree : (statement : Statement) → Distinct statement.yield →
    statement.tree.idents = idents statement.yield
  | .defaults subject keyword attributes, h => by
      rw [Statement.yield] at h
      rw [Statement.yield, Lexeme.idents_append,
        idents_sign keyword (by cases subject <;> rfl), List.nil_append,
        ← idents_attributeList? attributes h.right]
      rfl
  | .subgraph body, h => body.idents_tree h
  | .assign key equal value, _ => by
      rw [Statement.yield, Lexeme.idents_append, Lexeme.idents_append, idents_sign equal rfl,
        idents_id, idents_id]
      rfl
  | .node node attributes, h => by
      rw [Statement.yield] at h
      rw [Statement.yield, Lexeme.idents_append, ← node.idents_tree,
        ← idents_attributeList? attributes h.right]
      rfl
  | .edge left first more attributes, h => by
      rw [Statement.yield] at h
      have hleft := left.idents_tree h.left.left.left
      have hfirst := first.idents_tree h.left.left.right
      have hmore := more.idents_trees h.left.right
      simp only [Statement.yield, Lexeme.idents_append, ← hleft, ← hfirst, ← hmore,
        ← idents_attributeList? attributes h.right, Statement.tree, Tree.Statement.idents]
      rw [identsOfHops_cons]
      simp only [List.append_assoc]

theorem Left.idents_tree : (left : Left) → Distinct left.yield →
    left.tree.idents = idents left.yield
  | .node node, _ => node.idents_tree
  | .subgraph body, h => body.idents_tree h

theorem Link.idents_tree : (link : Link) → Distinct link.yield →
    link.tree.endpoint.idents = idents link.yield
  | ⟨op, endpoint⟩, h => by
      rw [Link.yield] at h
      rw [Link.yield, Lexeme.idents_append,
        idents_terminal op (by intro kind; cases kind <;> decide), List.nil_append]
      exact endpoint.idents_tree h.right

theorem Links.idents_trees : (links : Links) → Distinct links.yield →
    Tree.identsOfHops links.trees = idents links.yield
  | .nil, _ => rfl
  | .cons link links, h => by
      rw [Links.yield] at h
      rw [Links.trees, Links.yield, identsOfHops_cons, Lexeme.idents_append,
        link.idents_tree h.left, links.idents_trees h.right]

theorem Endpoint.idents_tree : (endpoint : Endpoint) → Distinct endpoint.yield →
    endpoint.tree.idents = idents endpoint.yield
  | .node node, _ => node.idents_tree
  | .group opening first more closing, _ => by
      rw [Endpoint.yield, Lexeme.idents_append, Lexeme.idents_append, idents_sign opening rfl,
        idents_sign closing rfl, List.nil_append, List.append_nil, ← idents_nodes]
      rfl
  | .subgraph body, h => body.idents_tree h

theorem Subgraph.idents_tree : (body : Subgraph) → Distinct body.yield →
    body.tree.idents = idents body.yield
  | .bare opening statements closing, h => by
      rw [Subgraph.yield] at h
      rw [Subgraph.yield, Lexeme.idents_append, Lexeme.idents_append, idents_sign opening rfl,
        idents_sign closing rfl, List.nil_append, List.append_nil,
        ← statements.idents_trees h.left.right]
      rfl
  | .headed keyword id opening statements closing, h => by
      rw [Subgraph.yield] at h
      simp only [Subgraph.yield, Lexeme.idents_append, idents_sign keyword rfl,
        idents_sign opening rfl, idents_sign closing rfl, List.nil_append, List.append_nil,
        idents_id?, ← statements.idents_trees h.right.left.right]
      rfl

theorem Statements.idents_trees : (statements : Statements) → Distinct statements.yield →
    Tree.identsOfStatements statements.trees = idents statements.yield
  | .nil, _ => rfl
  | .cons statement semicolon statements, h => by
      rw [Statements.yield] at h
      rw [Statements.yield, Lexeme.idents_append, Lexeme.idents_append,
        idents_terminal? semicolon (by intro kind; cases kind <;> decide), List.append_nil,
        ← statement.idents_tree h.left.left, ← statements.idents_trees h.right]
      rfl
end

theorem Document.idents_tree (document : Document) (h : Distinct document.yield) :
    document.tree.idents = idents document.yield := by
  rw [Document.yield] at h
  simp only [Document.yield, Lexeme.idents_append,
    idents_terminal? document.strict (by intro kind; cases kind <;> decide),
    idents_terminal document.header (by intro kind; cases kind <;> decide), idents_id?,
    idents_sign document.opening rfl, idents_sign document.closing rfl, List.nil_append,
    List.append_nil, ← document.statements.idents_trees h.right.left.right]
  rfl

end DotGraph.Grammar
