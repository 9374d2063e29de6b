import DotGraph.Tree.Document

namespace DotGraph.Grammar

/-! The grammar of graph descriptions.  Each rule is a type, and a value of it is a derivation by
that rule: its `yield` is the sequence of tokens that it derives, its `tree` what they stand for.

    graph      := ['strict'] ('graph' | 'digraph') [ID] '{' stmt_list '}'
    stmt_list  := { stmt [';'] }
    stmt       := attr_stmt | subgraph [edge_chain] | id_stmt
    attr_stmt  := ('graph' | 'node' | 'edge') [attr_list]
    id_stmt    := ID '=' ID | ID [port] ([attr_list] | edge_chain)
    edge_chain := link { link } [attr_list]
    link       := ('->' | '--') (ID [port] | '{' ID [port] { ID [port] } '}' | subgraph)
    subgraph   := ['subgraph' [ID]] '{' stmt_list '}'
    attr_list  := '[' { ID ['=' ID] [';' | ','] } ']' { attr_list }
    port       := ':' [ID] [':' [ID]] -/

theorem ne_of_admits {admits : Token.Kind → Bool} {kind other : Token.Kind} (h : admits kind)
    (hother : admits other = false) : kind ≠ other := by
  intro heq
  rw [heq, hother] at h
  exact absurd h (by decide)

/-- A token of one of the kinds that a rule admits at a place. -/
structure Terminal (admits : Token.Kind → Bool) where
  lexeme : Lexeme
  admitted : admits lexeme.token.kind

namespace Terminal

variable {admits : Token.Kind → Bool}

def kind (terminal : Terminal admits) : Token.Kind :=
  terminal.lexeme.token.kind

def position (terminal : Terminal admits) : Position :=
  terminal.lexeme.position

def yield (terminal : Terminal admits) : List Lexeme :=
  [terminal.lexeme]

theorem kind_ne (terminal : Terminal admits) {kind : Token.Kind} (h : admits kind = false) :
    terminal.kind ≠ kind :=
  ne_of_admits terminal.admitted h

end Terminal

abbrev Sign (kind : Token.Kind) := Terminal (· == kind)

abbrev Id := Terminal Token.Kind.isId

abbrev EdgeOp := Terminal Token.Kind.isEdgeOp

def isHeader (kind : Token.Kind) : Bool :=
  kind == .graph || kind == .digraph

def isSeparator (kind : Token.Kind) : Bool :=
  kind == .semicolon || kind == .comma

def keyword : Tree.Subject → Token.Kind
  | .graph => .graph
  | .node => .node
  | .edge => .edge

structure Compass where
  colon : Sign .colon
  name : Option Id

structure Port where
  colon : Sign .colon
  name : Option Id
  compass : Option Compass

structure NodeId where
  id : Id
  port : Option Port

structure Value where
  equal : Sign .equal
  id : Id

structure Attribute where
  key : Id
  value : Option Value
  separator : Option (Terminal isSeparator)

structure Bracket where
  opening : Sign .lBracket
  attributes : List Attribute
  closing : Sign .rBracket

structure AttributeList where
  first : Bracket
  more : List Bracket

mutual
inductive Statement where
  | defaults (subject : Tree.Subject) (keyword : Sign (keyword subject))
      (attributes : Option AttributeList)
  | subgraph (body : Subgraph)
  | assign (key : Id) (equal : Sign .equal) (value : Id)
  | node (node : NodeId) (attributes : Option AttributeList)
  | edge (left : Left) (first : Link) (more : Links) (attributes : Option AttributeList)

inductive Left where
  | node (node : NodeId)
  | subgraph (body : Subgraph)

structure Link where
  op : EdgeOp
  endpoint : Endpoint

inductive Links where
  | nil
  | cons (link : Link) (links : Links)

inductive Endpoint where
  | node (node : NodeId)
  | group (opening : Sign .lBrace) (first : NodeId) (more : List NodeId)
      (closing : Sign .rBrace)
  | subgraph (body : Subgraph)

inductive Subgraph where
  | bare (opening : Sign .lBrace) (statements : Statements) (closing : Sign .rBrace)
  | headed (keyword : Sign .subgraph) (id : Option Id) (opening : Sign .lBrace)
      (statements : Statements) (closing : Sign .rBrace)

inductive Statements where
  | nil
  | cons (statement : Statement) (semicolon : Option (Sign .semicolon))
      (statements : Statements)
end

structure Document where
  strict : Option (Sign .strict)
  header : Terminal isHeader
  id : Option Id
  opening : Sign .lBrace
  statements : Statements
  closing : Sign .rBrace

/-! The tokens of a derivation, in their order. -/

def Compass.yield (compass : Compass) : List Lexeme :=
  compass.colon.yield ++ compass.name.elim [] Terminal.yield

def Port.yield (port : Port) : List Lexeme :=
  port.colon.yield ++ port.name.elim [] Terminal.yield ++ port.compass.elim [] Compass.yield

def NodeId.yield (node : NodeId) : List Lexeme :=
  node.id.yield ++ node.port.elim [] Port.yield

def Value.yield (value : Value) : List Lexeme :=
  value.equal.yield ++ value.id.yield

def Attribute.yield (entry : Attribute) : List Lexeme :=
  entry.key.yield ++ entry.value.elim [] Value.yield ++
    entry.separator.elim [] Terminal.yield

def Bracket.yield (bracket : Bracket) : List Lexeme :=
  bracket.opening.yield ++ bracket.attributes.flatMap Attribute.yield ++ bracket.closing.yield

def AttributeList.yield (list : AttributeList) : List Lexeme :=
  list.first.yield ++ list.more.flatMap Bracket.yield

mutual
def Statement.yield : Statement → List Lexeme
  | .defaults _ keyword attributes => keyword.yield ++ attributes.elim [] AttributeList.yield
  | .subgraph body => body.yield
  | .assign key equal value => key.yield ++ equal.yield ++ value.yield
  | .node node attributes => node.yield ++ attributes.elim [] AttributeList.yield
  | .edge left first more attributes =>
      left.yield ++ first.yield ++ more.yield ++ attributes.elim [] AttributeList.yield

def Left.yield : Left → List Lexeme
  | .node node => node.yield
  | .subgraph body => body.yield

def Link.yield : Link → List Lexeme
  | ⟨op, endpoint⟩ => op.yield ++ endpoint.yield

def Links.yield : Links → List Lexeme
  | .nil => []
  | .cons link links => link.yield ++ links.yield

def Endpoint.yield : Endpoint → List Lexeme
  | .node node => node.yield
  | .group opening first more closing =>
      opening.yield ++ (first :: more).flatMap NodeId.yield ++ closing.yield
  | .subgraph body => body.yield

def Subgraph.yield : Subgraph → List Lexeme
  | .bare opening statements closing => opening.yield ++ statements.yield ++ closing.yield
  | .headed keyword id opening statements closing =>
      keyword.yield ++ id.elim [] Terminal.yield ++
        (opening.yield ++ statements.yield ++ closing.yield)

def Statements.yield : Statements → List Lexeme
  | .nil => []
  | .cons statement semicolon statements =>
      statement.yield ++ semicolon.elim [] Terminal.yield ++ statements.yield
end

def Document.yield (document : Document) : List Lexeme :=
  document.strict.elim [] Terminal.yield ++ document.header.yield ++
    document.id.elim [] Terminal.yield ++
    (document.opening.yield ++ document.statements.yield ++ document.closing.yield)

/-! The tree of a derivation. -/

def flavourOf : Token.Kind → Tree.Flavour
  | .quoted => .quoted
  | .html => .html
  | _ => .bare

def Id.tree (id : Id) : Tree.Ident :=
  ⟨id.position, id.lexeme.token.text, flavourOf id.kind⟩

def Port.tree (port : Port) : Tree.Port :=
  ⟨port.colon.position, port.name.map Id.tree,
    port.compass.bind fun compass => compass.name.map Id.tree⟩

def NodeId.tree (node : NodeId) : Tree.NodeId :=
  ⟨node.id.position, node.id.tree, node.port.map Port.tree⟩

/-- An attribute without a value is set to `true`. -/
def Attribute.tree (entry : Attribute) : Tree.Attribute :=
  ⟨entry.key.position, entry.key.tree,
    entry.value.elim ⟨entry.key.position, "true", .bare⟩ fun value => value.id.tree⟩

def AttributeList.tree (list : AttributeList) : Tree.AttributeList :=
  ⟨list.first.opening.position,
    (list.first :: list.more).flatMap fun bracket => bracket.attributes.map Attribute.tree⟩

mutual
def Statement.tree : Statement → Tree.Statement
  | .defaults subject keyword attributes =>
      .defaults keyword.position subject (attributes.map AttributeList.tree)
  | .subgraph body => .subgraph body.tree
  | .assign key _ value => .assign key.position key.tree value.tree
  | .node node attributes =>
      .node node.id.position node.tree (attributes.map AttributeList.tree)
  | .edge left first more attributes =>
      .edge left.tree.position left.tree (first.tree :: more.trees)
        (attributes.map AttributeList.tree)

def Left.tree : Left → Tree.Endpoint
  | .node node => .node node.tree
  | .subgraph body => .subgraph body.tree

def Link.tree : Link → Tree.Hop
  | ⟨op, endpoint⟩ => ⟨endpoint.tree.position, op.kind = .arrow, endpoint.tree⟩

def Links.trees : Links → List Tree.Hop
  | .nil => []
  | .cons link links => link.tree :: links.trees

def Endpoint.tree : Endpoint → Tree.Endpoint
  | .node node => .node node.tree
  | .group opening first more _ =>
      .group opening.position ((first :: more).map NodeId.tree)
  | .subgraph body => .subgraph body.tree

def Subgraph.tree : Subgraph → Tree.Subgraph
  | .bare opening statements _ => ⟨opening.position, none, statements.trees⟩
  | .headed keyword id _ statements _ =>
      ⟨keyword.position, id.map Id.tree, statements.trees⟩

def Statements.trees : Statements → List Tree.Statement
  | .nil => []
  | .cons statement _ statements => statement.tree :: statements.trees
end

def Document.tree (document : Document) : Tree.Document :=
  ⟨document.strict.elim document.header.position Terminal.position, document.strict.isSome,
    document.header.kind = .digraph, document.id.map Id.tree, document.statements.trees⟩

/-! How deep the subgraphs of a derivation stand inside each other.  A group of nodes is none. -/

mutual
def Statement.nesting : Statement → Nat
  | .defaults _ _ _ | .assign _ _ _ | .node _ _ => 0
  | .subgraph body => body.nesting
  | .edge left first more _ => max left.nesting (max first.nesting more.nesting)

def Left.nesting : Left → Nat
  | .node _ => 0
  | .subgraph body => body.nesting

def Link.nesting : Link → Nat
  | ⟨_, endpoint⟩ => endpoint.nesting

def Links.nesting : Links → Nat
  | .nil => 0
  | .cons link links => max link.nesting links.nesting

def Endpoint.nesting : Endpoint → Nat
  | .node _ | .group _ _ _ _ => 0
  | .subgraph body => body.nesting

def Subgraph.nesting : Subgraph → Nat
  | .bare _ statements _ | .headed _ _ _ statements _ => statements.nesting + 1

def Statements.nesting : Statements → Nat
  | .nil => 0
  | .cons statement _ statements => max statement.nesting statements.nesting
end

def Document.nesting (document : Document) : Nat :=
  document.statements.nesting

end DotGraph.Grammar
