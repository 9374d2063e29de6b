import DotGraph.Proofs.Grammar
import DotGraph.Proofs.Token.Spelling

namespace DotGraph

/-- A keyword as it is usually written. -/
def Token.word (kind : Token.Kind) : Token :=
  ⟨kind, kind.name⟩

namespace Tree

/-! The tokens that a tree is written with. -/

def Ident.token (ident : Ident) : Token :=
  match ident.flavour with
  | .bare => ⟨.ident, ident.name⟩
  | .quoted => ⟨.quoted, ident.name⟩
  | .html => ⟨.html, ident.name⟩

def Port.tokens (port : Port) : List Token :=
  .punctuation .colon :: (port.name.elim [] (fun name => [name.token]) ++
    port.compass.elim [] fun compass => [.punctuation .colon, compass.token])

def NodeId.tokens (node : NodeId) : List Token :=
  node.ident.token :: node.port.elim [] Port.tokens

def Attribute.tokens (entry : Attribute) : List Token :=
  [entry.key.token, .punctuation .equal, entry.value.token]

def AttributeList.tokens (list : AttributeList) : List Token :=
  .punctuation .lBracket ::
    ([Token.punctuation .comma].intercalate (list.attributes.map Attribute.tokens) ++
      [.punctuation .rBracket])

mutual
def Statement.tokens : Statement → List Token
  | .node _ node attributes => node.tokens ++ attributes.elim [] AttributeList.tokens
  | .edge _ left hops attributes =>
      left.tokens ++ (tokensOfHops hops ++ attributes.elim [] AttributeList.tokens)
  | .defaults _ subject attributes =>
      .word (Grammar.keyword subject) :: attributes.elim [] AttributeList.tokens
  | .assign _ key value => [key.token, .punctuation .equal, value.token]
  | .subgraph body => body.tokens

def Endpoint.tokens : Endpoint → List Token
  | .node node => node.tokens
  | .group _ nodes =>
      .punctuation .lBrace :: (nodes.flatMap NodeId.tokens ++ [.punctuation .rBrace])
  | .subgraph body => body.tokens

def tokensOfHops : List Hop → List Token
  | [] => []
  | ⟨_, directed, endpoint⟩ :: hops =>
      .punctuation (if directed then .arrow else .dashDash) ::
        (endpoint.tokens ++ tokensOfHops hops)

def Subgraph.tokens : Subgraph → List Token
  | ⟨_, ident, statements⟩ =>
      .word .subgraph :: (ident.elim [] (fun ident => [ident.token]) ++
        .punctuation .lBrace :: (tokensOfStatements statements ++ [.punctuation .rBrace]))

def tokensOfStatements : List Statement → List Token
  | [] => []
  | statement :: statements =>
      statement.tokens ++ .punctuation .semicolon :: tokensOfStatements statements
end

def Document.tokens (document : Document) : List Token :=
  (if document.strict then [.word .strict] else []) ++
    .word (if document.directed then .digraph else .graph) ::
      (document.ident.elim [] (fun ident => [ident.token]) ++
        .punctuation .lBrace :: (tokensOfStatements document.statements ++ [.punctuation .rBrace]))

/-! Which trees can be written.  A name has to have a spelling.  A port without any name takes the
name behind it, a group without nodes is a subgraph, and an edge goes from a node or a subgraph to
somewhere. -/

def Ident.isWritable (ident : Ident) : Bool :=
  ident.token.isSpellable

def Port.isWritable (port : Port) : Bool :=
  (port.name.isSome || port.compass.isSome) && port.name.all Ident.isWritable &&
    port.compass.all Ident.isWritable

def NodeId.isWritable (node : NodeId) : Bool :=
  node.ident.isWritable && node.port.all Port.isWritable

def Attribute.isWritable (entry : Attribute) : Bool :=
  entry.key.isWritable && entry.value.isWritable

def AttributeList.isWritable (list : AttributeList) : Bool :=
  list.attributes.all Attribute.isWritable

def Endpoint.isGroup : Endpoint → Bool
  | .group _ _ => true
  | _ => false

mutual
def Statement.isWritable : Statement → Bool
  | .node _ node attributes => node.isWritable && attributes.all AttributeList.isWritable
  | .edge _ left hops attributes =>
      !left.isGroup && !hops.isEmpty && left.isWritable && areWritableHops hops &&
        attributes.all AttributeList.isWritable
  | .defaults _ _ attributes => attributes.all AttributeList.isWritable
  | .assign _ key value => key.isWritable && value.isWritable
  | .subgraph body => body.isWritable

def Endpoint.isWritable : Endpoint → Bool
  | .node node => node.isWritable
  | .group _ nodes => !nodes.isEmpty && nodes.all NodeId.isWritable
  | .subgraph body => body.isWritable

def areWritableHops : List Hop → Bool
  | [] => true
  | ⟨_, _, endpoint⟩ :: hops => endpoint.isWritable && areWritableHops hops

def Subgraph.isWritable : Subgraph → Bool
  | ⟨_, ident, statements⟩ => ident.all Ident.isWritable && areWritable statements

def areWritable : List Statement → Bool
  | [] => true
  | statement :: statements => statement.isWritable && areWritable statements
end

/-! How deep the subgraphs of a tree stand inside each other. -/

mutual
def Statement.nesting : Statement → Nat
  | .node _ _ _ | .defaults _ _ _ | .assign _ _ _ => 0
  | .edge _ left hops _ => max left.nesting (nestingOfHops hops)
  | .subgraph body => body.nesting

def Endpoint.nesting : Endpoint → Nat
  | .node _ | .group _ _ => 0
  | .subgraph body => body.nesting

def nestingOfHops : List Hop → Nat
  | [] => 0
  | ⟨_, _, endpoint⟩ :: hops => max endpoint.nesting (nestingOfHops hops)

def Subgraph.nesting : Subgraph → Nat
  | ⟨_, _, statements⟩ => nestingOf statements + 1

def nestingOf : List Statement → Nat
  | [] => 0
  | statement :: statements => max statement.nesting (nestingOf statements)
end

def Document.nesting (document : Document) : Nat :=
  nestingOf document.statements

def Document.isWritable (document : Document) : Bool :=
  document.ident.all Ident.isWritable && areWritable document.statements &&
    document.nesting ≤ TokenReader.maxNesting

/-! A tree without its positions. -/

def Ident.unplaced (ident : Ident) : Ident :=
  { ident with position := .nowhere }

def Port.unplaced (port : Port) : Port :=
  ⟨.nowhere, port.name.map Ident.unplaced, port.compass.map Ident.unplaced⟩

def NodeId.unplaced (node : NodeId) : NodeId :=
  ⟨.nowhere, node.ident.unplaced, node.port.map Port.unplaced⟩

def Attribute.unplaced (entry : Attribute) : Attribute :=
  ⟨.nowhere, entry.key.unplaced, entry.value.unplaced⟩

def AttributeList.unplaced (list : AttributeList) : AttributeList :=
  ⟨.nowhere, list.attributes.map Attribute.unplaced⟩

mutual
def Statement.unplaced : Statement → Statement
  | .node _ node attributes =>
      .node .nowhere node.unplaced (attributes.map AttributeList.unplaced)
  | .edge _ left hops attributes =>
      .edge .nowhere left.unplaced (unplacedHops hops) (attributes.map AttributeList.unplaced)
  | .defaults _ subject attributes =>
      .defaults .nowhere subject (attributes.map AttributeList.unplaced)
  | .assign _ key value => .assign .nowhere key.unplaced value.unplaced
  | .subgraph body => .subgraph body.unplaced

def Endpoint.unplaced : Endpoint → Endpoint
  | .node node => .node node.unplaced
  | .group _ nodes => .group .nowhere (nodes.map NodeId.unplaced)
  | .subgraph body => .subgraph body.unplaced

def unplacedHops : List Hop → List Hop
  | [] => []
  | ⟨_, directed, endpoint⟩ :: hops => ⟨.nowhere, directed, endpoint.unplaced⟩ :: unplacedHops hops

def Subgraph.unplaced : Subgraph → Subgraph
  | ⟨_, ident, statements⟩ => ⟨.nowhere, ident.map Ident.unplaced, unplacedAll statements⟩

def unplacedAll : List Statement → List Statement
  | [] => []
  | statement :: statements => statement.unplaced :: unplacedAll statements
end

def Document.unplaced (document : Document) : Document :=
  ⟨.nowhere, document.strict, document.directed, document.ident.map Ident.unplaced,
    unplacedAll document.statements⟩

end Tree

end DotGraph
