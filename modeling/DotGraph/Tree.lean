import DotGraph.Position

namespace DotGraph.Tree

/-! The syntax tree of a graph description.  Every part records the position of its first token. -/

inductive Flavour where
  | bare
  | quoted
  | html
deriving DecidableEq, Repr, Inhabited

structure Ident where
  position : Position
  name : String
  flavour : Flavour
deriving DecidableEq, Repr

structure Port where
  position : Position
  name : Option Ident
  compass : Option Ident
deriving DecidableEq, Repr

structure NodeId where
  position : Position
  ident : Ident
  port : Option Port
deriving DecidableEq, Repr

def NodeId.name (node : NodeId) : String :=
  node.ident.name

structure Attribute where
  position : Position
  key : Ident
  value : Ident
deriving DecidableEq, Repr

structure AttributeList where
  position : Position
  attributes : List Attribute
deriving DecidableEq, Repr

namespace AttributeList

def pairs (list : AttributeList) : List (String × String) :=
  list.attributes.map fun entry => (entry.key.name, entry.value.name)

/-- The first value that the list gives a key. -/
def get? (list : AttributeList) (key : String) : Option String :=
  list.pairs.lookup key

end AttributeList

/-- What a list of default attributes is about. -/
inductive Subject where
  | graph
  | node
  | edge
deriving DecidableEq, Repr

def Subject.name : Subject → String
  | graph => "graph"
  | node => "node"
  | edge => "edge"

mutual
inductive Statement where
  | node (position : Position) (node : NodeId) (attributes : Option AttributeList)
  | edge (position : Position) (left : Endpoint) (hops : List Hop)
      (attributes : Option AttributeList)
  | defaults (position : Position) (subject : Subject) (attributes : Option AttributeList)
  | assign (position : Position) (key value : Ident)
  | subgraph (body : Subgraph)

inductive Endpoint where
  | node (node : NodeId)
  | group (position : Position) (nodes : List NodeId)
  | subgraph (body : Subgraph)

structure Hop where
  position : Position
  directed : Bool
  endpoint : Endpoint

structure Subgraph where
  position : Position
  ident : Option Ident
  statements : List Statement
end

def Subgraph.name? (subgraph : Subgraph) : Option String :=
  subgraph.ident.map Ident.name

def Statement.position : Statement → Position
  | .node position _ _ => position
  | .edge position _ _ _ => position
  | .defaults position _ _ => position
  | .assign position _ _ => position
  | .subgraph body => body.position

def Endpoint.position : Endpoint → Position
  | .node nodeId => nodeId.position
  | .group position _ => position
  | .subgraph body => body.position

structure Document where
  position : Position
  strict : Bool
  directed : Bool
  ident : Option Ident
  statements : List Statement

end DotGraph.Tree
