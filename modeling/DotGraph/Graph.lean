import DotGraph.Graph.Attributes

namespace DotGraph

/-! Graphs as they are meant: nodes and links in the order in which they were first mentioned, each
with its attributes, and the named subgraphs with their members. -/

structure Graph.Node where
  id : String
  label : String := ""
  color : String := ""
  fillColor : String := ""
  shape : String := ""
  style : String := ""
  group : Option String := none
  attributes : Attributes := .empty
  onPath : Bool := false
  pathInvalid : Bool := false
deriving DecidableEq, Repr

structure Graph.Link where
  source : String
  target : String
  label : String := ""
  color : String := ""
  style : String := ""
  attributes : Attributes := .empty
  onPath : Bool := false
deriving DecidableEq, Repr

structure Graph.Subgraph where
  id : String
  label : String := ""
  color : String := ""
  style : String := ""
  nodes : Array String := #[]
deriving DecidableEq, Repr

structure Graph where
  nodes : Array Graph.Node := #[]
  links : Array Graph.Link := #[]
  directed : Bool := false
  strict : Bool := false
  id : Option String := none
  subgraphs : Array Graph.Subgraph := #[]
deriving DecidableEq, Repr

namespace Graph

/-- A node is labelled with its id until it gets another label. -/
def Node.named (id : String) : Node :=
  { id, label := id }

/-- Five keys have fields of their own; all others are kept in the map. -/
def Node.set (node : Node) (key value : String) : Node :=
  match key with
  | "label" => { node with label := value }
  | "color" => { node with color := value }
  | "fillcolor" => { node with fillColor := value }
  | "shape" => { node with shape := value }
  | "style" => { node with style := value }
  | key => { node with attributes := node.attributes.set key value }

def Node.setAll (node : Node) (entries : List (String × String)) : Node :=
  entries.foldl (fun node entry => node.set entry.1 entry.2) node

def Node.isUnset (node : Node) (key : String) : Bool :=
  match key with
  | "label" => node.label = node.id
  | "color" => node.color.isEmpty
  | "fillcolor" => node.fillColor.isEmpty
  | "shape" => node.shape.isEmpty
  | "style" => node.style.isEmpty
  | key => (node.attributes.get? key).all String.isEmpty

/-- Sets what is unset and leaves the rest alone. -/
def Node.fillIn (node : Node) (entries : List (String × String)) : Node :=
  entries.foldl (fun node entry =>
    if node.isUnset entry.1 then node.set entry.1 entry.2 else node) node

/-- A node belongs to the first group that it is put into. -/
def Node.join (node : Node) (group : Option String) : Node :=
  { node with group := node.group.or group }

/-- Three keys have fields of their own; all others are kept in the map. -/
def Link.set (link : Link) (key value : String) : Link :=
  match key with
  | "label" => { link with label := value }
  | "color" => { link with color := value }
  | "style" => { link with style := value }
  | key => { link with attributes := link.attributes.set key value }

def Link.setAll (link : Link) (entries : List (String × String)) : Link :=
  entries.foldl (fun link entry => link.set entry.1 entry.2) link

/-- Links of an undirected graph join their ends both ways. -/
def Link.joins (link : Link) (source target : String) (directed : Bool) : Bool :=
  (link.source = source && link.target = target) ||
    (!directed && link.source = target && link.target = source)

/-- Three keys say something about a subgraph; all others are ignored. -/
def Subgraph.set (subgraph : Subgraph) (key value : String) : Subgraph :=
  match key with
  | "label" => { subgraph with label := value }
  | "color" => { subgraph with color := value }
  | "style" => { subgraph with style := value }
  | _ => subgraph

def node? (graph : Graph) (id : String) : Option Node :=
  graph.nodes.find? fun node => node.id = id

def hasNode (graph : Graph) (id : String) : Bool :=
  (graph.node? id).isSome

def link? (graph : Graph) (source target : String) : Option Link :=
  graph.links.find? fun link => link.joins source target graph.directed

def subgraph? (graph : Graph) (id : String) : Option Subgraph :=
  graph.subgraphs.find? fun subgraph => subgraph.id = id

def clearPath (graph : Graph) : Graph :=
  { graph with
    nodes := graph.nodes.map fun node => { node with onPath := false, pathInvalid := false }
    links := graph.links.map fun link => { link with onPath := false } }

end Graph

end DotGraph
