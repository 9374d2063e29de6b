import DotGraph.Graph.Assembly

namespace DotGraph

/-! Paths through a graph.  A path is given by a second description, whose edges name its steps; the
nodes and links on the way are marked, up to the first step that leaves the graph. -/

open DotGraph.Tree

structure Graph.LostEdge where
  source : String
  target : String
  unknown : String
deriving DecidableEq, Repr

/-- Whether a path stays in the graph, and if it does not, where it is lost. -/
structure Graph.PathCheck where
  valid : Bool
  error : Option String := none
  lostEdge : Option Graph.LostEdge := none
  lastNode : Option String := none
deriving DecidableEq, Repr

namespace Graph.PathCheck

def success : PathCheck := { valid := true }

/-- Steps are told with an arrow in undirected graphs as well. -/
def lost (source target unknown : String) (lastNode : Option String) : PathCheck where
  valid := false
  error := some ("edge '" ++ source ++ " -> " ++ target ++ "' references unknown node '" ++
    unknown ++ "'")
  lostEdge := some ⟨source, target, unknown⟩
  lastNode := lastNode

end Graph.PathCheck

namespace Tree

mutual
/-- Adds the ids of the nodes that a part of a tree mentions. -/
def Endpoint.collectIds : Endpoint → FirstSeen → FirstSeen
  | .node node, ids => ids.insert node.name
  | .group _ nodes, ids => ids.insertAll (nodes.map NodeId.name)
  | .subgraph ⟨_, _, statements⟩, ids => collectIdsOfAll statements ids

def collectIdsOfHops : List Hop → FirstSeen → FirstSeen
  | [], ids => ids
  | ⟨_, _, endpoint⟩ :: hops, ids => collectIdsOfHops hops (endpoint.collectIds ids)

def Statement.collectIds : Statement → FirstSeen → FirstSeen
  | .node _ node _, ids => ids.insert node.name
  | .edge _ left hops _, ids => collectIdsOfHops hops (left.collectIds ids)
  | .subgraph ⟨_, _, statements⟩, ids => collectIdsOfAll statements ids
  | .defaults _ _ _, ids | .assign _ _ _, ids => ids

def collectIdsOfAll : List Statement → FirstSeen → FirstSeen
  | [], ids => ids
  | statement :: statements, ids => collectIdsOfAll statements (statement.collectIds ids)
end

def Endpoint.ids (endpoint : Endpoint) : List String :=
  (endpoint.collectIds .empty).toList

/-- Each node on the left with each node on the right. -/
def pairs (left right : List String) : List (String × String) :=
  left.flatMap fun source => right.map fun target => (source, target)

def stepsOfHops (left : List String) : List Hop → List (String × String)
  | [] => []
  | hop :: hops => pairs left hop.endpoint.ids ++ stepsOfHops hop.endpoint.ids hops

def Statement.steps : Statement → List (String × String)
  | .edge _ left hops _ => stepsOfHops left.ids hops
  | _ => []

/-- The steps of a path: those of its edges at the top level, in their order. -/
def Document.steps (path : Document) : List (String × String) :=
  path.statements.flatMap Statement.steps

end Tree

namespace Graph

/-- Where to find the nodes and links of a graph. -/
structure PathIndex where
  nodes : Std.HashMap String Nat
  links : Std.HashMap (String × String) Nat
  directed : Bool

namespace PathIndex

/-- Of two nodes with one id the last counts, of two links with the same ends the first. -/
def ofGraph (graph : Graph) : PathIndex where
  nodes := graph.nodes.zipIdx.foldl (fun nodes entry => nodes.insert entry.1.id entry.2) ∅
  links := graph.links.zipIdx.foldl
    (fun links entry => links.insertIfNew (entry.1.source, entry.1.target) entry.2) ∅
  directed := graph.directed

/-- Undirected graphs have links both ways, and the first one counts. -/
def link? (index : PathIndex) (source target : String) : Option Nat :=
  let forward := index.links[(source, target)]?
  if index.directed then forward
  else
    match forward, index.links[(target, source)]? with
    | some forward, some backward => some (min forward backward)
    | forward, backward => forward.or backward

end PathIndex

def markNode (graph : Graph) (index : Nat) : Graph :=
  { graph with nodes := graph.nodes.modify index fun node => { node with onPath := true } }

def markLost (graph : Graph) (index : Nat) : Graph :=
  { graph with nodes := graph.nodes.modify index fun node => { node with pathInvalid := true } }

def markLink (graph : Graph) (index : Option Nat) : Graph :=
  match index with
  | none => graph
  | some index =>
      { graph with links := graph.links.modify index fun link => { link with onPath := true } }

/-- A walk over the steps of a path: the graph with its marks, how the path ends, and the steps that
were made. -/
structure Walk where
  graph : Graph
  check : PathCheck
  made : Array (String × String)

/-- Makes the steps one after the other, as long as both ends are there. -/
def walkSteps (index : PathIndex) :
    List (String × String) → Graph → Array (String × String) → Walk
  | [], graph, made => ⟨graph, .success, made⟩
  | (source, target) :: steps, graph, made =>
      match index.nodes[source]?, index.nodes[target]? with
      | some s, some t =>
          walkSteps index steps
            (((graph.markNode s).markNode t).markLink (index.link? source target))
            (made.push (source, target))
      | some s, none => ⟨graph.markLost s, .lost source target target (some source), made⟩
      | none, some t => ⟨graph.markLost t, .lost source target source (some target), made⟩
      | none, none => ⟨graph, .lost source target source none, made⟩

/-- Marks a path.  Nothing is added: ids are looked up only, and a step without a link marks its
ends. -/
def walk (graph : Graph) (path : Document) : Walk :=
  walkSteps (.ofGraph graph) path.steps graph #[]

/-- Marks a path that is given by its source, in which nothing may be wrong. -/
def highlight (filename : String) (bytes : ByteArray) :
    ExceptT (List Diagnostic) (StateM Graph) Walk := do
  let path ← ExceptT.mk (pure (parse filename bytes).checked)
  let walk := (← get).walk path
  set walk.graph
  return walk

/-- What comes of such a path, with the marked graph if there is one. -/
def walkSource (graph : Graph) (filename : String) (bytes : ByteArray) :
    Except (List Diagnostic) Walk :=
  ((highlight filename bytes).run.run graph).1

end Graph

end DotGraph
