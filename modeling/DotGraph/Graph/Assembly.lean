import DotGraph.Graph
import DotGraph.Graph.FirstSeen
import DotGraph.Tree.Document
import Std.Data.HashMap

namespace DotGraph

/-! A graph in the making.  Statements are taken in the order of the source.  Default attributes
stay in force from where they are set to the end, also past the end of a subgraph. -/

open DotGraph.Tree

structure Assembly where
  graph : Graph
  /-- Where each node stands among the nodes. -/
  nodeIndex : Std.HashMap String Nat := ∅
  /-- Where each named subgraph stands among the subgraphs. -/
  subgraphIndex : Std.HashMap String Nat := ∅
  /-- The members of each named subgraph. -/
  members : Array (Std.HashSet String) := #[]
  /-- The ends of the links of a strict graph. -/
  linkPairs : Std.HashSet (String × String) := ∅
  nodeDefaults : Attributes := .empty
  linkDefaults : Attributes := .empty
  /-- The ends of the links that a strict graph has refused. -/
  refused : Array (String × String) := #[]

namespace Assembly

def start (directed strict : Bool) (id : Option String) : Assembly :=
  { graph := { directed, strict, id } }

def pairsOf (attributes : Option AttributeList) : List (String × String) :=
  (attributes.map AttributeList.pairs).getD []

def setDefaults (assembly : Assembly) (subject : Subject) (attributes : Option AttributeList) :
    Assembly :=
  match subject with
  | .graph => assembly
  | .node =>
      { assembly with nodeDefaults := assembly.nodeDefaults.setAll (pairsOf attributes) }
  | .edge =>
      { assembly with linkDefaults := assembly.linkDefaults.setAll (pairsOf attributes) }

/-- The place of a node, which is added if it is not there. -/
def slot (assembly : Assembly) (id : String) : Nat × Assembly :=
  match assembly.nodeIndex[id]? with
  | some index => (index, assembly)
  | none =>
      let index := assembly.graph.nodes.size
      (index,
        { assembly with
          graph := { assembly.graph with nodes := assembly.graph.nodes.push (.named id) }
          nodeIndex := assembly.nodeIndex.insert id index })

def updateNode (assembly : Assembly) (id : String) (change : Graph.Node → Graph.Node) :
    Assembly :=
  let (index, assembly) := assembly.slot id
  { assembly with
    graph := { assembly.graph with nodes := assembly.graph.nodes.modify index change } }

/-- A node that has a statement takes the defaults, and then what the statement says. -/
def describeNode (assembly : Assembly) (id : String) (attributes : Option AttributeList)
    (group : Option String) : Assembly :=
  let defaults := assembly.nodeDefaults.entries
  assembly.updateNode id fun node =>
    ((node.setAll defaults).setAll (pairsOf attributes)).join group

/-- A node that an edge mentions takes the defaults for what it has not been given yet. -/
def mentionNode (assembly : Assembly) (id : String) (group : Option String) : Assembly :=
  let defaults := assembly.nodeDefaults.entries
  assembly.updateNode id fun node => (node.fillIn defaults).join group

def mentionNodes (assembly : Assembly) (ids : List String) (group : Option String) : Assembly :=
  ids.foldl (fun assembly id => assembly.mentionNode id group) assembly

/-- Whether a strict graph has a link between these ends. -/
def isLinked (assembly : Assembly) (source target : String) : Bool :=
  assembly.linkPairs.contains (source, target) ||
    (!assembly.graph.directed && assembly.linkPairs.contains (target, source))

def pushLink (assembly : Assembly) (link : Graph.Link) : Assembly :=
  { assembly with graph := { assembly.graph with links := assembly.graph.links.push link } }

/-- A strict graph has one link between two ends at most, and the first one stays. -/
def addLink (assembly : Assembly) (attributes : Option AttributeList) (source target : String) :
    Assembly :=
  let link : Graph.Link := { source, target }
  let link := (link.setAll assembly.linkDefaults.entries).setAll (pairsOf attributes)
  if assembly.graph.strict then
    if assembly.isLinked source target then
      { assembly with refused := assembly.refused.push (source, target) }
    else
      { assembly.pushLink link with
        linkPairs := assembly.linkPairs.insert (source, target) }
  else assembly.pushLink link

/-- Links every node on the left to every node on the right. -/
def addLinks (assembly : Assembly) (attributes : Option AttributeList)
    (left right : List String) : Assembly :=
  left.foldl (fun assembly source =>
    right.foldl (fun assembly target => assembly.addLink attributes source target) assembly)
    assembly

/-- The place of a named subgraph, which is added if it is not there. -/
def subgraphSlot (assembly : Assembly) (name : String) : Nat × Assembly :=
  match assembly.subgraphIndex[name]? with
  | some index => (index, assembly)
  | none =>
      let index := assembly.graph.subgraphs.size
      (index,
        { assembly with
          graph := { assembly.graph with
            subgraphs := assembly.graph.subgraphs.push { id := name } }
          subgraphIndex := assembly.subgraphIndex.insert name index
          members := assembly.members.push ∅ })

def addMember (assembly : Assembly) (index : Nat) (id : String) : Assembly :=
  if (assembly.members[index]?.getD ∅).contains id then assembly
  else
    { assembly with
      graph := { assembly.graph with
        subgraphs := assembly.graph.subgraphs.modify index fun subgraph =>
          { subgraph with nodes := subgraph.nodes.push id } }
      members := assembly.members.modify index fun members => members.insert id }

def setSubgraph (assembly : Assembly) (index : Nat) (key value : String) : Assembly :=
  { assembly with
    graph := { assembly.graph with
      subgraphs := assembly.graph.subgraphs.modify index fun subgraph =>
        subgraph.set key value } }

/-- The assignments that stand directly in the body of a subgraph. -/
def assignments (statements : List Statement) : List (String × String) :=
  statements.filterMap fun statement =>
    match statement with
    | .assign _ key value => some (key.name, value.name)
    | _ => none

/-- Records the members of a named subgraph, and what its body says about it. -/
def recordSubgraph (assembly : Assembly) (name : String) (ids : List String)
    (statements : List Statement) : Assembly :=
  let (index, assembly) := assembly.subgraphSlot name
  let assembly := ids.foldl (fun assembly id => assembly.addMember index id) assembly
  (assignments statements).foldl
    (fun assembly entry => assembly.setSubgraph index entry.1 entry.2) assembly

mutual
/-- Takes statements in their order.  `group` is the innermost named subgraph around them; `ids` are
the nodes touched so far. -/
def addStatements (group : Option String) :
    List Statement → Assembly → FirstSeen → Assembly × FirstSeen
  | [], assembly, ids => (assembly, ids)
  | statement :: statements, assembly, ids =>
      let (assembly, ids) := addStatement group statement assembly ids
      addStatements group statements assembly ids

def addStatement (group : Option String) :
    Statement → Assembly → FirstSeen → Assembly × FirstSeen
  | .node _ node attributes, assembly, ids =>
      (assembly.describeNode node.name attributes group, ids.insert node.name)
  | .edge _ left hops attributes, assembly, ids =>
      let (leftIds, assembly) := addEndpoint group left assembly
      addHops group attributes leftIds hops assembly (ids.insertAll leftIds)
  | .defaults _ subject attributes, assembly, ids =>
      (assembly.setDefaults subject attributes, ids)
  | .assign _ _ _, assembly, ids => (assembly, ids)
  | .subgraph body, assembly, ids =>
      let (bodyIds, assembly) := addSubgraph group body assembly
      (assembly, ids.insertAll bodyIds)

/-- Links the nodes on the left to those of the first hop, those to the next, and so on. -/
def addHops (group : Option String) (attributes : Option AttributeList) (left : List String) :
    List Hop → Assembly → FirstSeen → Assembly × FirstSeen
  | [], assembly, ids => (assembly, ids)
  | ⟨_, _, endpoint⟩ :: hops, assembly, ids =>
      let (right, assembly) := addEndpoint group endpoint assembly
      addHops group attributes right hops (assembly.addLinks attributes left right)
        (ids.insertAll right)

/-- The ids that an endpoint stands for; a group stands for its ids as they are written. -/
def addEndpoint (group : Option String) : Endpoint → Assembly → List String × Assembly
  | .node node, assembly => ([node.name], assembly.mentionNode node.name group)
  | .group _ nodes, assembly =>
      let ids := nodes.map NodeId.name
      (ids, assembly.mentionNodes ids group)
  | .subgraph body, assembly => addSubgraph group body assembly

def addSubgraph (group : Option String) : Subgraph → Assembly → List String × Assembly
  | ⟨_, ident, statements⟩, assembly =>
      let name := ident.map Ident.name
      let (assembly, ids) := addStatements (name.or group) statements assembly .empty
      match name with
      | some name => (ids.toList, assembly.recordSubgraph name ids.toList statements)
      | none => (ids.toList, assembly)
end

/-- Takes statements and tells which nodes they touch. -/
def process (assembly : Assembly) (statements : List Statement) (group : Option String) :
    List String × Assembly :=
  let (assembly, ids) := addStatements group statements assembly .empty
  (ids.toList, assembly)

def ofDocument (document : Document) : Assembly :=
  ((start document.directed document.strict (document.ident.map Ident.name)).process
    document.statements none).2

end Assembly

def Tree.Document.toGraph (document : Document) : Graph :=
  (Assembly.ofDocument document).graph

/-- The graph of a source in which nothing is wrong. -/
def Graph.ofSource (filename : String) (bytes : ByteArray) : Except (List Diagnostic) Graph :=
  Document.toGraph <$> (parse filename bytes).checked

end DotGraph
