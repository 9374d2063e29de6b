import DotGraph.Graph.Path
import DotGraph.Json.Source

namespace DotGraph

/-! Graphs as JSON.  What is empty, absent or false is left out, but for the label of a node. -/

open Json

def Attributes.toJson (attributes : Attributes) : Json :=
  .object (attributes.entries.map fun entry => (entry.1, .string entry.2))

/-- Of several members of one name the last counts. -/
def Attributes.ofJson : Reading → Except ReadFault Attributes :=
  Reading.foldMembers
    (fun attributes key reading => return attributes.set key (← reading.asString)) .empty

namespace Graph

private def textField {α : Type} (name : String) (get : α → String) (set : String → α → α) :
    Member α :=
  .optional name get set String.isEmpty .string Reading.asString

private def flagField {α : Type} (name : String) (get : α → Bool) (set : Bool → α → α) : Member α :=
  .optional name get set (!·) .bool Reading.asBool

private def optionField {α β : Type} (name : String) (get : α → Option β)
    (set : Option β → α → α) (encode : β → Json) (decode : Reading → Except ReadFault β) :
    Member α :=
  .optional name get set Option.isNone (.ofOption encode) (Reading.asOption decode)

private def arrayField {α β : Type} (name : String) (get : α → Array β) (set : Array β → α → α)
    (encode : β → Json) (decode : Reading → Except ReadFault β) : Member α :=
  .required name get set (fun values => .array (values.toList.map encode))
    (fun reading => List.toArray <$> reading.asList decode)

def Node.record : Record Node where
  blank := { id := "" }
  fields := [
    .required "id" id (fun value node => { node with id := value }) .string Reading.asString,
    .optional "label" label (fun value node => { node with label := value }) (fun _ => false)
      .string Reading.asString,
    textField "color" color fun value node => { node with color := value },
    textField "fillColor" fillColor fun value node => { node with fillColor := value },
    textField "shape" shape fun value node => { node with shape := value },
    textField "style" style fun value node => { node with style := value },
    optionField "group" group (fun value node => { node with group := value }) .string
      Reading.asString,
    .optional "attributes" attributes (fun value node => { node with attributes := value })
      Attributes.isEmpty Attributes.toJson Attributes.ofJson,
    flagField "onPath" onPath fun value node => { node with onPath := value },
    flagField "pathInvalid" pathInvalid fun value node => { node with pathInvalid := value }]

def Node.toJson (node : Node) : Json := Node.record.encode node

def Node.ofJson (reading : Reading) : Except ReadFault Node := Node.record.decode reading

def Link.record : Record Link where
  blank := { source := "", target := "" }
  fields := [
    .required "source" source (fun value link => { link with source := value }) .string
      Reading.asString,
    .required "target" target (fun value link => { link with target := value }) .string
      Reading.asString,
    textField "label" label fun value link => { link with label := value },
    textField "color" color fun value link => { link with color := value },
    textField "style" style fun value link => { link with style := value },
    .optional "attributes" attributes (fun value link => { link with attributes := value })
      Attributes.isEmpty Attributes.toJson Attributes.ofJson,
    flagField "onPath" onPath fun value link => { link with onPath := value }]

def Link.toJson (link : Link) : Json := Link.record.encode link

def Link.ofJson (reading : Reading) : Except ReadFault Link := Link.record.decode reading

def Subgraph.record : Record Subgraph where
  blank := { id := "" }
  fields := [
    .required "id" id (fun value subgraph => { subgraph with id := value }) .string
      Reading.asString,
    textField "label" label fun value subgraph => { subgraph with label := value },
    textField "color" color fun value subgraph => { subgraph with color := value },
    textField "style" style fun value subgraph => { subgraph with style := value },
    arrayField "nodes" nodes (fun value subgraph => { subgraph with nodes := value }) .string
      Reading.asString]

def Subgraph.toJson (subgraph : Subgraph) : Json := Subgraph.record.encode subgraph

def Subgraph.ofJson (reading : Reading) : Except ReadFault Subgraph :=
  Subgraph.record.decode reading

def record : Record Graph where
  blank := {}
  fields := [
    arrayField "nodes" nodes (fun value graph => { graph with nodes := value }) Node.toJson
      Node.ofJson,
    arrayField "links" links (fun value graph => { graph with links := value }) Link.toJson
      Link.ofJson,
    .required "directed" directed (fun value graph => { graph with directed := value }) .bool
      Reading.asBool,
    flagField "strict" strict fun value graph => { graph with strict := value },
    optionField "graphId" id (fun value graph => { graph with id := value }) .string
      Reading.asString,
    .optional "subgraphs" subgraphs (fun value graph => { graph with subgraphs := value })
      Array.isEmpty (fun values => .array (values.toList.map Subgraph.toJson))
      (fun reading => List.toArray <$> reading.asList Subgraph.ofJson)]

def toJson (graph : Graph) : Json := record.encode graph

def ofJson (reading : Reading) : Except ReadFault Graph := record.decode reading

def LostEdge.record : Record LostEdge where
  blank := ⟨"", "", ""⟩
  fields := [
    .required "source" source (fun value edge => { edge with source := value }) .string
      Reading.asString,
    .required "target" target (fun value edge => { edge with target := value }) .string
      Reading.asString,
    .required "invalidNode" unknown (fun value edge => { edge with unknown := value }) .string
      Reading.asString]

def LostEdge.toJson (edge : LostEdge) : Json := LostEdge.record.encode edge

def LostEdge.ofJson (reading : Reading) : Except ReadFault LostEdge :=
  LostEdge.record.decode reading

def PathCheck.record : Record PathCheck where
  blank := { valid := false }
  fields := [
    .required "valid" valid (fun value check => { check with valid := value }) .bool
      Reading.asBool,
    optionField "error" error (fun value check => { check with error := value }) .string
      Reading.asString,
    optionField "invalidEdge" lostEdge (fun value check => { check with lostEdge := value })
      LostEdge.toJson LostEdge.ofJson,
    optionField "lastValidNode" lastNode (fun value check => { check with lastNode := value })
      .string Reading.asString]

def PathCheck.toJson (check : PathCheck) : Json := PathCheck.record.encode check

def PathCheck.ofJson (reading : Reading) : Except ReadFault PathCheck :=
  PathCheck.record.decode reading

/-- The size of a graph and of the path marked in it, under names in alphabetical order. -/
def summary (graph : Graph) : Json :=
  .object [("directed", .bool graph.directed), ("graph_id", .ofOption .string graph.id),
    ("link_count", .number graph.links.size), ("node_count", .number graph.nodes.size),
    ("on_path_links", .number (graph.links.countP Link.onPath)),
    ("on_path_nodes", .number (graph.nodes.countP Node.onPath)),
    ("strict", .bool graph.strict), ("subgraph_count", .number graph.subgraphs.size)]

end Graph

end DotGraph
