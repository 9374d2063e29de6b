import DotGraph.Json.Source
import DotGraph.Tree.Document

namespace DotGraph.Tree

/-! Syntax trees as JSON.  Nothing is left out: what is absent is null. -/

open Json

def Flavour.name : Flavour → String
  | bare => "Bare"
  | quoted => "Quoted"
  | html => "Html"

def Ident.toJson (ident : Ident) : Json :=
  .object [("position", ident.position.toJson), ("name", .string ident.name),
    ("kind", .string ident.flavour.name)]

def Port.toJson (port : Port) : Json :=
  .object [("position", port.position.toJson), ("id", .ofOption Ident.toJson port.name),
    ("compass", .ofOption Ident.toJson port.compass)]

def NodeId.toJson (node : NodeId) : Json :=
  .object [("position", node.position.toJson), ("id", node.ident.toJson),
    ("port", .ofOption Port.toJson node.port)]

def Attribute.toJson (entry : Attribute) : Json :=
  .object [("position", entry.position.toJson), ("key", entry.key.toJson),
    ("value", entry.value.toJson)]

def AttributeList.toJson (list : AttributeList) : Json :=
  .object [("position", list.position.toJson),
    ("attrs", .array (list.attributes.map Attribute.toJson))]

def Subject.label : Subject → String
  | graph => "Graph"
  | node => "Node"
  | edge => "Edge"

mutual
def Statement.toJson : Statement → Json
  | .node position node attributes =>
      .object [("Node", .object [("position", position.toJson), ("node", node.toJson),
        ("attrs", .ofOption AttributeList.toJson attributes)])]
  | .edge position left hops attributes =>
      .object [("Edge", .object [("position", position.toJson), ("left", left.toJson),
        ("rights", .array (hopsToJson hops)),
        ("attrs", .ofOption AttributeList.toJson attributes)])]
  | .defaults position subject attributes =>
      .object [("Attr", .object [("position", position.toJson),
        ("kind", .string subject.label),
        ("attrs", .ofOption AttributeList.toJson attributes)])]
  | .assign position key value =>
      .object [("Assign", .object [("position", position.toJson), ("key", key.toJson),
        ("value", value.toJson)])]
  | .subgraph body => .object [("Subgraph", body.toJson)]

def Endpoint.toJson : Endpoint → Json
  | .node node => .object [("Node", node.toJson)]
  | .group position nodes =>
      .object [("Group", .object [("position", position.toJson),
        ("nodes", .array (nodes.map NodeId.toJson))])]
  | .subgraph body => .object [("Subgraph", body.toJson)]

def Hop.toJson : Hop → Json
  | ⟨position, directed, endpoint⟩ =>
      .object [("position", position.toJson), ("directed", .bool directed),
        ("endpoint", endpoint.toJson)]

def Subgraph.toJson : Subgraph → Json
  | ⟨position, ident, statements⟩ =>
      .object [("position", position.toJson), ("id", .ofOption Ident.toJson ident),
        ("statements", .array (statementsToJson statements))]

def hopsToJson : List Hop → List Json
  | [] => []
  | hop :: hops => hop.toJson :: hopsToJson hops

def statementsToJson : List Statement → List Json
  | [] => []
  | statement :: statements => statement.toJson :: statementsToJson statements
end

def Document.toJson (document : Document) : Json :=
  .object [("position", document.position.toJson), ("strict", .bool document.strict),
    ("directed", .bool document.directed), ("id", .ofOption Ident.toJson document.ident),
    ("statements", .array (statementsToJson document.statements))]

end DotGraph.Tree

namespace DotGraph

def Parsed.toJson (parsed : Parsed) : Json :=
  .object [("ast", parsed.document.toJson),
    ("errors", .array (parsed.diagnostics.map Diagnostic.toJson))]

end DotGraph
