import DotGraph.Graph.Assembly
import DotGraph.Json

namespace DotGraph

/-! What a source is found to be: its kind, its size, and what is wrong with it. -/

structure Validation where
  directed : Bool
  strict : Bool
  nodeCount : Nat
  linkCount : Nat
  subgraphCount : Nat
  diagnostics : List Diagnostic
deriving DecidableEq, Repr

namespace Validation

def isValid (validation : Validation) : Bool :=
  validation.diagnostics.isEmpty

/-- The graph is made of whatever could be read. -/
def ofGraph (graph : Graph) (diagnostics : List Diagnostic) : Validation where
  directed := graph.directed
  strict := graph.strict
  nodeCount := graph.nodes.size
  linkCount := graph.links.size
  subgraphCount := graph.subgraphs.size
  diagnostics := diagnostics

def diagnosticJson (diagnostic : Diagnostic) : Json :=
  .object [("code", .string diagnostic.kind.code), ("message", .string diagnostic.message),
    ("line", .number diagnostic.position.line), ("column", .number diagnostic.position.column)]

def toJson (validation : Validation) : Json :=
  .object [("valid", .bool validation.isValid), ("directed", .bool validation.directed),
    ("strict", .bool validation.strict), ("node_count", .number validation.nodeCount),
    ("link_count", .number validation.linkCount),
    ("subgraph_count", .number validation.subgraphCount),
    ("errors", .array (validation.diagnostics.map diagnosticJson))]

def verdict (validation : Validation) : String :=
  (if validation.isValid then "✓ Valid " else "✗ Invalid ") ++
    (if validation.directed then "digraph" else "graph")

def diagnosticLine (diagnostic : Diagnostic) : String :=
  "  [" ++ diagnostic.kind.code ++ "] " ++ diagnostic.message ++
    " (line " ++ toString diagnostic.position.line ++
    ", col " ++ toString diagnostic.position.column ++ ")"

def lines (validation : Validation) : List String :=
  [validation.verdict,
    "  Nodes: " ++ toString validation.nodeCount,
    "  Links: " ++ toString validation.linkCount,
    "  Subgraphs: " ++ toString validation.subgraphCount] ++
    if validation.isValid then []
    else "" :: "Errors:" :: validation.diagnostics.map diagnosticLine

def render (json : Bool) (validation : Validation) : String :=
  if json then validation.toJson.pretty ++ "\n"
  else String.join (validation.lines.map fun line => line ++ "\n")

end Validation

end DotGraph
