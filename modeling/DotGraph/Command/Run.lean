import DotGraph.Command.Arguments
import DotGraph.Command.Report
import DotGraph.Command.Surroundings
import DotGraph.Command.Validation
import DotGraph.Graph.Path
import DotGraph.Json.Graph
import DotGraph.Json.Tree

namespace DotGraph

/-! The commands, from a command line to what is seen of the run. -/

def Assembly.events (assembly : Assembly) : List Log.Event :=
  assembly.refused.toList.map (fun ends => .linkRefused ends.1 ends.2) ++
    [.graphBuilt assembly.graph]

def Graph.Walk.events (walk : Graph.Walk) : List Log.Event :=
  walk.made.toList.map (fun ends => .stepMade ends.1 ends.2) ++
    match walk.check.error with
    | none => []
    | some reason => [.pathLost reason, .pathRejected reason]

def tokenLine (token : Located Token) : String :=
  toString token.position.line ++ ":" ++ toString token.position.column ++ "\t" ++
    token.value.display ++ "\n"

namespace Source

def showTree (pretty : Bool) (source : Source) : Report :=
  let parsed := parse source.name source.bytes
  (Report.shown (parsed.toJson.render pretty ++ "\n") parsed.isClean).noting
    (parsed.diagnostics.map fun diagnostic => .diagnosed diagnostic.display)

def showTokens (source : Source) : Report :=
  let (tokens, diagnostics) := tokenize source.name source.bytes
  (Report.shown (String.join (tokens.map tokenLine)) diagnostics.isEmpty).after
    (diagnostics.map fun diagnostic => .line diagnostic.display)

def showValidation (json : Bool) (source : Source) : Report :=
  let parsed := parse source.name source.bytes
  let assembly := Assembly.ofDocument parsed.document
  let validation := Validation.ofGraph assembly.graph parsed.diagnostics
  (Report.shown (validation.render json) validation.isValid).noting assembly.events

end Source

/-- What is shown of a graph, and of the path through it if there is one. -/
def Graph.conversion (graph : Graph) (check : Option Graph.PathCheck) (summary : Bool) : Json :=
  if summary then graph.summary
  else
    match check with
    | none => graph.toJson
    | some check => .object [("graph", graph.toJson), ("pathValidation", check.toJson)]

namespace Surroundings

/-- Brings a result where it is wanted. -/
def deliver (surroundings : Surroundings) (output : Option String) (text : String)
    (isGood : Bool) : Report :=
  match output with
  | none => .shown text isGood
  | some path =>
      match surroundings.refusal path with
      | some error => .failed (.unwritable path error)
      | none =>
          Report.noting [.outputWritten path]
            ⟨[], .delivered (.written ⟨path, text⟩) isGood⟩

/-- A path that leaves the graph is delivered like any other, however bad it is. -/
def deliverGraph (surroundings : Surroundings) (settings : Settings) (output : Option String)
    (pretty summary : Bool) (graph : Graph) (check : Option Graph.PathCheck) : Report :=
  surroundings.deliver output ((graph.conversion check summary).render pretty ++ "\n")
    (check.all Graph.PathCheck.valid || !settings.failOnInvalidPath)

def document (surroundings : Surroundings) (settings : Settings) (input : String) :
    Except Failure Tree.Document := do
  let source ← surroundings.source settings input
  (parse source.name source.bytes).checked.mapError (.faultyGraph source.name)

def walk (surroundings : Surroundings) (settings : Settings) (graph : Graph) (path : String) :
    Except Failure Graph.Walk := do
  let source ← surroundings.source settings path
  (graph.walkSource source.name source.bytes).mapError (.faultyPath source.name)

/-- Nothing is delivered unless both the graph and the path are without fault. -/
def convert (surroundings : Surroundings) (settings : Settings) (input : String)
    (path output : Option String) (pretty summary : Bool) : Report :=
  if input = "-" ∧ path = some "-" then .failed .stdinTwice
  else
    match surroundings.document settings input with
    | .error failure => .failed failure
    | .ok document =>
        let assembly := Assembly.ofDocument document
        let deliver := surroundings.deliverGraph settings output pretty summary
        Report.noting assembly.events
          (match path with
          | none => deliver assembly.graph none
          | some path =>
              match surroundings.walk settings assembly.graph path with
              | .error failure => .failed failure
              | .ok walk => Report.noting walk.events (deliver walk.graph (some walk.check)))

def withSource (surroundings : Surroundings) (settings : Settings) (input : String)
    (use : Source → Report) : Report :=
  match surroundings.source settings input with
  | .error failure => .failed failure
  | .ok source => use source

def perform (surroundings : Surroundings) (settings : Settings) : Command → Report
  | .convert input path output pretty summary =>
      surroundings.convert settings input path output (pretty || settings.pretty) summary
  | .parse input pretty =>
      surroundings.withSource settings input (Source.showTree (pretty || settings.pretty))
  | .tokens input => surroundings.withSource settings input Source.showTokens
  | .validate input json => surroundings.withSource settings input (Source.showValidation json)

def invoke (surroundings : Surroundings) (invocation : Invocation) : Outcome :=
  match surroundings.settings invocation.config with
  | .error failure => (Report.failed failure).outcome ⟨[]⟩
  | .ok settings =>
      (Report.noting [.settingsLoaded settings]
        (surroundings.perform settings invocation.command)).outcome
        (.ofText (invocation.filterText settings))

def run (surroundings : Surroundings) (arguments : List String) : Outcome :=
  match Request.ofArguments arguments with
  | .error fault => { code := 2, stderr := "error: " ++ fault.message ++ "\n" }
  | .ok .version => { code := 0, stdout := "dotweave 0.1.0\n" }
  | .ok (.invoke invocation) => surroundings.invoke invocation

end Surroundings

end DotGraph
