import DotGraph.Graph
import DotGraph.Settings
import DotGraph.Text.Quoted

namespace DotGraph.Log

/-! What is told about a run besides its result: events, each with a level and the part of the
program that it comes from. -/

inductive Level where
  | error
  | warn
  | info
  | debug
  | trace
deriving DecidableEq, Repr

namespace Level

/-- Levels are counted from the gravest on; zero is below all of them. -/
def rank : Level → Nat
  | error => 1
  | warn => 2
  | info => 3
  | debug => 4
  | trace => 5

/-- All labels have one width. -/
def label : Level → String
  | error => "ERROR"
  | warn => " WARN"
  | info => " INFO"
  | debug => "DEBUG"
  | trace => "TRACE"

end Level

inductive Event where
  | settingsLoaded (settings : Settings)
  | linkRefused (source target : String)
  | graphBuilt (graph : Graph)
  | stepMade (source target : String)
  | pathLost (reason : String)
  | pathRejected (reason : String)
  | outputWritten (path : String)
  | diagnosed (diagnostic : String)
deriving DecidableEq, Repr

/-- What an event says: a message for the reader, and the values that go with it. -/
structure Wording where
  message : String
  fields : List (String × String) := []

def flagText (value : Bool) : String :=
  if value then "true" else "false"

def settingsText (settings : Settings) : String :=
  let filter := match settings.logFilter with
    | none => "None"
    | some filter => "Some(" ++ Text.quoted filter ++ ")"
  "PipelineConfig \x7b filename: " ++ Text.quoted settings.filename ++
    ", pretty: " ++ flagText settings.pretty ++ ", log_filter: " ++ filter ++
    ", fail_on_invalid_path: " ++ flagText settings.failOnInvalidPath ++ " \x7d"

namespace Event

def level : Event → Level
  | settingsLoaded _ | graphBuilt _ | pathLost _ => .debug
  | linkRefused _ _ | stepMade _ _ => .trace
  | pathRejected _ | diagnosed _ => .warn
  | outputWritten _ => .info

def target : Event → String
  | linkRefused _ _ | graphBuilt _ => "dw_parser::builder"
  | stepMade _ _ | pathLost _ => "dw_parser::highlight"
  | settingsLoaded _ | pathRejected _ | outputWritten _ | diagnosed _ => "dotweave"

def wording : Event → Wording
  | settingsLoaded settings => ⟨"loaded configuration", [("config", settingsText settings)]⟩
  | linkRefused source target =>
      ⟨"strict graph: dropping duplicate link",
        [("source", Text.quoted source), ("target", Text.quoted target)]⟩
  | graphBuilt graph =>
      ⟨"converted graph", [("nodes", toString graph.nodes.size),
        ("links", toString graph.links.size), ("subgraphs", toString graph.subgraphs.size),
        ("directed", flagText graph.directed), ("strict", flagText graph.strict)]⟩
  | stepMade source target => ⟨"path step", [("source", source), ("target", target)]⟩
  | pathLost reason => ⟨"path validation failed", [("error", Text.quoted reason)]⟩
  | pathRejected reason => { message := "Path validation failed: " ++ reason }
  | outputWritten path => { message := "Wrote output to: " ++ path }
  | diagnosed diagnostic => { message := "Parse error: " ++ diagnostic }

end Event

/-- Characters that a terminal could obey are told by their numbers. -/
def shownChar (c : Char) : List Char :=
  if c = '\x1b' ∨ c = '\x07' ∨ c = '\x08' ∨ c = '\x0c' ∨ c = '\x7f' then
    ['\\', 'x', Nat.digitChar (c.toNat / 16), Nat.digitChar (c.toNat % 16)]
  else if 0x80 ≤ c.toNat ∧ c.toNat ≤ 0x9f then
    ['\\', 'u', '\x7b'] ++ Text.hexDigits c.toNat ++ ['\x7d']
  else [c]

def shown (text : String) : String :=
  String.ofList (text.toList.flatMap shownChar)

def Event.line (event : Event) : String :=
  let fields := event.wording.fields.map fun field => " " ++ field.1 ++ "=" ++ field.2
  event.level.label ++ " " ++ event.target ++ ": " ++ shown event.wording.message ++
    String.join fields ++ "\n"

end DotGraph.Log
