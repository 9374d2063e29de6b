import DotGraph.Settings

namespace DotGraph

/-! What the program is asked to do. -/

/-- The input is the name of a file, a hyphen for standard input, or a description itself. -/
inductive Command where
  | convert (input : String) (path output : Option String) (pretty summary : Bool)
  | parse (input : String) (pretty : Bool)
  | tokens (input : String)
  | validate (input : String) (json : Bool)
deriving DecidableEq, Repr

/-- The inputs that a command reads. -/
def Command.inputs : Command → List String
  | convert input path _ _ _ => input :: path.toList
  | parse input _ | tokens input | validate input _ => [input]

structure Invocation where
  verbosity : Nat
  quiet : Bool
  config : Option String
  command : Command
deriving DecidableEq, Repr

namespace Invocation

/-- What is told of the run.  The settings decide unless the command line does, and silence goes
before talk. -/
def filterText (invocation : Invocation) (settings : Settings) : String :=
  if invocation.quiet then "error"
  else
    match invocation.verbosity with
    | 0 => settings.logFilter.getD "warn"
    | 1 => "info"
    | 2 => "debug"
    | _ => "trace"

end Invocation

end DotGraph
