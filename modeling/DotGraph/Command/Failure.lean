import DotGraph.Diagnostic

namespace DotGraph

/-! Why a command has no result. -/

inductive FileError where
  | notFound
  | notDirectory
  | isDirectory
  | nameTooLong
  | notText
  | other (reason : String)
deriving DecidableEq, Repr

def FileError.message : FileError → String
  | notFound => "No such file or directory (os error 2)"
  | notDirectory => "Not a directory (os error 20)"
  | isDirectory => "Is a directory (os error 21)"
  | nameTooLong => "File name too long (os error 36)"
  | notText => "stream did not contain valid UTF-8"
  | other reason => reason

inductive Failure where
  | unreadableSettings (path : String) (error : FileError)
  | invalidSettings (path : String)
  | stdinTwice
  | unreadableStdin (error : FileError)
  | unreadableInput (path : String) (error : FileError)
  | faultyGraph (name : String) (diagnostics : List Diagnostic)
  | faultyPath (name : String) (diagnostics : List Diagnostic)
  | unwritable (path : String) (error : FileError)
deriving DecidableEq, Repr

namespace Failure

def context : Failure → String
  | unreadableSettings path _ => "Failed to read config: " ++ path
  | invalidSettings path => "Invalid config: " ++ path
  | stdinTwice => "Graph and path cannot both be read from stdin"
  | unreadableStdin _ => "Failed to read from stdin"
  | unreadableInput path _ => "Failed to read file: " ++ path
  | faultyGraph name _ => "Failed to parse graph: " ++ name
  | faultyPath name _ => "Failed to parse path: " ++ name
  | unwritable path _ => "Failed to write to: " ++ path

def cause : Failure → Option String
  | unreadableSettings _ error | unreadableStdin error | unreadableInput _ error
  | unwritable _ error => some error.message
  | faultyGraph _ diagnostics | faultyPath _ diagnostics =>
      some (Diagnostic.report diagnostics)
  | invalidSettings _ | stdinTwice => none

/-- Every line of a cause is indented. -/
def indented (text : String) : String :=
  String.join ((text.splitOn "\n").map fun line => "    " ++ line ++ "\n")

def report (failure : Failure) : String :=
  "Error: " ++ failure.context ++ "\n" ++
    match failure.cause with
    | none => ""
    | some cause => "\nCaused by:\n" ++ indented cause

end Failure

end DotGraph
