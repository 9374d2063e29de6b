import DotGraph.Command.Run
import DotGraph.Toml.Settings

/-! The program.  It looks at the files that the command line names, and at standard input if that
is asked for, and brings the outcome of the run to where it is seen. -/

namespace DotGraph.Program

/-- A path of the wrong type leads to a folder, or through a file. -/
def fileError : IO.Error → FileError
  | .noFileOrDirectory _ _ _ => .notFound
  | .inappropriateType _ code _ => if code = 21 then .isDirectory else .notDirectory
  | .invalidArgument _ _ _ => .nameTooLong
  | error => .other (toString error)

/-- A path that leads nowhere is that of no file. -/
def look (path : String) : IO Entry := do
  try
    return .file (← IO.FS.readBinFile path)
  catch error =>
    match fileError error with
    | .notFound => return .absent .notFound
    | .notDirectory => return .absent .notDirectory
    | .nameTooLong => return .absent .nameTooLong
    | reason => return .unreadable reason

/-- Reads standard input to its end. -/
def readAll (stream : IO.FS.Stream) : IO ByteArray := do
  let mut bytes := ByteArray.empty
  let mut more := true
  while more do
    let block ← stream.read 65536
    bytes := bytes ++ block
    more := !block.isEmpty
  return bytes

def readStdin : IO (Except FileError ByteArray) := do
  try
    return .ok (← readAll (← IO.getStdin))
  catch error => return .error (fileError error)

def lookAround (invocation : Invocation) : IO Surroundings := do
  let inputs := invocation.command.inputs
  let stdin ← if inputs.contains "-" then readStdin else pure (.ok .empty)
  let paths := invocation.config.toList ++ inputs.filter (· ≠ "-")
  let entries ← paths.mapM fun path => return (path, ← look path)
  return ⟨stdin, fun path => (entries.lookup path).getD (.absent .notFound), fun _ => none,
    Settings.ofTomlText?⟩

def surroundings (arguments : List String) : IO Surroundings := do
  match Request.ofArguments arguments with
  | .ok (.invoke invocation) => lookAround invocation
  | _ => return ⟨.ok .empty, fun _ => .absent .notFound, fun _ => none, Settings.ofTomlText?⟩

/-- Writes the file that a run has for its result.  If that cannot be done, the run goes as it does
where nothing can be written. -/
def settle (found : Surroundings) (arguments : List String) : IO Outcome := do
  let outcome := found.run arguments
  match outcome.written with
  | none => return outcome
  | some file =>
      try
        IO.FS.writeFile file.path file.text
        return outcome
      catch error =>
        return { found with refusal := fun _ => some (fileError error) }.run arguments

end DotGraph.Program

open DotGraph in
def main (arguments : List String) : IO UInt32 := do
  let outcome ← Program.settle (← Program.surroundings arguments) arguments
  (← IO.getStdout).putStr outcome.stdout
  (← IO.getStderr).putStr outcome.stderr
  return outcome.code.toUInt32
