import DotGraph.Settings
import DotGraph.Text.Utf8
import DotGraph.Command.Failure

namespace DotGraph

/-! What a run finds around it: standard input, the files, and a reader of TOML documents. -/

/-- What is there under a path. -/
inductive Entry where
  | file (bytes : ByteArray)
  | unreadable (error : FileError)
  | absent (error : FileError)

structure Surroundings where
  stdin : Except FileError ByteArray
  entry : String → Entry
  /-- Why no file can be written under a path. -/
  refusal : String → Option FileError
  /-- The settings in a TOML document, if it is one and they can be read from it. -/
  ofToml? : String → Option Settings

/-- A description to be read, and what diagnostics call it. -/
structure Source where
  name : String
  bytes : ByteArray

namespace Surroundings

def settings (surroundings : Surroundings) (config : Option String) :
    Except Failure Settings :=
  match config with
  | none => .ok {}
  | some path =>
      match surroundings.entry path with
      | .unreadable error | .absent error => .error (.unreadableSettings path error)
      | .file bytes =>
          match String.fromUTF8? bytes with
          | none => .error (.unreadableSettings path .notText)
          | some text =>
              match surroundings.ofToml? text with
              | none => .error (.invalidSettings path)
              | some settings => .ok settings

/-- An input that is no file and no hyphen is a description itself. -/
def source (surroundings : Surroundings) (settings : Settings) (input : String) :
    Except Failure Source :=
  if input = "-" then
    match surroundings.stdin with
    | .ok bytes => .ok ⟨settings.filename, bytes⟩
    | .error error => .error (.unreadableStdin error)
  else
    match surroundings.entry input with
    | .file bytes => .ok ⟨input, bytes⟩
    | .unreadable error => .error (.unreadableInput input error)
    | .absent _ => .ok ⟨settings.filename, input.toUTF8⟩

end Surroundings

end DotGraph
