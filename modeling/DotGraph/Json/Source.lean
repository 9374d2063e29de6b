import DotGraph.Diagnostic
import DotGraph.Json.Record

namespace DotGraph

/-! Places and diagnostics as JSON. -/

open Json

namespace Position

def record : Record Position where
  blank := nowhere
  fields := [
    .required "filename" filename (fun value p => { p with filename := value }) .string
      Reading.asString,
    .required "offset" offset (fun value p => { p with offset := value }) .number
      Reading.asWord,
    .required "line" line (fun value p => { p with line := value }) .number Reading.asWord,
    .required "column" column (fun value p => { p with column := value }) .number
      Reading.asWord]

def toJson (position : Position) : Json :=
  record.encode position

def ofJson (reading : Reading) : Except ReadFault Position :=
  record.decode reading

end Position

namespace Diagnostic

def Kind.name : Kind → String
  | .lex => "Lex"
  | .parse => "Parse"

def Kind.named (name : String) : Except ReadFault Kind :=
  if name = Kind.lex.name then .ok .lex
  else if name = Kind.parse.name then .ok .parse
  else .error .mismatch

def Kind.toJson (kind : Kind) : Json :=
  .string kind.name

def Kind.ofJson : Reading → Except ReadFault Kind :=
  decodeVariant Kind.named fun name reading => do
    let kind ← Kind.named name
    match reading with
    | .null => return kind
    | reading => .error reading.mismatch

/-- What a diagnostic says, whatever its kind. -/
def record : Record Diagnostic where
  blank := ⟨default, .nowhere, ""⟩
  fields := [
    .required "position" position (fun value d => { d with position := value })
      Position.toJson Position.ofJson,
    .required "message" message (fun value d => { d with message := value }) .string
      Reading.asString]

def toJson (diagnostic : Diagnostic) : Json :=
  .object [(diagnostic.kind.name, record.encode diagnostic)]

def ofJson : Reading → Except ReadFault Diagnostic :=
  decodeVariant (fun _ => .error .mismatch) fun name reading => do
    let kind ← Kind.named name
    let diagnostic ← record.decode reading
    return { diagnostic with kind }

end Diagnostic

end DotGraph
