import DotGraph.Json.Record
import DotGraph.Settings

namespace DotGraph.Settings

/-! Settings as JSON.  All of them are written, and none has to be there. -/

open Json

def record : Record Settings where
  blank := {}
  fields := [
    .optional "filename" filename (fun value settings => { settings with filename := value })
      (fun _ => false) .string Reading.asString,
    .optional "pretty" pretty (fun value settings => { settings with pretty := value })
      (fun _ => false) .bool Reading.asBool,
    .optional "log_filter" logFilter (fun value settings => { settings with logFilter := value })
      (fun _ => false) (.ofOption .string) (Reading.asOption Reading.asString),
    .optional "fail_on_invalid_path" failOnInvalidPath
      (fun value settings => { settings with failOnInvalidPath := value }) (fun _ => false) .bool
      Reading.asBool]

def toJson (settings : Settings) : Json :=
  record.encode settings

def ofJson (reading : Reading) : Except ReadFault Settings :=
  record.decode reading

end DotGraph.Settings
