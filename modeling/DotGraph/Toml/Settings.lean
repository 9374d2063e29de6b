import DotGraph.Settings
import DotGraph.Toml

namespace DotGraph.Settings

/-! Settings as a TOML document.  None of them has to be there, and what is no setting is passed
over. -/

def isName (name : String) : Bool :=
  name = "filename" || name = "pretty" || name = "log_filter" || name = "fail_on_invalid_path"

/-- A setting has a value of its own type. -/
def put? (settings : Settings) (key : String) (value : Toml.Value) : Option Settings :=
  match key, value with
  | "filename", .string filename => some { settings with filename }
  | "pretty", .bool pretty => some { settings with pretty }
  | "log_filter", .string filter => some { settings with logFilter := some filter }
  | "fail_on_invalid_path", .bool failOnInvalidPath => some { settings with failOnInvalidPath }
  | key, _ => if isName key then none else some settings

def ofToml? (document : Toml) : Option Settings :=
  if document.tables.any isName then none
  else
    (document.entries.filter fun entry => entry.table.isNone).foldlM
      (fun settings entry => settings.put? entry.key entry.value) {}

def ofTomlText? (text : String) : Option Settings :=
  Toml.ofText? text >>= ofToml?

end DotGraph.Settings
