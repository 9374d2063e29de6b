import DotGraph.Position

namespace DotGraph

/-! What is reported about a source text: reading goes on after every one of these. -/

inductive Diagnostic.Kind where
  | parse
  | lex
deriving DecidableEq, Repr, Inhabited

def Diagnostic.Kind.code : Diagnostic.Kind → String
  | .lex => "dot/error/lex"
  | .parse => "dot/error/parse"

structure Diagnostic where
  kind : Diagnostic.Kind
  position : Position
  message : String
deriving DecidableEq, Repr

namespace Diagnostic

def display (diagnostic : Diagnostic) : String :=
  diagnostic.position.display ++ ": " ++ diagnostic.message

/-- One line for each diagnostic, under a heading. -/
def report (diagnostics : List Diagnostic) : String :=
  "parse errors:\n" ++ String.intercalate "\n" (diagnostics.map display)

end Diagnostic

end DotGraph
