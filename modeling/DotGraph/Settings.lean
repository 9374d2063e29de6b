namespace DotGraph

/-! What a user may set once for every run. -/

structure Settings where
  /-- What diagnostics call a source that is no file. -/
  filename : String := "<stdin>"
  pretty : Bool := false
  logFilter : Option String := none
  /-- Whether a path that leaves the graph is a failure. -/
  failOnInvalidPath : Bool := true
deriving DecidableEq, Repr

end DotGraph
