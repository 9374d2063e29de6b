import DotGraph.Command.Failure
import DotGraph.Log.Filter

namespace DotGraph

/-! What a command comes to, and what is seen of it from outside. -/

inductive Message where
  | event (event : Log.Event)
  /-- A line that no filter holds back. -/
  | line (text : String)
deriving DecidableEq, Repr

def Message.text (filter : Log.Filter) : Message → String
  | .event told => if filter.admits told then told.line else ""
  | .line text => text ++ "\n"

structure WrittenFile where
  path : String
  text : String
deriving DecidableEq, Repr

/-- A result goes to standard output or into a file. -/
inductive Delivery where
  | shown (text : String)
  | written (file : WrittenFile)
deriving DecidableEq, Repr

/-- A command without a failure has a result, which need not be a good one. -/
inductive Ending where
  | failed (failure : Failure)
  | delivered (delivery : Delivery) (isGood : Bool)
deriving DecidableEq, Repr

structure Report where
  messages : List Message
  ending : Ending
deriving DecidableEq, Repr

structure Outcome where
  code : Nat
  stdout : String := ""
  stderr : String := ""
  written : Option WrittenFile := none
deriving DecidableEq, Repr

namespace Ending

def code : Ending → Nat
  | failed _ => 1
  | delivered _ isGood => if isGood then 0 else 1

def stdout : Ending → String
  | delivered (.shown text) _ => text
  | delivered (.written _) _ | failed _ => ""

def written : Ending → Option WrittenFile
  | delivered (.written file) _ => some file
  | delivered (.shown _) _ | failed _ => none

def complaint : Ending → String
  | failed failure => failure.report
  | delivered _ _ => ""

end Ending

namespace Report

def failed (failure : Failure) : Report :=
  ⟨[], .failed failure⟩

def shown (text : String) (isGood : Bool) : Report :=
  ⟨[], .delivered (.shown text) isGood⟩

/-- Tells something before everything else. -/
def after (messages : List Message) (report : Report) : Report :=
  ⟨messages ++ report.messages, report.ending⟩

def noting (events : List Log.Event) (report : Report) : Report :=
  report.after (events.map .event)

def outcome (report : Report) (filter : Log.Filter) : Outcome where
  code := report.ending.code
  stdout := report.ending.stdout
  stderr := String.join (report.messages.map (Message.text filter)) ++ report.ending.complaint
  written := report.ending.written

end Report

end DotGraph
