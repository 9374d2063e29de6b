import DotGraph.Log

namespace DotGraph.Log

/-! Which events are told.  A filter is a list of directives between commas: a level for
everything, or a part of the program with a level of its own. -/

/-- Events from a part of the program are told up to a rank.  The empty name is the whole. -/
structure Directive where
  target : String
  limit : Nat
deriving DecidableEq, Repr

namespace Directive

/-- A level is named, or given by its rank. -/
def limit? (text : String) : Option Nat :=
  match text.toLower with
  | "off" => some 0
  | "error" => some Level.error.rank
  | "warn" => some Level.warn.rank
  | "info" => some Level.info.rank
  | "debug" => some Level.debug.rank
  | "trace" => some Level.trace.rank
  | digits =>
      if digits ≠ "" ∧ digits.toList.all Char.isDigit then
        let limit := Nat.ofDigitChars 10 digits.toList 0
        if limit ≤ Level.trace.rank then some limit else none
      else none

def startsName (c : Char) : Bool :=
  c.isAlphanum || c = '-' || c = ':' || c = '_'

/-- A name without a level lets everything through. -/
def ofText? (text : String) : Option Directive :=
  if text.toList.head?.all startsName then
    match text.splitOn "=" with
    | [word] =>
        some (match limit? word with
          | some limit => ⟨"", limit⟩
          | none => ⟨word, Level.trace.rank⟩)
    | [target, level] =>
        (if level = "" then some Level.trace.rank else limit? level).map fun limit =>
          ⟨target, limit⟩
    | _ => none
  else none

def covers (directive : Directive) (target : String) : Bool :=
  directive.target.toList.isPrefixOf target.toList

end Directive

structure Filter where
  directives : List Directive
deriving DecidableEq, Repr

namespace Filter

/-- What cannot be read is passed over.  When nothing is left, errors are told. -/
def ofText (text : String) : Filter :=
  let directives := ((text.splitOn ",").filter (· ≠ "")).filterMap Directive.ofText?
  ⟨if directives.isEmpty then [⟨"", Level.error.rank⟩] else directives⟩

/-- The longest name that covers a target decides, and of two directives with one name the later
one. -/
def governing (filter : Filter) (target : String) : Option Directive :=
  (filter.directives.filter fun directive => directive.covers target).foldl
    (fun best directive =>
      match best with
      | some best =>
          some (if best.target.length ≤ directive.target.length then directive else best)
      | none => some directive)
    none

def limit (filter : Filter) (target : String) : Nat :=
  ((filter.governing target).map Directive.limit).getD 0

def admits (filter : Filter) (event : Event) : Bool :=
  event.level.rank ≤ filter.limit event.target

end Filter

end DotGraph.Log
