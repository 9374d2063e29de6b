import DotGraph.Json.Reading

namespace DotGraph.Json

/-! Values of other types as JSON.  A record is described once, field by field, for writing and for
reading.  Whatever is read is read in the order of the text. -/

namespace Reading

/-- What is wrong with a value where one of another shape is wanted. -/
def mismatch : Reading → ReadFault
  | broken fault => fault
  | brokenScalar wanted _ => wanted
  | string (.error fault) _ => fault
  | number (.other false) => .malformed
  | _ => .mismatch

def ended : Option ReadFault → Except ReadFault Unit
  | none => .ok ()
  | some fault => .error fault

mutual
/-- Passes over a value. -/
def skip : Reading → Except ReadFault Unit
  | broken fault => .error fault
  | brokenScalar _ skipped => .error skipped
  | null | bool _ | number _ => .ok ()
  | string _ none => .ok ()
  | string _ (some fault) => .error fault
  | array items ending => do
      skipItems items
      ended ending
  | object members ending => do
      skipMembers members
      ended ending

def skipItems : List Reading → Except ReadFault Unit
  | [] => .ok ()
  | item :: items => do
      skip item
      skipItems items

def skipMembers : List (Except ReadFault String × Reading) → Except ReadFault Unit
  | [] => .ok ()
  | (_, value) :: members => do
      skip value
      skipMembers members
end

def asString : Reading → Except ReadFault String
  | string text _ => text
  | reading => .error reading.mismatch

def asBool : Reading → Except ReadFault Bool
  | bool value => .ok value
  | reading => .error reading.mismatch

/-- A natural number of 64 bits. -/
def asWord : Reading → Except ReadFault Nat
  | number (.natural value) => .ok value
  | reading => .error reading.mismatch

def asOption {α : Type} (decode : Reading → Except ReadFault α) :
    Reading → Except ReadFault (Option α)
  | null => .ok none
  | reading => some <$> decode reading

def asList {α : Type} (decode : Reading → Except ReadFault α) :
    Reading → Except ReadFault (List α)
  | array items ending => do
      let values ← items.mapM decode
      ended ending
      return values
  | reading => .error reading.mismatch

/-- The members of an object, each put into what has been made of those before it. -/
def foldMembers {β : Type} (add : β → String → Reading → Except ReadFault β) (start : β) :
    Reading → Except ReadFault β
  | object members ending => do
      let result ← members.foldlM (fun made member => do add made (← member.1) member.2) start
      ended ending
      return result
  | reading => .error reading.mismatch

end Reading

/-- A member of a record: what is written for it, if anything, and how it is set from what is
read. -/
structure Member (α : Type) where
  name : String
  isRequired : Bool
  encode : α → Option Json
  decode : Reading → α → Except ReadFault α

namespace Member

variable {α β : Type}

/-- A member that is always written and has to be there. -/
def required (name : String) (get : α → β) (set : β → α → α) (encode : β → Json)
    (decode : Reading → Except ReadFault β) : Member α where
  name := name
  isRequired := true
  encode value := some (encode (get value))
  decode reading value := return set (← decode reading) value

/-- A member that may be missing, and is not written where `isLeftOut` holds. -/
def optional (name : String) (get : α → β) (set : β → α → α) (isLeftOut : β → Bool)
    (encode : β → Json) (decode : Reading → Except ReadFault β) : Member α where
  name := name
  isRequired := false
  encode value := if isLeftOut (get value) then none else some (encode (get value))
  decode reading value := return set (← decode reading) value

end Member

/-- The fields of a record in the order in which they are written, and the record that fields are
set in when one is read. -/
structure Record (α : Type) where
  blank : α
  fields : List (Member α)

namespace Record

variable {α : Type}

def encode (record : Record α) (value : α) : Json :=
  .object (record.fields.filterMap fun field =>
    (field.encode value).map fun json => (field.name, json))

/-- Sets the field of that name, which has to be the first of its name.  Other names are passed
over. -/
def addMember (record : Record α) (made : α × List String) (name : String)
    (reading : Reading) : Except ReadFault (α × List String) :=
  match record.fields.find? fun field => field.name = name with
  | none => do
      reading.skip
      return made
  | some field =>
      if name ∈ made.2 then .error .mismatch
      else return (← field.decode reading made.1, name :: made.2)

/-- Sets one field after another to the items of an array.  Only fields that are not required may
be left over, and no items. -/
def setItems (ending : Option ReadFault) :
    List (Member α) → List Reading → α → Except ReadFault α
  | [], [], value => do
      Reading.ended ending
      return value
  | [], _ :: _, _ => .error .malformed
  | field :: fields, item :: items, value => do
      setItems ending fields items (← field.decode item value)
  | field :: fields, [], value => do
      Reading.ended ending
      if field.isRequired then .error .mismatch
      else setItems ending fields [] value

/-- Reads an object with the fields in any order, or an array with the fields in their order. -/
def decode (record : Record α) (reading : Reading) : Except ReadFault α :=
  match reading with
  | .array items ending => setItems ending record.fields items record.blank
  | reading => do
      let (value, names) ← reading.foldMembers record.addMember (record.blank, [])
      if record.fields.all fun field => !field.isRequired || names.contains field.name then
        return value
      else .error .mismatch

end Record

/-- Reads one of several names, or an object of one member under such a name.  The name tells how
the member's value is read; `alone` tells what the name says without one. -/
def decodeVariant {α : Type} (alone : String → Except ReadFault α)
    (member : String → Reading → Except ReadFault α) : Reading → Except ReadFault α
  | .string name _ => do alone (← name)
  | .object [] none => .error .malformed
  | .object [] (some fault) => .error fault
  | .object ((name, reading) :: members) ending => do
      let value ← member (← name) reading
      if members.isEmpty then
        Reading.ended ending
        return value
      else .error .malformed
  | .broken fault => .error fault
  | _ => .error .malformed

/-- Reads a whole text as a value. -/
def decodeText {α : Type} (decode : Reading → Except ReadFault α) (text : String) :
    Except ReadFault α := do
  let (reading, behind) := Reading.ofText text
  let value ← decode reading
  Reading.ended behind
  return value

end DotGraph.Json
