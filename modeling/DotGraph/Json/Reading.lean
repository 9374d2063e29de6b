import DotGraph.Json.Scalar

namespace DotGraph.Json

/-! JSON texts, read as far as they are JSON.  A text is read from the left and the first thing
that is wrong with it counts, so what stands before a flaw has to be known; a reading keeps it and
marks the place where the text breaks off. -/

inductive Reading where
  | broken (fault : ReadFault)
  | brokenScalar (wanted skipped : ReadFault)
  | null
  | bool (value : Bool)
  | number (value : Numeral)
  | string (value : Except ReadFault String) (skipped : Option ReadFault)
  | array (items : List Reading) (ending : Option ReadFault)
  | object (members : List (Except ReadFault String × Reading)) (ending : Option ReadFault)
deriving Inhabited

namespace Reading

/-- A value around the one being read; what has been read of it is newest first. -/
inductive Frame where
  | array (items : List Reading)
  | object (members : List (Except ReadFault String × Reading)) (name : Except ReadFault String)

/-- What is to be read next.  A value or the end of an empty array or object, then what follows an
item or a member. -/
inductive Mode where
  | value
  | firstItem
  | afterItem (items : List Reading)
  | firstMember
  | nextMember (members : List (Except ReadFault String × Reading))
  | colon (members : List (Except ReadFault String × Reading)) (name : Except ReadFault String)
  | afterMember (members : List (Except ReadFault String × Reading))

/-- The whole value when the text breaks off inside the innermost frame. -/
def unwind : List Frame → Reading → Reading
  | [], reading => reading
  | .array items :: frames, reading =>
      unwind frames (.array (reading :: items).reverse none)
  | .object members name :: frames, reading =>
      unwind frames (.object ((name, reading) :: members).reverse none)

def isSpace (c : Char) : Bool :=
  c = ' ' || c = '\n' || c = '\t' || c = '\r'

/-- Reads the rest of a word. -/
def readWord : List Char → List Char → Except ReadFault (List Char)
  | [], rest => .ok rest
  | _ :: _, [] => .error .endOfText
  | expected :: word, c :: rest =>
      if c = expected then readWord word rest else .error .malformed

/-- Reads a value that is no array and no object. -/
def readScalar (c : Char) (rest : List Char) : Reading × Option (List Char) :=
  let word (letters : List Char) (value : Reading) : Reading × Option (List Char) :=
    match readWord letters rest with
    | .ok rest => (value, some rest)
    | .error fault => (.brokenScalar fault fault, none)
  if c = '"' then
    let scanned := readString .empty rest
    match scanned.rest with
    | .ok rest => (.string scanned.value none, some rest)
    | .error fault => (.string scanned.value (some fault), none)
  else if c = 'n' then word ['u', 'l', 'l'] .null
  else if c = 't' then word ['r', 'u', 'e'] (.bool true)
  else if c = 'f' then word ['a', 'l', 's', 'e'] (.bool false)
  else if c = '-' || c.isDigit then
    let scanned := readNumber (c :: rest)
    match scanned.value, scanned.rest with
    | .ok value, .ok rest => (.number value, some rest)
    | .error wanted, .error skipped => (.brokenScalar wanted skipped, none)
    | .ok _, .error skipped => (.brokenScalar skipped skipped, none)
    | .error wanted, .ok _ => (.brokenScalar wanted wanted, none)
  else (.broken .malformed, none)

/-- What is read after a value inside the frames; nothing once the whole value is there. -/
def resume : List Frame → Reading → Option (Mode × List Frame)
  | [], _ => none
  | .array items :: frames, reading => some (.afterItem (reading :: items), frames)
  | .object members name :: frames, reading =>
      some (.afterMember ((name, reading) :: members), frames)

/-- The value that is there when the text breaks off, where something else has to come next. -/
def breakOff (mode : Mode) (fault : ReadFault) : Reading :=
  match mode with
  | .value => .broken fault
  | .firstItem => .array [] (some fault)
  | .afterItem items => .array items.reverse (some fault)
  | .firstMember => .object [] (some fault)
  | .nextMember members => .object ((.error fault, .broken fault) :: members).reverse none
  | .afterMember members => .object members.reverse (some fault)
  | .colon members name => .object ((name, .broken fault) :: members).reverse none

/-- One character that is no blank, and what it leads to: the value is broken off here, a value is
complete, or there is more to read. -/
inductive Outcome where
  | broken (reading : Reading)
  | complete (reading : Reading) (rest : List Char)
  | more (mode : Mode) (opened : List Frame) (rest : List Char)

def ofScalar (scanned : Reading × Option (List Char)) : Outcome :=
  match scanned with
  | (reading, some rest) => .complete reading rest
  | (reading, none) => .broken reading

def readName (members : List (Except ReadFault String × Reading)) (rest : List Char) : Outcome :=
  let scanned := readString .empty rest
  match scanned.rest with
  | .ok rest => .more (.colon members scanned.value) [] rest
  | .error fault => .broken (.object ((scanned.value, .broken fault) :: members).reverse none)

def step (mode : Mode) (c : Char) (rest : List Char) : Outcome :=
  match mode with
  | .value =>
      if c = '[' then .more .firstItem [] rest
      else if c = '\x7b' then .more .firstMember [] rest
      else ofScalar (readScalar c rest)
  | .firstItem =>
      if c = ']' then .complete (.array [] none) rest
      else .more .value [.array []] (c :: rest)
  | .afterItem items =>
      if c = ',' then .more .value [.array items] rest
      else if c = ']' then .complete (.array items.reverse none) rest
      else .broken (breakOff mode .malformed)
  | .firstMember =>
      if c = '\x7d' then .complete (.object [] none) rest
      else if c = '"' then readName [] rest
      else .broken (breakOff mode .malformed)
  | .nextMember members =>
      if c = '"' then readName members rest
      else .broken (breakOff mode .malformed)
  | .colon members name =>
      if c = ':' then .more .value [.object members name] rest
      else .broken (breakOff mode .malformed)
  | .afterMember members =>
      if c = ',' then .more (.nextMember members) [] rest
      else if c = '\x7d' then .complete (.object members.reverse none) rest
      else .broken (breakOff mode .malformed)

/-- The first item of an array is read where it starts; all else takes a character. -/
def pending (mode : Mode) (rest : List Char) : Nat :=
  2 * rest.length + match mode with
    | .firstItem => 1
    | _ => 0

private theorem readWord_rest_le {word text rest : List Char} (h : readWord word text = .ok rest) :
    rest.length ≤ text.length := by
  fun_induction readWord word text <;> grind

private theorem readScalar_rest_le {c : Char} {text rest : List Char} {reading : Reading}
    (h : readScalar c text = (reading, some rest)) : rest.length ≤ text.length := by
  unfold readScalar at h
  have hword := @readWord_rest_le
  have hstring := @readString_rest_le
  have hnumber := @readNumber_rest_lt
  grind

private theorem readName_rest_le {members : List (Except ReadFault String × Reading)}
    {text rest : List Char} {mode : Mode} {opened : List Frame}
    (h : readName members text = .more mode opened rest) :
    rest.length ≤ text.length ∧ pending mode rest = 2 * rest.length := by
  unfold readName at h
  have hstring := @readString_rest_le
  grind [pending]

theorem step_more_lt {mode next : Mode} {c : Char} {text rest : List Char} {opened : List Frame}
    (h : step mode c text = .more next opened rest) :
    pending next rest < pending mode (c :: text) := by
  unfold step ofScalar at h
  have hname := @readName_rest_le
  cases mode <;> grind [pending]

theorem step_complete_le {mode : Mode} {c : Char} {text rest : List Char} {reading : Reading}
    (h : step mode c text = .complete reading rest) : rest.length ≤ text.length := by
  unfold step ofScalar at h
  have hscalar := @readScalar_rest_le
  have hname : ∀ members reading rest', readName members text ≠ .complete reading rest' := by
    unfold readName
    grind
  cases mode <;> grind

theorem pending_resume {frames outer : List Frame} {reading : Reading} {mode : Mode}
    (h : resume frames reading = some (mode, outer)) (rest : List Char) :
    pending mode rest = 2 * rest.length := by
  unfold resume at h
  grind [pending]

/-- Reads on inside the frames.  The text behind the whole value is there if nothing is broken. -/
def read (mode : Mode) (frames : List Frame) : List Char → Reading × Option (List Char)
  | [] => (unwind frames (breakOff mode .endOfText), none)
  | c :: text =>
      if isSpace c then read mode frames text
      else
        match _hstep : step mode c text with
        | .broken reading => (unwind frames reading, none)
        | .more next opened rest => read next (opened ++ frames) rest
        | .complete reading rest =>
            match _hresume : resume frames reading with
            | none => (reading, some rest)
            | some (next, outer) => read next outer rest
termination_by text => pending mode text
decreasing_by
  · simp only [pending, List.length_cons]
    omega
  · exact step_more_lt _hstep
  · have hrest := step_complete_le _hstep
    rw [pending_resume _hresume]
    simp only [pending, List.length_cons]
    omega

/-- What a text says, and what is wrong with the text behind the value. -/
def ofText (text : String) : Reading × Option ReadFault :=
  match read .value [] text.toList with
  | (reading, some rest) => (reading, if rest.all isSpace then none else some .malformed)
  | (reading, none) => (reading, none)

end Reading

end DotGraph.Json
