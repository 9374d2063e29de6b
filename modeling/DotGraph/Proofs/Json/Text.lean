import DotGraph.Json.Record
import DotGraph.Proofs.Json.Scalar

namespace DotGraph.Json

/-! The text of a value, in either layout, is read to its end and says that value. -/

open Reading

mutual
def reading : Json → Reading
  | null => .null
  | bool value => .bool value
  | number value => .number (.ofParts false (Nat.toDigits 10 value) [] none)
  | string value => .string (.ok value) none
  | array items => .array (itemReadings items) none
  | object members => .object (memberReadings members) none

def itemReadings : List Json → List Reading
  | [] => []
  | item :: items => item.reading :: itemReadings items

def memberReadings : List (String × Json) → List (Except ReadFault String × Reading)
  | [] => []
  | (name, value) :: members => (.ok name, value.reading) :: memberReadings members
end

def Blank (text : List Char) : Prop :=
  ∀ c ∈ text, isSpace c

/-- Nothing but blanks divides items and members, and a name and its value also a colon. -/
structure Layout.Plain (layout : Layout) : Prop where
  gap : ∀ depth, Blank (layout.gap depth)
  colon : ∃ blanks, layout.colon = ':' :: blanks ∧ Blank blanks

theorem plain_compact : Layout.compact.Plain where
  gap _ _ hmem := nomatch hmem
  colon := ⟨[], rfl, fun _ hmem => nomatch hmem⟩

theorem plain_pretty : Layout.pretty.Plain where
  gap depth c hmem := by
    rcases List.mem_cons.mp hmem with rfl | hmem
    · decide
    · rw [List.eq_of_mem_replicate hmem]
      decide
  colon := ⟨[' '], rfl, by simp [Blank, isSpace]⟩

namespace EndsNumber

theorem of_head {c : Char} (h : c.isDigit = false ∧ c ≠ '.' ∧ c ≠ 'e' ∧ c ≠ 'E')
    (rest : List Char) : EndsNumber (c :: rest) := by
  rintro _ ⟨⟩
  exact h

theorem of_space {c : Char} (h : isSpace c) (rest : List Char) : EndsNumber (c :: rest) := by
  simp only [isSpace, Bool.or_eq_true, decide_eq_true_eq] at h
  rcases h with ((rfl | rfl) | rfl) | rfl <;> exact of_head (by decide) rest

theorem blank_append {blanks rest : List Char} (hblank : Blank blanks) (h : EndsNumber rest) :
    EndsNumber (blanks ++ rest) := by
  cases blanks with
  | nil => exact h
  | cons c blanks => exact of_space (hblank c List.mem_cons_self) _

variable {layout : Layout}

theorem writeItems (h : layout.Plain) (depth : Nat) (items : List Json) (rest : List Char) :
    EndsNumber (writeItems layout depth items rest) := by
  cases items with
  | nil =>
      rw [Json.writeItems]
      exact blank_append (h.gap depth) (of_head (by decide) rest)
  | cons item items =>
      rw [Json.writeItems]
      exact of_head (by decide) _

theorem writeMembers (h : layout.Plain) (depth : Nat) (members : List (String × Json))
    (rest : List Char) : EndsNumber (writeMembers layout depth members rest) := by
  cases members with
  | nil =>
      rw [Json.writeMembers]
      exact blank_append (h.gap depth) (of_head (by decide) rest)
  | cons member members =>
      rw [Json.writeMembers]
      exact of_head (by decide) _

end EndsNumber

/-- Goes on behind a value. -/
def proceed (frames : List Frame) (reading : Reading) (rest : List Char) :
    Reading × Option (List Char) :=
  match resume frames reading with
  | none => (reading, some rest)
  | some (next, outer) => read next outer rest

theorem read_blank_append (mode : Mode) (frames : List Frame) {blanks : List Char}
    (hblank : Blank blanks) (rest : List Char) :
    read mode frames (blanks ++ rest) = read mode frames rest := by
  induction blanks with
  | nil => rfl
  | cons c blanks ih =>
      rw [List.cons_append, Reading.read, if_pos (hblank c List.mem_cons_self)]
      exact ih fun c hmem => hblank c (List.mem_cons_of_mem _ hmem)

section Steps

variable {mode : Mode} {frames : List Frame} {c : Char} {text : List Char}
  (hspace : isSpace c = false)

include hspace

theorem read_more {next : Mode} {opened : List Frame} {rest : List Char}
    (h : step mode c text = .more next opened rest) :
    read mode frames (c :: text) = read next (opened ++ frames) rest := by
  rw [Reading.read, if_neg (by simp [hspace])]
  split
  all_goals simp_all

theorem read_complete {reading : Reading} {rest : List Char}
    (h : step mode c text = .complete reading rest) :
    read mode frames (c :: text) = proceed frames reading rest := by
  rw [Reading.read, if_neg (by simp [hspace]), proceed]
  split
  case h_1 => simp_all
  case h_2 => simp_all
  case h_3 hstep =>
      rw [h, Outcome.complete.injEq] at hstep
      obtain ⟨rfl, rfl⟩ := hstep
      split <;> simp_all

end Steps

theorem isSpace_of_isDigit {c : Char} (h : c.isDigit) : isSpace c = false := by
  simp only [isSpace, Bool.or_eq_false_iff, decide_eq_false_iff_not]
  exact ⟨⟨⟨ne_of_isDigit h rfl, ne_of_isDigit h rfl⟩, ne_of_isDigit h rfl⟩, ne_of_isDigit h rfl⟩

theorem step_number {n : Nat} {c : Char} {digits rest : List Char}
    (hdigits : Nat.toDigits 10 n = c :: digits) (hends : EndsNumber rest) :
    step .value c (digits ++ rest) = .complete (reading (.number n)) rest := by
  have hdigit := isDigit_of_toDigits hdigits
  have hne := fun d => ne_of_isDigit (d := d) hdigit
  have hread := readNumber_toDigits n hends
  rw [hdigits, List.cons_append] at hread
  simp only [step, readScalar, hne '[' rfl, hne '\x7b' rfl, hne '"' rfl, hne 'n' rfl, hne 't' rfl,
    hne 'f' rfl, hdigit, hread, Bool.or_true, if_true, if_false, ofScalar, reading, hdigits]

variable {layout : Layout}

/-- A written value starts with no sign that stands around values. -/
theorem exists_head_write (layout : Layout) (depth : Nat) (json : Json) (rest : List Char) :
    ∃ c text, json.write layout depth rest = c :: text ∧ isSpace c = false ∧ c ≠ ']' := by
  match json with
  | .null | .bool true | .bool false | .string _ | .array [] | .array (_ :: _) | .object []
  | .object ((_, _) :: _) =>
      rw [write]
      exact ⟨_, _, rfl, by decide, by decide⟩
  | .number n =>
      obtain ⟨c, digits, hdigits⟩ := List.exists_cons_of_ne_nil (Nat.toDigits_ne_nil (n := n))
      have hdigit := isDigit_of_toDigits hdigits
      rw [write, hdigits]
      exact ⟨c, _, rfl, isSpace_of_isDigit hdigit, ne_of_isDigit hdigit (by decide)⟩

theorem read_firstItem (depth : Nat) (frames : List Frame) (item : Json) (rest : List Char) :
    read .firstItem frames (item.write layout depth rest) =
      read .value (.array [] :: frames) (item.write layout depth rest) := by
  obtain ⟨c, text, hhead, hspace, hclose⟩ := exists_head_write layout depth item rest
  have hstep : step .firstItem c text = .more .value [.array []] (c :: text) := if_neg hclose
  rw [hhead]
  exact read_more hspace hstep

theorem read_name (h : layout.Plain) {mode : Mode}
    {done : List (Except ReadFault String × Reading)}
    (hmode : ∀ text, step mode '"' text = readName done text) (frames : List Frame)
    (name : String) (rest : List Char) :
    read mode frames (writeString name (layout.colon ++ rest)) =
      read .value (.object done (.ok name) :: frames) rest := by
  obtain ⟨blanks, hcolon, hblank⟩ := h.colon
  obtain ⟨written, hwritten, hread⟩ := readString_writeString name (layout.colon ++ rest)
  have hname : step mode '"' written =
      .more (.colon done (.ok name)) [] (':' :: (blanks ++ rest)) := by
    rw [hmode, readName, hread, hcolon, List.cons_append]
  rw [hwritten, read_more (by decide) hname, read_more (by decide) rfl]
  exact read_blank_append _ _ hblank rest

-- By induction on the value, and on the items and members that are still to be written, with any text
-- behind: what stands behind one item is all the others.
mutual
theorem read_write (h : layout.Plain) (depth : Nat) (frames : List Frame) :
    ∀ (json : Json) {rest : List Char}, EndsNumber rest →
      read .value frames (json.write layout depth rest) = proceed frames json.reading rest
  | .null, rest, _ => read_complete (by decide) (by rw [reading]; rfl)
  | .bool true, rest, _ => read_complete (by decide) (by rw [reading]; rfl)
  | .bool false, rest, _ => read_complete (by decide) (by rw [reading]; rfl)
  | .number n, rest, hends => by
      obtain ⟨c, digits, hdigits⟩ := List.exists_cons_of_ne_nil (Nat.toDigits_ne_nil (n := n))
      have hdigit := isDigit_of_toDigits hdigits
      rw [write, hdigits]
      exact read_complete (isSpace_of_isDigit hdigit) (step_number hdigits hends)
  | .string value, rest, _ => by
      obtain ⟨written, hwritten, hread⟩ := readString_writeString value rest
      rw [write, hwritten, reading]
      refine read_complete (by decide) ?_
      simp [step, readScalar, hread, ofScalar]
  | .array [], rest, _ => by
      rw [write, reading, itemReadings, read_more (by decide) rfl]
      exact read_complete (by decide) rfl
  | .array (item :: items), rest, _ => by
      rw [write, read_more (by decide) rfl,
        read_blank_append _ _ (h.gap _), read_firstItem,
        read_write h (depth + 1) _ item (.writeItems h depth items rest), reading]
      exact read_writeItems h depth frames items [item.reading] rest
  | .object [], rest, _ => by
      rw [write, reading, memberReadings, read_more (by decide) rfl]
      exact read_complete (by decide) rfl
  | .object ((name, value) :: members), rest, _ => by
      rw [write, read_more (by decide) rfl,
        read_blank_append _ _ (h.gap _), read_name h (fun _ => rfl),
        read_write h (depth + 1) _ value (.writeMembers h depth members rest), reading]
      exact read_writeMembers h depth frames members [(.ok name, value.reading)] rest

theorem read_writeItems (h : layout.Plain) (depth : Nat) (frames : List Frame) :
    ∀ (items : List Json) (done : List Reading) (rest : List Char),
      read (.afterItem done) frames (writeItems layout depth items rest) =
        proceed frames (.array (done.reverse ++ itemReadings items) none) rest
  | [], done, rest => by
      rw [writeItems, read_blank_append _ _ (h.gap _), itemReadings, List.append_nil]
      exact read_complete (by decide) rfl
  | item :: items, done, rest => by
      have hrest := read_writeItems h depth frames items (item.reading :: done) rest
      rw [writeItems, read_more (by decide) rfl,
        read_blank_append _ _ (h.gap _),
        read_write h (depth + 1) _ item (.writeItems h depth items rest), itemReadings]
      rwa [List.reverse_cons, List.append_assoc] at hrest

theorem read_writeMembers (h : layout.Plain) (depth : Nat) (frames : List Frame) :
    ∀ (members : List (String × Json)) (done : List (Except ReadFault String × Reading))
      (rest : List Char),
      read (.afterMember done) frames (writeMembers layout depth members rest) =
        proceed frames (.object (done.reverse ++ memberReadings members) none) rest
  | [], done, rest => by
      rw [writeMembers, read_blank_append _ _ (h.gap _), memberReadings, List.append_nil]
      exact read_complete (by decide) rfl
  | (name, value) :: members, done, rest => by
      have hrest :=
        read_writeMembers h depth frames members ((.ok name, value.reading) :: done) rest
      rw [writeMembers, read_more (by decide) rfl,
        read_blank_append _ _ (h.gap _), read_name h (fun _ => rfl),
        read_write h (depth + 1) _ value (.writeMembers h depth members rest), memberReadings]
      rwa [List.reverse_cons, List.append_assoc] at hrest
end

/-- A written value is read as itself, and nothing is left over. -/
theorem ofText_text (h : layout.Plain) (json : Json) :
    Reading.ofText (json.text layout) = (json.reading, none) := by
  have hends : EndsNumber [] := fun _ hhead => nomatch hhead
  rw [Reading.ofText, Json.text, String.toList_ofList, read_write h 0 [] json hends]
  rfl

theorem ofText_render (isPretty : Bool) (json : Json) :
    Reading.ofText (json.render isPretty) = (json.reading, none) := by
  cases isPretty
  · exact ofText_text plain_compact json
  · exact ofText_text plain_pretty json

theorem decodeText_render {α : Type} {decode : Reading → Except ReadFault α} {json : Json}
    {value : α} (h : decode json.reading = .ok value) (isPretty : Bool) :
    decodeText decode (json.render isPretty) = .ok value := by
  rw [decodeText, ofText_render]
  simp only [h]
  rfl

end DotGraph.Json
