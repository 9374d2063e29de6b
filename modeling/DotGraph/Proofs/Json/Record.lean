import DotGraph.Proofs.Json.Text

namespace DotGraph.Json

/-! Reading inverts writing, for records once it does for each of their fields. -/

/-- The value is read from what is written of it. -/
def RoundTrips {α : Type} (encode : α → Json) (decode : Reading → Except ReadFault α)
    (value : α) : Prop :=
  decode (encode value).reading = .ok value

section Values

variable {α : Type} {encode : α → Json} {decode : Reading → Except ReadFault α}

theorem roundTrips_string (value : String) : RoundTrips .string Reading.asString value := by
  rw [RoundTrips, reading]
  rfl

theorem roundTrips_bool (value : Bool) : RoundTrips .bool Reading.asBool value := by
  rw [RoundTrips, reading]
  rfl

theorem roundTrips_word {value : Nat} (h : value < Numeral.wordBound) :
    RoundTrips .number Reading.asWord value := by
  rw [RoundTrips, reading, ofParts_toDigits h]
  rfl

theorem asOption_of_ne_null {reading : Reading} (h : reading ≠ .null) :
    Reading.asOption decode reading = some <$> decode reading := by
  cases reading <;> first | rfl | contradiction

theorem roundTrips_option {value : Option α}
    (h : ∀ inner ∈ value, RoundTrips encode decode inner ∧ (encode inner).reading ≠ .null) :
    RoundTrips (.ofOption encode) (Reading.asOption decode) value := by
  cases value with
  | none =>
      rw [RoundTrips, ofOption, reading]
      rfl
  | some inner =>
      -- only what is not there may be written as null
      obtain ⟨hinner, hnull⟩ := h inner rfl
      rw [RoundTrips, ofOption, asOption_of_ne_null hnull, hinner]
      rfl

theorem roundTrips_inner (inner : String) :
    RoundTrips .string Reading.asString inner ∧ reading (.string inner) ≠ .null :=
  ⟨roundTrips_string inner, by rw [reading]; nofun⟩

theorem mapM_itemReadings {values : List α} (h : ∀ value ∈ values, RoundTrips encode decode value) :
    (itemReadings (values.map encode)).mapM decode = .ok values := by
  induction values with
  | nil =>
      rw [List.map_nil, itemReadings]
      rfl
  | cons value values ih =>
      have hvalue : decode (encode value).reading = .ok value := h value List.mem_cons_self
      rw [List.map_cons, itemReadings, List.mapM_cons, hvalue,
        ih fun other hmem => h other (List.mem_cons_of_mem _ hmem)]
      rfl

theorem roundTrips_array {values : Array α} (h : ∀ value ∈ values, RoundTrips encode decode value) :
    RoundTrips (fun values => .array (values.toList.map encode))
      (fun reading => List.toArray <$> reading.asList decode) values := by
  rw [RoundTrips, reading, Reading.asList,
    mapM_itemReadings fun value hmem => h value (Array.mem_toList_iff.mp hmem)]
  rfl

end Values

namespace Record

variable {α : Type}

/-- One field leads from what is made of a value to what is made next. -/
def Restores (value : α) (field : Member α) (made next : α) : Prop :=
  match field.encode value with
  | some json => field.decode json.reading made = .ok next
  | none => field.isRequired = false ∧ next = made

/-- All fields lead from one to another. -/
inductive Rebuilds (value : α) : List (Member α) → α → α → Prop where
  | nil {made : α} : Rebuilds value [] made made
  | cons {field : Member α} {fields : List (Member α)} {made next last : α}
      (first : Restores value field made next) (more : Rebuilds value fields next last) :
      Rebuilds value (field :: fields) made last

section Members

variable {β : Type} {name : String} {get : α → β} {set : β → α → α} {encode : β → Json}
  {decode : Reading → Except ReadFault β} {value : α}

theorem restores_required (h : RoundTrips encode decode (get value)) (made : α) :
    Restores value (.required name get set encode decode) made (set (get value) made) := by
  have hread : decode (encode (get value)).reading = .ok (get value) := h
  simp only [Restores, Member.required, hread]
  rfl

theorem restores_optional {isLeftOut : β → Bool} (h : RoundTrips encode decode (get value))
    {made : α} (hleft : isLeftOut (get value) → set (get value) made = made) :
    Restores value (.optional name get set isLeftOut encode decode) made
      (set (get value) made) := by
  have hread : decode (encode (get value)).reading = .ok (get value) := h
  unfold Restores Member.optional
  by_cases hout : isLeftOut (get value)
  · -- the field stays as the blank record has it, which is the value that was left out
    simpa only [if_pos hout, true_and] using hleft hout
  · simp only [if_neg hout, hread]
    rfl

end Members

/-- What is written for some of the fields. -/
def written (value : α) (fields : List (Member α)) : List (String × Json) :=
  fields.filterMap fun field => (field.encode value).map fun json => (field.name, json)

theorem find?_name {fields : List (Member α)} (hnodup : (fields.map Member.name).Nodup)
    {field : Member α} (hmem : field ∈ fields) :
    fields.find? (fun other => other.name = field.name) = some field := by
  induction fields with
  | nil => nomatch hmem
  | cons first fields ih =>
      obtain ⟨hname, hnodup⟩ := List.nodup_cons.mp hnodup
      rcases List.mem_cons.mp hmem with rfl | hmem
      · simp
      · have hne : first.name ≠ field.name :=
          fun heq => hname (heq ▸ List.mem_map_of_mem hmem)
        rw [List.find?_cons_of_neg (by simpa using hne)]
        exact ih hnodup hmem

variable {record : Record α} {value : α}

theorem addMember_of_find {field : Member α} {names : List String} {json : Json} {made next : α}
    (hfind : record.fields.find? (fun other => other.name = field.name) = some field)
    (hfresh : field.name ∉ names) (hread : field.decode json.reading made = .ok next) :
    record.addMember (made, names) field.name json.reading = .ok (next, field.name :: names) := by
  simp only [addMember, hfind, if_neg hfresh, hread]
  rfl

/-- The members that are written are taken one after another, each for the first time. -/
theorem foldlM_addMember {fields : List (Member α)} {made last : α}
    (h : Rebuilds value fields made last)
    (hfind : ∀ field ∈ fields,
      record.fields.find? (fun other => other.name = field.name) = some field)
    (hnodup : (fields.map Member.name).Nodup) (names : List String)
    (hfresh : ∀ field ∈ fields, field.name ∉ names) :
    ∃ found, (memberReadings (written value fields)).foldlM
        (fun made member => do record.addMember made (← member.1) member.2) (made, names) =
          .ok (last, found) ∧
      (∀ name ∈ names, name ∈ found) ∧
        ∀ field ∈ fields, field.isRequired → field.name ∈ found := by
  induction h generalizing names with
  | nil => exact ⟨names, rfl, fun _ hmem => hmem, fun _ hmem => nomatch hmem⟩
  | @cons field fields made next last first more ih =>
      obtain ⟨hname, hnodup⟩ := List.nodup_cons.mp hnodup
      have ih := ih (fun other hmem => hfind other (List.mem_cons_of_mem _ hmem)) hnodup
      have hlater := fun other hmem => hfresh other (List.mem_cons_of_mem _ hmem)
      have hfresh := hfresh field List.mem_cons_self
      unfold Restores at first
      cases hjson : field.encode value with
      | none =>
          rw [hjson] at first
          obtain ⟨hoptional, rfl⟩ := first
          obtain ⟨found, hfold, hnames, hrequired⟩ := ih names hlater
          refine ⟨found, ?_, hnames, ?_⟩
          · simpa only [written, List.filterMap_cons, hjson, Option.map_none] using hfold
          · rintro other (_ | ⟨_, hmem⟩) hother
            · simp [hoptional] at hother
            · exact hrequired other hmem hother
      | some json =>
          rw [hjson] at first
          -- the name joins those in front, and no later field has it
          have hadd := addMember_of_find (hfind field List.mem_cons_self) hfresh first
          have hlater : ∀ other ∈ fields, other.name ∉ field.name :: names := by
            intro other hmem hseen
            rcases List.mem_cons.mp hseen with heq | hseen
            · exact hname (heq ▸ List.mem_map_of_mem hmem)
            · exact hlater other hmem hseen
          obtain ⟨found, hfold, hnames, hrequired⟩ := ih (field.name :: names) hlater
          refine ⟨found, ?_, fun name hmem => hnames name (List.mem_cons_of_mem _ hmem), ?_⟩
          · simp only [written, List.filterMap_cons, hjson, Option.map_some, memberReadings,
              List.foldlM_cons]
            exact (congrArg (· >>= _) hadd).trans hfold
          · rintro other (_ | ⟨_, hmem⟩) hother
            · exact hnames _ List.mem_cons_self
            · exact hrequired other hmem hother

theorem encode_ne_null (record : Record α) (value : α) :
    (record.encode value).reading ≠ .null := by
  simp [encode, reading]

/-- A record is read as what its fields make of the blank one. -/
theorem decode_encode (hnodup : (record.fields.map Member.name).Nodup) {last : α}
    (h : Rebuilds value record.fields record.blank last) :
    record.decode (record.encode value).reading = .ok last := by
  obtain ⟨found, hfold, -, hrequired⟩ := foldlM_addMember h (fun _ hmem => find?_name hnodup hmem)
    hnodup [] fun _ _ hmem => nomatch hmem
  have hall : record.fields.all
      (fun field => !field.isRequired || found.contains field.name) = true := by
    rw [List.all_eq_true]
    intro field hmem
    by_cases hfield : field.isRequired
    · simp [hrequired field hmem hfield]
    · simp [hfield]
  have hmembers : Reading.foldMembers record.addMember (record.blank, [])
      (.object (memberReadings (written value record.fields)) none) = .ok (last, found) := by
    rw [Reading.foldMembers, hfold]
    rfl
  rw [encode, reading, decode]
  · exact (congrArg (· >>= _) hmembers).trans (if_pos hall)
  · nofun

end Record

theorem decodeVariant_name {α : Type} (alone : String → Except ReadFault α)
    (member : String → Reading → Except ReadFault α) (name : String) :
    decodeVariant alone member (reading (.string name)) = alone name := by
  rw [reading]
  rfl

theorem decodeVariant_member {α : Type} (alone : String → Except ReadFault α)
    (member : String → Reading → Except ReadFault α) (name : String) (json : Json) {value : α}
    (h : member name json.reading = .ok value) :
    decodeVariant alone member (reading (.object [(name, json)])) = .ok value := by
  rw [reading, memberReadings, memberReadings]
  exact congrArg (· >>= _) h

end DotGraph.Json
