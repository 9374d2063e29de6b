import DotGraph.Json.Graph
import DotGraph.Json.Settings
import DotGraph.Proofs.Json.Record

namespace DotGraph

/-! Graphs, places, diagnostics and settings are what their texts say. -/

open Json Json.Record

namespace Attributes

theorem eq_of_entries {first second : Attributes} (h : first.entries = second.entries) :
    first = second := by
  cases first
  cases h
  rfl

theorem insertEntry_concat (key value : String) {entries : List (String × String)}
    (h : ∀ entry ∈ entries, entry.1 < key) :
    insertEntry key value entries = entries ++ [(key, value)] := by
  induction entries with
  | nil => rfl
  | cons entry entries ih =>
      have hlt := h entry List.mem_cons_self
      rw [insertEntry, if_neg (String.lt_asymm hlt), if_neg (Ne.symm (String.ne_of_lt hlt)),
        ih fun other hmem => h other (List.mem_cons_of_mem _ hmem), List.cons_append]

/-- Entries in increasing order go to the end one after another. -/
theorem entries_setAll (made : Attributes) {entries : List (String × String)}
    (h : (made.entries ++ entries).Pairwise fun first second => first.1 < second.1) :
    (made.setAll entries).entries = made.entries ++ entries := by
  induction entries generalizing made with
  | nil => exact (List.append_nil _).symm
  | cons entry entries ih =>
      have hset : (made.set entry.1 entry.2).entries = made.entries ++ [entry] :=
        insertEntry_concat _ _ fun other hmem =>
          (List.pairwise_append.mp h).2.2 other hmem entry List.mem_cons_self
      have hrest := ih (made.set entry.1 entry.2)
      rw [hset, List.append_assoc] at hrest
      exact hrest h

theorem setAll_entries (attributes : Attributes) :
    empty.setAll attributes.entries = attributes :=
  eq_of_entries (entries_setAll empty attributes.increasing)

theorem foldlM_set (made : Attributes) (entries : List (String × String)) :
    (memberReadings (entries.map fun entry => (entry.1, .string entry.2))).foldlM
        (fun made member => do
          return made.set (← member.1) (← member.2.asString)) made =
      (.ok (made.setAll entries) : Except ReadFault Attributes) := by
  induction entries generalizing made with
  | nil =>
      rw [List.map_nil, memberReadings]
      rfl
  | cons entry entries ih =>
      rw [List.map_cons, memberReadings, List.foldlM_cons, reading]
      exact ih (made.set entry.1 entry.2)

theorem roundTrips (attributes : Attributes) : RoundTrips toJson ofJson attributes := by
  have hfold := foldlM_set empty attributes.entries
  rw [setAll_entries] at hfold
  rw [RoundTrips, toJson, reading, ofJson, Reading.foldMembers]
  exact congrArg (· >>= _) hfold

end Attributes

namespace Graph

section Members

variable {α β : Type} {name : String} {value made : α}

theorem restores_text {get : α → String} {set : String → α → α} (h : set "" made = made) :
    Restores value (.optional name get set String.isEmpty .string Reading.asString) made
      (set (get value) made) :=
  restores_optional (roundTrips_string _) fun hempty => by rwa [String.isEmpty_iff.mp hempty]

theorem restores_flag {get : α → Bool} {set : Bool → α → α} (h : set false made = made) :
    Restores value (.optional name get set (!·) .bool Reading.asBool) made
      (set (get value) made) :=
  restores_optional (roundTrips_bool _) fun hfalse => by rwa [Bool.not_eq_eq_eq_not.mp hfalse]

theorem restores_option {get : α → Option β} {set : Option β → α → α} {encode : β → Json}
    {decode : Reading → Except ReadFault β}
    (hinner : ∀ inner ∈ get value,
      RoundTrips encode decode inner ∧ (encode inner).reading ≠ .null)
    (h : set none made = made) :
    Restores value (.optional name get set Option.isNone (.ofOption encode)
      (Reading.asOption decode)) made (set (get value) made) :=
  restores_optional (roundTrips_option hinner) fun hnone => by
    rwa [Option.isNone_iff_eq_none.mp hnone]

theorem restores_array {get : α → Array β} {set : Array β → α → α} {encode : β → Json}
    {decode : Reading → Except ReadFault β}
    (hitems : ∀ item ∈ get value, RoundTrips encode decode item) (h : set #[] made = made) :
    Restores value (.optional name get set Array.isEmpty
      (fun values => .array (values.toList.map encode))
      (fun reading => List.toArray <$> reading.asList decode)) made (set (get value) made) :=
  restores_optional (roundTrips_array hitems) fun hempty => by rwa [Array.isEmpty_iff.mp hempty]

theorem restores_attributes {get : α → Attributes} {set : Attributes → α → α}
    (h : set .empty made = made) :
    Restores value (.optional name get set Attributes.isEmpty Attributes.toJson
      Attributes.ofJson) made (set (get value) made) :=
  restores_optional (Attributes.roundTrips _) fun hempty => by
    rwa [show get value = .empty from Attributes.eq_of_entries (List.isEmpty_iff.mp hempty)]

end Members

theorem Node.roundTrips (node : Node) : RoundTrips toJson ofJson node := by
  refine decode_encode (by decide : (record.fields.map Member.name).Nodup) ?_
  refine .cons (restores_required (roundTrips_string _) _) ?_
  refine .cons (restores_optional (roundTrips_string _) nofun) ?_
  refine .cons (restores_text rfl) (.cons (restores_text rfl) ?_)
  refine .cons (restores_text rfl) (.cons (restores_text rfl) ?_)
  refine .cons (restores_option (fun _ _ => roundTrips_inner _) rfl) ?_
  refine .cons (restores_attributes rfl) ?_
  exact .cons (restores_flag rfl) (.cons (restores_flag rfl) .nil)

theorem Link.roundTrips (link : Link) : RoundTrips toJson ofJson link := by
  refine decode_encode (by decide : (record.fields.map Member.name).Nodup) ?_
  refine .cons (restores_required (roundTrips_string _) _) ?_
  refine .cons (restores_required (roundTrips_string _) _) ?_
  refine .cons (restores_text rfl) (.cons (restores_text rfl) (.cons (restores_text rfl) ?_))
  exact .cons (restores_attributes rfl) (.cons (restores_flag rfl) .nil)

theorem Subgraph.roundTrips (subgraph : Subgraph) : RoundTrips toJson ofJson subgraph := by
  refine decode_encode (by decide : (record.fields.map Member.name).Nodup) ?_
  refine .cons (restores_required (roundTrips_string _) _) ?_
  refine .cons (restores_text rfl) (.cons (restores_text rfl) (.cons (restores_text rfl) ?_))
  exact .cons (restores_required (roundTrips_array fun _ _ => roundTrips_string _) _) .nil

theorem roundTrips (graph : Graph) : RoundTrips toJson ofJson graph := by
  refine decode_encode (by decide : (record.fields.map Member.name).Nodup) ?_
  refine .cons (restores_required (roundTrips_array fun node _ => node.roundTrips) _) ?_
  refine .cons (restores_required (roundTrips_array fun link _ => link.roundTrips) _) ?_
  refine .cons (restores_required (roundTrips_bool _) _) (.cons (restores_flag rfl) ?_)
  refine .cons (restores_option (fun _ _ => roundTrips_inner _) rfl) ?_
  exact .cons (restores_array (fun subgraph _ => subgraph.roundTrips) rfl) .nil

theorem LostEdge.roundTrips (edge : LostEdge) : RoundTrips toJson ofJson edge := by
  refine decode_encode (by decide : (record.fields.map Member.name).Nodup) ?_
  refine .cons (restores_required (roundTrips_string _) _) ?_
  refine .cons (restores_required (roundTrips_string _) _) ?_
  exact .cons (restores_required (roundTrips_string _) _) .nil

theorem PathCheck.roundTrips (check : PathCheck) : RoundTrips toJson ofJson check := by
  refine decode_encode (by decide : (record.fields.map Member.name).Nodup) ?_
  refine .cons (restores_required (roundTrips_bool _) _) ?_
  refine .cons (restores_option (fun _ _ => roundTrips_inner _) rfl) ?_
  refine .cons (restores_option (fun edge _ => ⟨edge.roundTrips, encode_ne_null _ edge⟩) rfl) ?_
  exact .cons (restores_option (fun _ _ => roundTrips_inner _) rfl) .nil

end Graph

/-- The three numbers are unsigned words. -/
def Position.FitsWords (position : Position) : Prop :=
  position.offset < Numeral.wordBound ∧ position.line < Numeral.wordBound ∧
    position.column < Numeral.wordBound

instance (position : Position) : Decidable position.FitsWords :=
  inferInstanceAs (Decidable (_ ∧ _ ∧ _))

theorem Position.roundTrips {position : Position} (h : position.FitsWords) :
    RoundTrips toJson ofJson position := by
  refine decode_encode (by decide : (record.fields.map Member.name).Nodup) ?_
  refine .cons (restores_required (roundTrips_string _) _) ?_
  refine .cons (restores_required (roundTrips_word h.1) _) ?_
  refine .cons (restores_required (roundTrips_word h.2.1) _) ?_
  exact .cons (restores_required (roundTrips_word h.2.2) _) .nil

namespace Diagnostic

theorem Kind.named_name (kind : Kind) : Kind.named kind.name = .ok kind := by
  cases kind <;> rfl

theorem Kind.roundTrips (kind : Kind) : RoundTrips toJson ofJson kind := by
  rw [RoundTrips, toJson, ofJson, decodeVariant_name, named_name]

theorem roundTrips {diagnostic : Diagnostic} (h : diagnostic.position.FitsWords) :
    RoundTrips toJson ofJson diagnostic := by
  -- the kind is no field of the record but the name that the record stands under
  have hrecord : record.decode (record.encode diagnostic).reading =
      .ok { diagnostic with kind := default } := by
    refine decode_encode (by decide : (record.fields.map Member.name).Nodup) ?_
    refine .cons (restores_required (Position.roundTrips h) _) ?_
    exact .cons (restores_required (roundTrips_string _) _) .nil
  refine decodeVariant_member _ _ _ _ ?_
  rw [Kind.named_name, hrecord]
  rfl

end Diagnostic

theorem Settings.roundTrips (settings : Settings) : RoundTrips toJson ofJson settings := by
  refine decode_encode (by decide : (record.fields.map Member.name).Nodup) ?_
  refine .cons (restores_optional (roundTrips_string _) nofun) ?_
  refine .cons (restores_optional (roundTrips_bool _) nofun) ?_
  refine .cons (restores_optional (roundTrips_option fun _ _ => roundTrips_inner _) nofun) ?_
  exact .cons (restores_optional (roundTrips_bool _) nofun) .nil

/-- Whatever is written as JSON, in either layout, is read back as it was. -/
theorem decodeText_render_toJson (isPretty : Bool) :
    (∀ graph : Graph, decodeText Graph.ofJson (graph.toJson.render isPretty) = .ok graph) ∧
    (∀ node : Graph.Node, decodeText Graph.Node.ofJson (node.toJson.render isPretty) = .ok node) ∧
    (∀ link : Graph.Link, decodeText Graph.Link.ofJson (link.toJson.render isPretty) = .ok link) ∧
    (∀ subgraph : Graph.Subgraph,
      decodeText Graph.Subgraph.ofJson (subgraph.toJson.render isPretty) = .ok subgraph) ∧
    (∀ check : Graph.PathCheck,
      decodeText Graph.PathCheck.ofJson (check.toJson.render isPretty) = .ok check) ∧
    (∀ edge : Graph.LostEdge,
      decodeText Graph.LostEdge.ofJson (edge.toJson.render isPretty) = .ok edge) ∧
    (∀ position : Position, position.FitsWords →
      decodeText Position.ofJson (position.toJson.render isPretty) = .ok position) ∧
    (∀ diagnostic : Diagnostic, diagnostic.position.FitsWords →
      decodeText Diagnostic.ofJson (diagnostic.toJson.render isPretty) = .ok diagnostic) ∧
    (∀ kind : Diagnostic.Kind,
      decodeText Diagnostic.Kind.ofJson (kind.toJson.render isPretty) = .ok kind) ∧
    ∀ settings : Settings,
      decodeText Settings.ofJson (settings.toJson.render isPretty) = .ok settings :=
  ⟨fun graph => decodeText_render graph.roundTrips isPretty,
    fun node => decodeText_render node.roundTrips isPretty,
    fun link => decodeText_render link.roundTrips isPretty,
    fun subgraph => decodeText_render subgraph.roundTrips isPretty,
    fun check => decodeText_render check.roundTrips isPretty,
    fun edge => decodeText_render edge.roundTrips isPretty,
    fun _ hwords => decodeText_render (Position.roundTrips hwords) isPretty,
    fun _ hwords => decodeText_render (Diagnostic.roundTrips hwords) isPretty,
    fun kind => decodeText_render kind.roundTrips isPretty,
    fun settings => decodeText_render settings.roundTrips isPretty⟩

private def lastPlace : Position :=
  ⟨"a\"b\n", 18446744073709551615, 18446744073709551615, 18446744073709551615⟩

theorem decodeText_render_toJson_lastPlace :
    decodeText Position.ofJson (lastPlace.toJson.render true) = .ok lastPlace ∧
      decodeText Diagnostic.ofJson
        ((Diagnostic.toJson ⟨.lex, lastPlace, "\x00"⟩).render false) =
          .ok ⟨.lex, lastPlace, "\x00"⟩ :=
  have hwords : lastPlace.FitsWords := by decide
  ⟨(decodeText_render_toJson true).2.2.2.2.2.2.1 lastPlace hwords,
    (decodeText_render_toJson false).2.2.2.2.2.2.2.1 ⟨.lex, lastPlace, "\x00"⟩ hwords⟩

end DotGraph
