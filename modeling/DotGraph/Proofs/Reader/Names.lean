import DotGraph.Proofs.Reader.Refusals
import DotGraph.Proofs.Reader.Steps

namespace DotGraph.TokenReader

/-! Identifiers are read where there are identifiers: whoever begins with one without looking for it
has been sent to one. -/

open DotGraph.Tree

/-- The parts that begin with an identifier and do not look for it first. -/
def Part.beginsWithIdent : Part → Bool
  | ident | nodeId | oneAttribute | identStatement _ => true
  | _ => false

namespace Call

def Fits (call : Call) : Prop :=
  call.part.beginsWithIdent → call.reader.kind.isId

variable {call next last : Call}

theorem fits_of_mem_calls (hfits : call.Fits) (h : next ∈ call.calls) : next.Fits := by
  suffices ∀ next ∈ call.calls, next.Fits from this next h
  obtain ⟨part, reader⟩ := call
  unfold calls steps
  cases part with
  -- the identifier has been looked for
  | nodeId | oneAttribute =>
      have hid : reader.kind.isId := hfits rfl
      simp [Part.steps, callsOf, Fits, Part.beginsWithIdent, hid]
  | identStatement levels =>
      have hid : reader.kind.isId := hfits rfl
      simp only [Part.steps]
      split
      · simp [callsOf, Fits, Part.beginsWithIdent, hid]
      split <;> simp [callsOf, Fits, Part.beginsWithIdent, hid]
  -- it is looked for here
  | ident? | nodeIds _ | attributes _ | assignment _ =>
      simp only [Part.steps]
      split
      · rename_i hid
        simp [callsOf, Fits, Part.beginsWithIdent, hid]
      · simp [callsOf]
  | attributeValue key =>
      simp only [Part.steps]
      split
      · split
        · rename_i hid
          simp [callsOf, Fits, hid]
        · simp [callsOf]
      · simp [callsOf]
  | endpoint levels =>
      simp only [Part.steps]
      split
      · simp [callsOf, Fits, Part.beginsWithIdent]
      split
      · simp [callsOf, Fits, Part.beginsWithIdent]
      split
      · rename_i hid
        simp [callsOf, Fits, hid]
      · simp [callsOf]
  | statement levels =>
      simp only [Part.steps]
      split <;> simp [callsOf, Fits, Part.beginsWithIdent, Token.Kind.isId, *]
  -- nothing that is read here begins with one
  | anyToken | token _ | separator _ | ident | compass? | port | port? | bracket _ | brackets _
  | attributeList? | defaultsStatement _ | subgraph _ | groupOrSubgraph _ | hops _ _
  | edgeStatement _ _ | subgraphStatement _ | statements _ _ | block _ _ | restOfBlock _ _ _
  | skippedBlock _ | document =>
      simp only [Part.steps]
      repeat' split
      all_goals simp [callsOf, Fits, Part.beginsWithIdent]

theorem Leads.fits (h : call.Leads last) (hfits : call.Fits) : last.Fits := by
  induction h with
  | refl => exact hfits
  | tail _ hnext ih => exact fits_of_mem_calls ih hnext

/-- Only where an identifier is read, and there is none, it is noted that one is expected. -/
theorem part_eq_of_expectedIdent {position : Position} {got : Token.Kind}
    (h : ⟨position, .expectedIdent got⟩ ∈ call.notes) :
    call.part = .ident ∧ ¬ call.reader.kind.isId := by
  obtain ⟨part, reader⟩ := call
  unfold notes steps at h
  revert h
  cases part with
  | ident =>
      cases hflavour : flavour? reader.kind with
      | none =>
          intro _
          refine ⟨rfl, fun hid => ?_⟩
          simp [flavour?_of_isId hid] at hflavour
      | some flavour => simp [Part.steps, hflavour, Step.note?]
  | _ =>
      simp only [Part.steps]
      repeat' split
      all_goals simp [Step.note?]

theorem Leads.not_expectedIdent (h : call.Leads last) (hfits : call.Fits) {position : Position}
    {got : Token.Kind} : ⟨position, .expectedIdent got⟩ ∉ last.notes := by
  intro hnote
  obtain ⟨hpart, hid⟩ := part_eq_of_expectedIdent hnote
  refine hid (h.fits hfits ?_)
  rw [hpart]
  rfl

end Call

end DotGraph.TokenReader

namespace DotGraph

open DotGraph.Tree TokenReader

/-- The values that stand for missing ones: `true` at a name that no equals sign is behind, and an
empty one behind an equals sign that no name is behind. -/
inductive TokenStream.Supplies (stream : TokenStream) : Ident → Prop where
  | noEquals {front back : List Lexeme} {key next : Lexeme}
      (h : stream.lexemes = front ++ key :: next :: back) (hkey : key.token.kind.isId)
      (hnext : next.token.kind ≠ .equal) : Supplies stream ⟨key.position, "true", .bare⟩
  | noName {front back : List Lexeme} {equal next : Lexeme}
      (h : stream.lexemes = front ++ equal :: next :: back) (hequal : equal.token.kind = .equal)
      (hnext : ¬ next.token.kind.isId) : Supplies stream ⟨next.position, "", .bare⟩

/-- What a reader sees of a stream, and sees next. -/
theorem TokenReader.Pulls.exists_lexemes {stream : TokenStream} {reader : TokenReader}
    (h : (TokenReader.start stream).Pulls reader)
    (hfinish : stream.finish.token.kind = .endOfInput) (hkind : reader.kind ≠ .endOfInput) :
    ∃ front here next back, stream.lexemes = front ++ here :: next :: back ∧
      here.token.kind = reader.kind ∧ here.position = reader.position ∧
      next.token.kind = reader.advance.kind ∧ next.position = reader.advance.position := by
  have hfront := h.unread_start
  have hplace : reader.finish = stream.finish.position := h.finish_eq
  have hlexemes : stream.lexemes =
      stream.tokens.take (reader.pulled - 1) ++ (reader.unread ++ [stream.finish]) := by
    rw [hfront, ← List.append_assoc, List.take_append_drop]
    rfl
  unfold kind at hkind
  cases hunread : reader.unread with
  | nil => simp [hunread] at hkind
  | cons here unread =>
      rw [hunread] at hlexemes
      cases hrest : unread with
      | nil =>
          refine ⟨_, here, stream.finish, [], by rw [hlexemes, hrest]; rfl, ?_⟩
          simp [kind, position, TokenReader.advance, hunread, hrest, hfinish, hplace]
      | cons next back =>
          refine ⟨_, here, next, back ++ [stream.finish], by rw [hlexemes, hrest]; rfl, ?_⟩
          simp [kind, position, TokenReader.advance, hunread, hrest]

theorem TokenReader.Supplies.supplies {stream : TokenStream} {value : Ident}
    (h : (TokenReader.start stream).Supplies value)
    (hfinish : stream.finish.token.kind = .endOfInput) : stream.Supplies value := by
  cases h with
  | noEquals hpulls hid hnext =>
      obtain ⟨front, here, next, back, hlexemes, hkind, hposition, hbehind, -⟩ :=
        hpulls.exists_lexemes hfinish (Token.Kind.ne_endOfInput_of_isId hid)
      rw [← hkind] at hid
      rw [← hbehind] at hnext
      rw [← hposition]
      exact .noEquals hlexemes hid hnext
  | noName hpulls hequal hnext =>
      obtain ⟨front, here, next, back, hlexemes, hkind, -, hbehind, hposition⟩ :=
        hpulls.exists_lexemes hfinish (by simp [hequal])
      rw [← hkind] at hequal
      rw [← hbehind] at hnext
      rw [← hposition]
      exact .noName hlexemes hequal hnext

theorem Text.not_isPrefix_of_head? {wanted text : String}
    (h : text.toList.head? ≠ wanted.toList.head?) (hwanted : wanted.toList ≠ []) :
    ¬ wanted.toList <+: text.toList := by
  rintro ⟨back, hback⟩
  apply h
  rw [← hback, List.head?_append_of_ne_nil _ hwanted]

theorem Text.append_isPrefix_append_iff (front wanted text : String) :
    (front ++ wanted).toList <+: (front ++ text).toList ↔ wanted.toList <+: text.toList := by
  rw [String.toList_append, String.toList_append, List.prefix_append_right_inj]

theorem LexFault.not_isPrefix_message (fault : LexFault) :
    ¬ "expected identifier, got".toList <+: fault.message.toList := by
  apply Text.not_isPrefix_of_head?
  · rw [fault.head?_message]
    decide
  · decide

theorem ParseFault.not_isPrefix_message {fault : ParseFault}
    (h : ∀ got, fault ≠ .expectedIdent got) :
    ¬ "expected identifier, got".toList <+: fault.message.toList := by
  have hwanted : "expected identifier, got" = "expected " ++ "identifier, got" := by decide
  cases fault with
  | expectedIdent got => exact absurd rfl (h got)
  | nestingTooDeep => exact Text.not_isPrefix_of_head? (by decide) (by decide)
  | unexpectedToken got =>
      change ¬ _ <+: ("unexpected token " ++ got.name ++ " in statement").toList
      apply Text.not_isPrefix_of_head?
      · rw [String.append_assoc, head?_append (by decide)]
        decide
      · decide
  -- the others differ behind their first word
  | missingAssignedValue | missingAttributeValue | missingEndpoint => decide +kernel
  | missingHeader got =>
      change ¬ _ <+: ("expected " ++ "'graph' or 'digraph', got " ++ got.name).toList
      rw [hwanted, String.append_assoc, Text.append_isPrefix_append_iff]
      apply Text.not_isPrefix_of_head?
      · rw [head?_append (by decide)]
        decide
      · decide
  | expected wanted got =>
      change ¬ _ <+: ("expected " ++ wanted.name ++ ", got " ++ got.name).toList
      have hname : wanted.name.toList.head? ≠ none := by cases wanted <;> decide
      rw [hwanted, String.append_assoc, String.append_assoc, Text.append_isPrefix_append_iff]
      apply Text.not_isPrefix_of_head?
      · rw [head?_append hname]
        cases wanted <;> decide
      · decide

/-- However a source looks, an identifier is read only where there is one.  All that is done to read
a part are its steps, and wherever these lead to the reading of an identifier, from the whole
description on, the look-ahead token is one; so it is never reported that there is none.  What the
tree names are tokens, but for attribute values that are missing. -/
theorem identifiers_are_read_from_tokens (filename : String) (bytes : ByteArray) :
    let document := (parse filename bytes).document
    let stream := TokenStream.ofBytes filename bytes
    (∀ call : Call, call.steps.foldl Step.behind call.reader = call.behind) ∧
    (∀ reader, Call.Leads ⟨.document, .start stream⟩ ⟨.ident, reader⟩ → reader.kind.isId) ∧
    (∀ diagnostic ∈ (parse filename bytes).diagnostics,
      ¬ "expected identifier, got".toList <+: diagnostic.message.toList) ∧
    (∀ name, .ident name ∈ document.visits → name ∈ Lexeme.idents stream.tokens) ∧
    ∀ value, .supplied value ∈ document.visits →
      value ∈ Lexeme.idents stream.tokens ∨ stream.Supplies value := by
  intro document stream
  have hfits : (Call.mk .document (.start stream)).Fits := nofun
  have hsees := sees_document (TokenReader.start stream)
  refine ⟨fun call => foldl_steps call.part call.reader, fun reader h => h.fits hfits rfl, ?_, ?_, ?_⟩
  · rw [diagnostics_parse, List.forall_mem_append]
    constructor
    · intro diagnostic hmem
      obtain ⟨fault, -, rfl⟩ := List.mem_map.mp hmem
      exact fault.value.not_isPrefix_message
    · intro diagnostic hmem
      obtain ⟨⟨position, value⟩, hfault, rfl⟩ := List.mem_map.mp hmem
      refine ParseFault.not_isPrefix_message fun got hvalue => ?_
      subst hvalue
      -- nothing has been noted at first
      rcases Call.exists_note ⟨.document, .start stream⟩ hfault with
        hbefore | ⟨last, hleads, hnote⟩
      · nomatch hbefore
      · exact hleads.not_expectedIdent hfits hnote
  · intro name hmem
    exact ((List.sublist_append_left _ _).trans hsees.idents).subset
      (List.mem_filterMap.mpr ⟨_, hmem, rfl⟩)
  · intro value hmem
    have hfinish : stream.finish.token.kind = .endOfInput :=
      congrArg Token.kind (TokenStream.token_finish filename _)
    refine (hsees.names value (List.mem_filterMap.mpr ⟨_, hmem, rfl⟩)).imp id fun hsupplied => ?_
    exact hsupplied.supplies hfinish

/-- A key alone is set to `true`, and with nothing behind its equals sign it is set to nothing. -/
example : ((parse "" "graph\x7ba[b,c=]\x7d".toUTF8).document.visits.filterMap Visit.name?).map
    Ident.name = ["a", "b", "true", "c", ""] := by
  decide +kernel

end DotGraph
