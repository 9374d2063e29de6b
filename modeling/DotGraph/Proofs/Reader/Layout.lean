import DotGraph.Proofs.Reader.LexicalPart
import DotGraph.Proofs.Reader.RestyleBlock
import Mathlib.Data.List.Forall2

namespace DotGraph

/-! What is read is a matter of the tokens: where they stand is none, nor how a name or a keyword is
written. -/

open DotGraph.Tree

/-- Tokens of one kind, where names of all kinds are alike, and of one text if they are names. -/
structure Token.Alike (first second : Token) : Prop where
  kind : first.kind = second.kind ∨ (first.kind.isId ∧ second.kind.isId)
  text : first.kind.isId → first.text = second.text

instance (first second : Token) : Decidable (first.Alike second) :=
  decidable_of_iff
    ((first.kind = second.kind ∨ (first.kind.isId ∧ second.kind.isId)) ∧
      (first.kind.isId → first.text = second.text))
    ⟨fun h => ⟨h.1, h.2⟩, fun h => ⟨h.kind, h.text⟩⟩

theorem Token.Alike.isId_eq {first second : Token} (h : first.Alike second) :
    first.kind.isId = second.kind.isId := by
  rcases h.kind with heq | ⟨hfirst, hsecond⟩
  · rw [heq]
  · rw [hfirst, hsecond]

def TokenStream.places (stream : TokenStream) : List Position :=
  stream.lexemes.map Lexeme.position

namespace TokenStream

variable {stream : TokenStream} {place : Nat}

theorem length_places (stream : TokenStream) :
    stream.places.length = stream.tokens.length + 1 := by
  simp [places, lexemes]

theorem getElem_places (h : place < stream.places.length) :
    stream.places[place] = (stream.lexemeAt place).position := by
  have hlexeme : place < stream.lexemes.length := by simpa [places] using h
  rw [← lexemeAt_eq, List.getElem?_eq_getElem hlexeme]
  simp [places]

/-- Each token stands at a place of its own, so the place tells its number. -/
theorem idxOf_places (hnodup : stream.places.Nodup) (h : place ≤ stream.tokens.length) :
    stream.places.idxOf (stream.lexemeAt place).position = place := by
  have hplace : place < stream.places.length := by
    rw [length_places]
    omega
  rw [← getElem_places hplace]
  exact hnodup.idxOf_getElem _ hplace

theorem lexemeAt_idxOf {position : Position} (h : position ∈ stream.places) :
    (stream.lexemeAt (stream.places.idxOf position)).position = position := by
  rw [← getElem_places (List.idxOf_lt_length_of_mem h), List.getElem_idxOf]

end TokenStream

namespace Tree.Style

/-- Every place is taken to be the number of the token that stands there, every name to be bare. -/
def numbered (places : List Position) : Style :=
  ⟨fun position => ⟨"", places.idxOf position, 0, 0⟩, fun _ => .bare, rfl⟩

theorem kind_numbered (places : List Position) (kind : Token.Kind) :
    (numbered places).kind kind = if kind.isId then .ident else kind := by
  cases kind <;> rfl

theorem lexeme_numbered_congr {places others : List Position} {first second : Lexeme}
    (hplace : (numbered places).place first.position = (numbered others).place second.position)
    (h : first.token.Alike second.token) :
    (numbered places).lexeme first = (numbered others).lexeme second := by
  unfold lexeme
  rw [hplace, kind_numbered, kind_numbered, h.isId_eq]
  cases hid : second.token.kind.isId with
  | true => rw [h.text (h.isId_eq.trans hid)]; rfl
  | false =>
      have hkind : first.token.kind = second.token.kind :=
        h.kind.resolve_right fun hboth => by simp [hid] at hboth
      rw [hkind]
      rfl

theorem kind_placed (place : Position → Position) (kind : Token.Kind) :
    (placed place).kind kind = kind := by
  cases kind <;> rfl

theorem fault_placed (place : Position → Position) (fault : ParseFault) :
    (placed place).fault fault = fault := by
  cases fault <;> simp only [Style.fault, kind_placed]

theorem lexeme_placeless_congr {first second : Lexeme}
    (hkind : first.token.kind = second.token.kind) (h : first.token.Alike second.token) :
    placeless.lexeme first = placeless.lexeme second := by
  unfold lexeme
  rw [hkind]
  cases hid : second.token.kind.isId with
  | true => rw [h.text (h.isId_eq.trans hid)]; rfl
  | false => rfl

/-- Only places of tokens are kept. -/
def within (stream : TokenStream) : Style :=
  .placed fun position =>
    if stream.places.contains position then position else stream.finish.position

theorem place_within_of_mem {stream : TokenStream} {position : Position}
    (h : position ∈ stream.places) : (within stream).place position = position :=
  if_pos (List.contains_iff_mem.mpr h)

theorem place_within (stream : TokenStream) (position : Position) :
    (within stream).place position ∈ stream.places := by
  by_cases h : position ∈ stream.places
  · rwa [place_within_of_mem h]
  · have hplace : (within stream).place position = stream.finish.position :=
      if_neg (mt List.contains_iff_mem.mp h)
    rw [hplace]
    exact List.mem_map_of_mem (List.mem_append_right _ (List.mem_singleton_self _))

end Tree.Style

namespace TokenReader

theorem restyle_start_congr {style other : Style} {stream second : TokenStream}
    (htokens : stream.tokens.map style.lexeme = second.tokens.map other.lexeme)
    (hfinish : style.place stream.finish.position = other.place second.finish.position) :
    restyle style (start stream) = restyle other (start second) := by
  unfold restyle start
  simp only [htokens, hfinish, Array.map_empty]

/-- Readers that start alike in two styles end alike in them. -/
theorem document_restyle_congr {style other : Style} {stream second : TokenStream}
    (h : restyle style (start stream) = restyle other (start second)) :
    (start stream).document.1.restyle style = (start second).document.1.restyle other ∧
      restyle style (start stream).document.2 = restyle other (start second).document.2 := by
  have hdocument := congrArg document h
  rw [document_restyle, document_restyle] at hdocument
  exact ⟨congrArg Prod.fst hdocument, congrArg Prod.snd hdocument⟩

/-- Whatever is noted is noted where a token stands, or at the end of the input. -/
theorem position_mem_places {stream : TokenStream} {fault : Located ParseFault}
    (h : fault ∈ (start stream).document.2.faults) : fault.position ∈ stream.places := by
  have hmem : ∀ lexeme ∈ stream.lexemes, lexeme.position ∈ stream.places :=
    fun lexeme hlexeme => List.mem_map_of_mem hlexeme
  -- both styles keep the tokens where they are, so they agree on where faults are noted
  have hstart : restyle (.placed id) (start stream) = restyle (.within stream) (start stream) := by
    apply restyle_start_congr
    · refine List.map_congr_left fun lexeme hlexeme => ?_
      have hplace := Style.place_within_of_mem (hmem lexeme (List.mem_append_left _ hlexeme))
      unfold Style.lexeme
      rw [hplace]
      rfl
    · exact (Style.place_within_of_mem (hmem _ (List.mem_append_right _
        (List.mem_singleton_self _)))).symm
  have hfaults := congrArg faults (document_restyle_congr hstart).2
  have hfault := congrArg Located.position (Array.map_inj_left.mp hfaults fault h)
  change fault.position = _ at hfault
  rw [hfault]
  exact Style.place_within stream _

/-- Tokens that are alike one by one are the same once they are numbered. -/
theorem restyle_start_numbered {stream second : TokenStream} (hnodup : stream.places.Nodup)
    (hsecond : second.places.Nodup)
    (h : List.Forall₂ (fun first second => first.token.Alike second.token) stream.tokens
      second.tokens) :
    restyle (.numbered stream.places) (start stream) =
      restyle (.numbered second.places) (start second) := by
  have hlength := h.length_eq
  have hplace : ∀ place ≤ stream.tokens.length,
      (Style.numbered stream.places).place (stream.lexemeAt place).position =
        (Style.numbered second.places).place (second.lexemeAt place).position := by
    intro place hle
    simp only [Style.numbered, TokenStream.idxOf_places hnodup hle,
      TokenStream.idxOf_places hsecond (hlength ▸ hle)]
  apply restyle_start_congr
  · apply List.ext_getElem
    · rw [List.length_map, List.length_map, hlength]
    · intro place hfirst hother
      rw [List.length_map] at hfirst hother
      have hposition := hplace place (Nat.le_of_lt hfirst)
      rw [TokenStream.lexemeAt_of_lt hfirst, TokenStream.lexemeAt_of_lt hother] at hposition
      rw [List.getElem_map, List.getElem_map]
      exact Style.lexeme_numbered_congr hposition (h.get hfirst hother)
  · have hposition := hplace _ (Nat.le_refl _)
    rw [TokenStream.lexemeAt_length, hlength, TokenStream.lexemeAt_length] at hposition
    exact hposition

end TokenReader

theorem Tree.Style.map_lexeme_placeless {tokens others : List Lexeme}
    (h : List.Forall₂ (fun first second => first.token.Alike second.token) tokens others)
    (hkinds : tokens.map (·.token.kind) = others.map (·.token.kind)) :
    tokens.map placeless.lexeme = others.map placeless.lexeme := by
  induction h with
  | nil => rfl
  | cons halike _ ih =>
      rw [List.map_cons, List.map_cons, List.cons.injEq] at hkinds
      rw [List.map_cons, List.map_cons, ih hkinds.2, lexeme_placeless_congr hkinds.1 halike]

/-- What a parse finds wrong with the order of the tokens. -/
def Parsed.syntactic (parsed : Parsed) : List Diagnostic :=
  parsed.diagnostics.filter fun diagnostic => diagnostic.kind = .parse

section

variable (filename : String) (bytes : ByteArray)

theorem syntactic_parse :
    (parse filename bytes).syntactic =
      (lastReader filename bytes).faults.toList.map ParseFault.diagnostic := by
  rw [Parsed.syntactic, diagnostics_parse, List.filter_append]
  have hlexical : ∀ faults : List (Located LexFault),
      (faults.map LexFault.diagnostic).filter (fun diagnostic => diagnostic.kind = .parse) = [] := by
    intro faults
    rw [List.filter_eq_nil_iff]
    intro diagnostic hmem
    obtain ⟨_, _, rfl⟩ := List.mem_map.mp hmem
    simp [LexFault.diagnostic]
  rw [Scanner.diagnostics, hlexical, List.nil_append, List.filter_eq_self]
  intro diagnostic hmem
  obtain ⟨_, _, rfl⟩ := List.mem_map.mp hmem
  rfl

/-- The numbers of the tokens at which a parse finds something wrong with their order. -/
def faultPlaces : List Nat :=
  (lastReader filename bytes).faults.toList.map fun fault =>
    (TokenStream.ofBytes filename bytes).places.idxOf fault.position

theorem position_fault_mem {fault : Located ParseFault}
    (h : fault ∈ (lastReader filename bytes).faults.toList) :
    fault.position ∈ (TokenStream.ofBytes filename bytes).places :=
  TokenReader.position_mem_places (Array.mem_toList_iff.mp h)

theorem faultPlaces_le :
    ∀ place ∈ faultPlaces filename bytes, place ≤ (tokenize filename bytes).1.length := by
  intro place hmem
  obtain ⟨fault, hfault, rfl⟩ := List.mem_map.mp hmem
  have hlt := List.idxOf_lt_length_of_mem (position_fault_mem filename bytes hfault)
  rw [TokenStream.length_places] at hlt
  rw [tokenize, List.length_map]
  exact Nat.le_of_lt_succ hlt

theorem positions_syntactic :
    (parse filename bytes).syntactic.map Diagnostic.position =
      (faultPlaces filename bytes).map fun place =>
        ((TokenStream.ofBytes filename bytes).lexemeAt place).position := by
  rw [syntactic_parse, faultPlaces, List.map_map, List.map_map]
  apply List.map_congr_left
  intro fault hmem
  exact (TokenStream.lexemeAt_idxOf (position_fault_mem filename bytes hmem)).symm

end

section

variable {filename other : String} {bytes otherBytes : ByteArray}
  (h : List.Forall₂ (fun first second => first.value.Alike second.value)
    (tokenize filename bytes).1 (tokenize other otherBytes).1)
include h

theorem alike_tokens :
    List.Forall₂ (fun first second => first.token.Alike second.token)
      (TokenStream.ofBytes filename bytes).tokens (TokenStream.ofBytes other otherBytes).tokens := by
  rw [tokenize, tokenize, List.forall₂_map_left_iff, List.forall₂_map_right_iff] at h
  exact h

theorem restyle_numbered_of_alike :
    (parse filename bytes).document.restyle
        (.numbered (TokenStream.ofBytes filename bytes).places) =
      (parse other otherBytes).document.restyle
        (.numbered (TokenStream.ofBytes other otherBytes).places) ∧
    faultPlaces filename bytes = faultPlaces other otherBytes := by
  obtain ⟨hdocument, hreader⟩ := TokenReader.document_restyle_congr
    (TokenReader.restyle_start_numbered (TokenStream.position_nodup filename _)
      (TokenStream.position_nodup other _) (alike_tokens h))
  refine ⟨hdocument, ?_⟩
  have hplaces := congrArg (fun reader => reader.faults.toList.map (·.position.offset)) hreader
  simp only [TokenReader.restyle, Array.toList_map, List.map_map] at hplaces
  exact hplaces

theorem restyle_placeless_of_alike
    (hkinds : (tokenize filename bytes).1.map (·.value.kind) =
      (tokenize other otherBytes).1.map (·.value.kind)) :
    (parse filename bytes).document.unplaced = (parse other otherBytes).document.unplaced ∧
    (parse filename bytes).syntactic.map Diagnostic.message =
      (parse other otherBytes).syntactic.map Diagnostic.message := by
  rw [tokenize, tokenize, List.map_map, List.map_map] at hkinds
  obtain ⟨hdocument, hreader⟩ := TokenReader.document_restyle_congr
    (TokenReader.restyle_start_congr (Style.map_lexeme_placeless (alike_tokens h) hkinds) rfl)
  refine ⟨?_, ?_⟩
  · rw [Document.unplaced_eq, Document.unplaced_eq]
    exact hdocument
  · have hfaults := congrArg (fun reader => reader.faults.toList.map (·.value.message)) hreader
    simp only [TokenReader.restyle, Array.toList_map, List.map_map, Style.placeless,
      Style.fault_placed] at hfaults
    rw [syntactic_parse, syntactic_parse, List.map_map, List.map_map]
    exact hfaults

/-- Sources with the same tokens give the same graph, and what is wrong is found at the same tokens.
If names are written alike as well, the trees differ in their places alone, and so does what is
reported. -/
theorem parse_of_alike :
    (parse filename bytes).document.toGraph = (parse other otherBytes).document.toGraph ∧
    (∃ places : List Nat, (∀ place ∈ places, place ≤ (tokenize filename bytes).1.length) ∧
      (parse filename bytes).syntactic.map Diagnostic.position =
        places.map (fun place => ((TokenStream.ofBytes filename bytes).lexemeAt place).position) ∧
      (parse other otherBytes).syntactic.map Diagnostic.position =
        places.map fun place => ((TokenStream.ofBytes other otherBytes).lexemeAt place).position) ∧
    ((tokenize filename bytes).1.map (·.value.kind) =
        (tokenize other otherBytes).1.map (·.value.kind) →
      (parse filename bytes).document.unplaced = (parse other otherBytes).document.unplaced ∧
      (parse filename bytes).syntactic.map Diagnostic.message =
        (parse other otherBytes).syntactic.map Diagnostic.message) := by
  obtain ⟨hdocument, hplaces⟩ := restyle_numbered_of_alike h
  refine ⟨?_, ⟨faultPlaces filename bytes, faultPlaces_le filename bytes,
    positions_syntactic filename bytes, ?_⟩, restyle_placeless_of_alike h⟩
  · have hgraph := congrArg Document.toGraph hdocument
    rwa [Document.toGraph_restyle, Document.toGraph_restyle] at hgraph
  · rw [hplaces]
    exact positions_syntactic other otherBytes

end

/-- In both sources a value is missing in front of the last brace. -/
theorem parse_of_alike_requoted :
    List.Forall₂ (fun first second => first.value.Alike second.value)
        (tokenize "" "graph\x7ba--b[c=d]e=\x7d".toUTF8).1
        (tokenize "b.gv" "GRAPH // x\n\x7b\"a\"--b[c =\n<d>] e /**/ = \x7d".toUTF8).1 ∧
      (parse "" "graph\x7ba--b[c=d]e=\x7d".toUTF8).document.toGraph =
        (parse "b.gv" "GRAPH // x\n\x7b\"a\"--b[c =\n<d>] e /**/ = \x7d".toUTF8).document.toGraph ∧
      (parse "" "graph\x7ba--b[c=d]e=\x7d".toUTF8).syntactic.length = 1 :=
  have halike : List.Forall₂ (fun first second => first.value.Alike second.value)
      (tokenize "" "graph\x7ba--b[c=d]e=\x7d".toUTF8).1
      (tokenize "b.gv" "GRAPH // x\n\x7b\"a\"--b[c =\n<d>] e /**/ = \x7d".toUTF8).1 := by
    decide +kernel
  ⟨halike, (parse_of_alike halike).1, by decide +kernel⟩

end DotGraph
