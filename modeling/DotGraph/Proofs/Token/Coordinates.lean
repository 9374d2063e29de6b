import DotGraph.Proofs.Token.Scanning
import Mathlib.Data.List.Induction

namespace DotGraph

/-! The places that are told are those of the text: lines and columns can be counted from what stands
before them. -/

/-- The place behind `front`: its bytes, its lines, and the characters of the last one of them. -/
def Position.coordinates (filename : String) (front : List Char) : Position :=
  ⟨filename, Text.size front, 1 + front.count '\n',
    1 + (front.reverse.takeWhile (· ≠ '\n')).length⟩

/-- The place is in front of some character of the text, or at its end. -/
def Position.IsIn (filename : String) (text : List Char) (position : Position) : Prop :=
  ∃ front, front <+: text ∧ position = coordinates filename front

/-- The token is written in the text, and its place is that of its first character. -/
def Token.StandsIn (filename : String) (text : List Char) (token : Located Token) : Prop :=
  ∃ front c spelling rest, text = front ++ (c :: spelling ++ rest) ∧
    token.position = .coordinates filename front ∧ Stands token.value (c :: spelling) rest

theorem Token.Stands.exists_cons {token : Token} {spelling rest : List Char}
    (h : Stands token spelling rest) : ∃ c body, spelling = c :: body := by
  cases h with
  | token h =>
      obtain ⟨c, body, hspelling, _⟩ := Lexeme.starts_of_spelled h
      exact ⟨c, body, hspelling⟩
  | stray _ => exact ⟨_, [], rfl⟩

theorem Text.size_concat (text : List Char) (c : Char) :
    size (text ++ [c]) = size text + c.utf8Size := by
  rw [size, String.ofList_append, String.utf8ByteSize_append]
  simp [size]

namespace Position

theorem after_coordinates (filename : String) (front : List Char) (c : Char) :
    (coordinates filename front).after c = coordinates filename (front ++ [c]) := by
  unfold after coordinates
  rw [Text.size_concat, List.count_append, List.reverse_concat]
  split
  · rename_i h
    simp [h, Nat.add_assoc]
  · rename_i h
    simp [h, Nat.add_assoc]

theorem afterAll_start (filename : String) (front : List Char) :
    (start filename).afterAll front = coordinates filename front := by
  induction front using List.reverseRecOn with
  | nil => rfl
  | append_singleton front c ih =>
      rw [afterAll_append, ih, afterAll_cons, afterAll_nil, after_coordinates]

end Position

example : Position.coordinates "a.gv" "é\n\r é".toList = ⟨"a.gv", 7, 2, 4⟩ := by decide +kernel

theorem Cursor.Passes.position_start {filename : String} {text front : List Char} {cursor : Cursor}
    (h : (Cursor.start filename text).Passes front cursor) :
    cursor.position = .coordinates filename front := by
  rw [h.position_eq]
  exact Position.afterAll_start filename front

theorem Cursor.Reaches.isIn {filename : String} {text : List Char} {position : Position}
    (h : (Cursor.start filename text).Reaches position) : position.IsIn filename text := by
  obtain ⟨front, rest, hpasses⟩ := h
  exact ⟨front, ⟨rest, hpasses.rest_eq.symm⟩, hpasses.position_start⟩

/-- What a caller can make of a scanner that is started on a text. -/
inductive Scanner.Run (filename : String) (text : List Char) : Scanner → Prop
  | start : Run filename text (.ofText filename text)
  | nextToken {scanner : Scanner} : Run filename text scanner →
      Run filename text scanner.nextToken.2
  | next? {scanner : Scanner} : Run filename text scanner → Run filename text scanner.next?.2
  | takeDiagnostics {scanner : Scanner} : Run filename text scanner →
      Run filename text scanner.takeDiagnostics.2

namespace Scanner

variable {filename : String} {text : List Char} {scanner : Scanner}

/-- A scanner has gone over the first characters of its text, and the faults that it holds are in
the text. -/
structure InText (filename : String) (text : List Char) (scanner : Scanner) : Prop where
  passes : ∃ front, (Cursor.start filename text).Passes front scanner.cursor
  faults : ∀ fault ∈ scanner.faults, (Cursor.start filename text).Reaches fault.position

theorem InText.nextToken (h : scanner.InText filename text) :
    scanner.nextToken.2.InText filename text := by
  obtain ⟨front, hpasses⟩ := h.passes
  constructor
  · obtain ⟨spelling, hread⟩ := Lexeme.read_passes scanner.cursor
    exact ⟨front ++ spelling, hpasses.trans hread⟩
  · intro fault hmem
    rcases List.mem_append.mp hmem with hold | hnew
    · exact h.faults fault hold
    · exact (Lexeme.reaches_fault (Option.mem_toList.mp hnew)).of_passes hpasses

theorem InText.next? (h : scanner.InText filename text) :
    scanner.next?.2.InText filename text := by
  unfold Scanner.next?
  split
  · exact h
  · simp only
    split
    · exact ⟨h.nextToken.passes, h.nextToken.faults⟩
    · exact h.nextToken

theorem Run.inText (h : Run filename text scanner) : scanner.InText filename text := by
  induction h with
  | start => exact ⟨⟨[], .refl _⟩, fun _ hmem => nomatch hmem⟩
  | nextToken _ ih => exact ih.nextToken
  | next? _ ih => exact ih.next?
  | takeDiagnostics _ ih => exact ⟨ih.passes, fun _ hmem => nomatch hmem⟩

theorem Run.afterTokens (filename : String) (text : List Char) (count : Nat) :
    Run filename text ((ofText filename text).afterTokens count) := by
  induction count with
  | zero => exact .start
  | succ count ih => exact ih.nextToken

theorem Run.position_diagnostics (h : Run filename text scanner) :
    ∀ diagnostic ∈ scanner.diagnostics, diagnostic.position.IsIn filename text := by
  intro diagnostic hmem
  obtain ⟨fault, hfault, rfl⟩ := List.mem_map.mp hmem
  exact (h.inText.faults fault hfault).isIn

/-- The end of input is at the end of the text. -/
theorem Run.position_of_end (h : Run filename text scanner)
    (hend : scanner.nextToken.1.value.kind = .endOfInput) :
    scanner.nextToken.1.position = .coordinates filename text := by
  obtain ⟨front, hpasses⟩ := h.inText.passes
  have hsplit : text = front ++ scanner.cursor.rest := hpasses.rest_eq
  obtain ⟨hrest, hnext, _⟩ := Lexeme.read_of_isEnd (decide_eq_true hend)
  have hposition := (hpasses.trans hrest).position_start
  rw [hnext, ← hsplit] at hposition
  exact hposition

theorem Run.standsIn_of_token (h : Run filename text scanner)
    (htoken : scanner.nextToken.1.value.kind ≠ .endOfInput) :
    Token.StandsIn filename text scanner.nextToken.1 := by
  obtain ⟨front, hpasses⟩ := h.inText.passes
  have hsplit : text = front ++ scanner.cursor.rest := hpasses.rest_eq
  -- the token stands behind the gap that the rest of the text starts with
  obtain ⟨gap, rest, hgap, hrest, hunclosed | hstops⟩ := Trivia.hasGap scanner.cursor.rest
  · have hread := Lexeme.isEnd_read_of_unclosed hgap hunclosed hrest
    exact absurd (of_decide_eq_true hread) htoken
  · obtain ⟨hposition, spelling, hstands, hspelling⟩ := Lexeme.read_of_stops hgap hstops hrest
    obtain ⟨c, body, rfl⟩ := hstands.exists_cons
    have hgone : scanner.cursor.Passes gap ⟨(Lexeme.read scanner.cursor).1.position, rest⟩ :=
      ⟨hrest, hposition⟩
    refine ⟨front ++ gap, c, body, _, ?_, (hpasses.trans hgone).position_start, hstands⟩
    rw [hsplit, hrest, List.append_assoc]
    exact congrArg (fun back => front ++ (gap ++ back)) hspelling.rest_eq

theorem Run.isIn_nextToken (h : Run filename text scanner) :
    scanner.nextToken.1.position.IsIn filename text := by
  obtain ⟨front, hpasses⟩ := h.inText.passes
  exact ((Lexeme.reaches_read scanner.cursor).of_passes hpasses).isIn

/-- Behind a token everything else is further on. -/
theorem offset_lt_nextToken (scanner : Scanner)
    (h : scanner.nextToken.1.value.kind ≠ .endOfInput) :
    scanner.nextToken.1.position.offset < scanner.nextToken.2.nextToken.1.position.offset :=
  Nat.lt_of_lt_of_le (Lexeme.read_offset_lt scanner.cursor (decide_eq_false h))
    (Lexeme.offset_le_read (Lexeme.read scanner.cursor).2)

end Scanner

end DotGraph
