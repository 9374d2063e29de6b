import DotGraph.Proofs.Token.Order
import DotGraph.Proofs.Token.Spelled

namespace DotGraph

/-! The tokens of a text and the gaps around them are the whole text. -/

open Token (Stands)
open Trivia (Gap Unclosed)

/-- How many bytes of UTF-8 the characters take. -/
def Text.size (text : List Char) : Nat :=
  (String.ofList text).utf8ByteSize

theorem Position.offset_afterAll (position : Position) (text : List Char) :
    (position.afterAll text).offset = position.offset + Text.size text := by
  induction text generalizing position with
  | nil => rfl
  | cons c text ih =>
      have hsize : Text.size (c :: text) = c.utf8Size + Text.size text := by
        rw [Text.size, ← List.singleton_append, String.ofList_append, String.utf8ByteSize_append]
        simp [Text.size]
      have hafter : (position.after c).offset = position.offset + c.utf8Size := by
        unfold Position.after
        split <;> rfl
      rw [Position.afterAll_cons, ih, hafter, hsize, Nat.add_assoc]

/-- A text that starts at `offset` is made of tokens, one behind the other, with nothing but gaps
around them, and each token has the place at which it starts. -/
inductive Tiles : (offset : Nat) → List (Located Token) → List Char → Prop
  | nil {offset : Nat} {gap unclosed : List Char} (hgap : Gap gap) (hunclosed : Unclosed unclosed) :
      Tiles offset [] (gap ++ unclosed)
  | cons {offset : Nat} {gap spelling rest : List Char} {token : Located Token}
      {tokens : List (Located Token)} (hgap : Gap gap)
      (hoffset : token.position.offset = offset + Text.size gap)
      (htoken : Stands token.value spelling rest) :
      Tiles (token.position.offset + Text.size spelling) tokens rest →
      Tiles offset (token :: tokens) (gap ++ (spelling ++ rest))

theorem Token.Stands.kind_ne_endOfInput {token : Token} {spelling rest : List Char}
    (h : Stands token spelling rest) : token.kind ≠ .endOfInput := by
  have hnone : Kind.endOfInput ∉ Kind.keywords ∧ Kind.endOfInput ∉ Kind.signs := by decide
  cases h with
  | stray _ => exact Kind.noConfusion
  | token h =>
      cases h with
      | keyword hkind _ _ _ => exact fun h => hnone.1 (h ▸ hkind)
      | sign hkind => exact fun h => hnone.2 (h ▸ hkind)
      | _ => exact Kind.noConfusion

/-- No bare name is empty. -/
theorem Token.Stands.text_ne_empty {token : Token} {spelling rest : List Char}
    (h : Stands token spelling rest) (hkind : token.kind = .ident) : token.text ≠ "" := by
  have hnone : Kind.ident ∉ Kind.keywords ∧ Kind.ident ∉ Kind.signs := by decide
  have hempty : Lexeme.isWord [] = false ∧ Lexeme.isNumeral [] = false := by decide
  cases h with
  | stray _ => nomatch hkind
  | token h =>
      cases h with
      | keyword hkeyword _ _ _ => exact absurd (hkind ▸ hkeyword) hnone.1
      | sign hsign => exact absurd (hkind ▸ hsign) hnone.2
      | word hword _ _ =>
          intro htext
          rw [String.ofList_eq_empty_iff.mp htext] at hword
          exact nomatch hempty.1.symm.trans hword
      | numeral hdigits _ =>
          intro htext
          rw [String.ofList_eq_empty_iff.mp htext] at hdigits
          exact nomatch hempty.2.symm.trans hdigits
      | quoted _ _ | html _ | openHtml _ => nomatch hkind

theorem Tiles.exists_stands {offset : Nat} {tokens : List (Located Token)} {text : List Char}
    (h : Tiles offset tokens text) {token : Located Token} (hmem : token ∈ tokens) :
    ∃ spelling rest, Stands token.value spelling rest := by
  induction h with
  | nil _ _ => nomatch hmem
  | cons _ _ htoken _ ih =>
      rcases List.mem_cons.mp hmem with rfl | hmem
      · exact ⟨_, _, htoken⟩
      · exact ih hmem

namespace Lexeme

variable {cursor : Cursor} {gap rest : List Char} (hgap : Gap gap)
include hgap

theorem isEnd_read_of_unclosed (hunclosed : Unclosed rest) (hrest : cursor.rest = gap ++ rest) :
    (read cursor).1.isEnd := by
  have hskip := Trivia.skip_gap hgap cursor.position rest
  have hend := Trivia.skip_unclosed hunclosed (cursor.position.afterAll gap)
  rw [← hrest] at hskip
  unfold read
  rw [hskip]
  split
  rename_i start unclosed hstart
  rw [hstart] at hend
  have hstop : start.rest = [] := congrArg Cursor.rest hend
  rw [hstop]
  rfl

theorem read_eq_readAt {c : Char} (hstops : Trivia.Stops (c :: rest))
    (hrest : cursor.rest = gap ++ c :: rest) :
    read cursor = readAt (cursor.position.afterAll gap) c rest := by
  have hskip := Trivia.skip_gap hgap cursor.position (c :: rest)
  rw [← hrest, hstops.2] at hskip
  simp only [read, hskip]

theorem read_of_stops (hstops : Trivia.Stops rest) (hrest : cursor.rest = gap ++ rest) :
    (read cursor).1.position = cursor.position.afterAll gap ∧
      ∃ spelling, Stands (read cursor).1.token spelling (read cursor).2.rest ∧
        Cursor.Passes ⟨(read cursor).1.position, rest⟩ spelling (read cursor).2 := by
  cases rest with
  | nil => exact absurd rfl hstops.1
  | cons c rest =>
      rw [read_eq_readAt hgap hstops hrest, position_readAt]
      exact ⟨rfl, readAt_stands _ hstops⟩

end Lexeme

namespace TokenStream

theorem tiles_readFrom (cursor : Cursor) (before : Array Lexeme) :
    ∃ lexemes, (readFrom cursor before).tokens = before.toList ++ lexemes ∧
      Tiles cursor.position.offset
        (lexemes.map fun lexeme => ⟨lexeme.position, lexeme.token⟩) cursor.rest := by
  -- a gap is followed by the end of the text or by a token, and what is read tells which of them
  induction cursor, before using readFrom.induct with
  | case1 cursor before read h =>
      refine ⟨[], by rw [readFrom, dif_pos h, List.append_nil], ?_⟩
      obtain ⟨gap, rest, hgap, hrest, hunclosed | hstops⟩ := Trivia.hasGap cursor.rest
      · rw [hrest]
        exact .nil hgap hunclosed
      · obtain ⟨_, spelling, hstands, _⟩ := Lexeme.read_of_stops hgap hstops hrest
        exact absurd (by simpa [Lexeme.isEnd] using h) hstands.kind_ne_endOfInput
  | case2 cursor before read h ih =>
      obtain ⟨lexemes, htokens, htiles⟩ := ih
      refine ⟨read.1 :: lexemes, by rw [readFrom, dif_neg h, htokens]; simp, ?_⟩
      obtain ⟨gap, rest, hgap, hrest, hunclosed | hstops⟩ := Trivia.hasGap cursor.rest
      · exact absurd (Lexeme.isEnd_read_of_unclosed hgap hunclosed hrest) h
      · obtain ⟨hposition, spelling, hstands, hpasses⟩ :=
          Lexeme.read_of_stops hgap hstops hrest
        have hsplit : rest = spelling ++ (Lexeme.read cursor).2.rest := hpasses.rest_eq
        have hoffset : (Lexeme.read cursor).1.position.offset =
            cursor.position.offset + Text.size gap := by
          rw [hposition, Position.offset_afterAll]
        have hnext : (Lexeme.read cursor).2.position.offset =
            (Lexeme.read cursor).1.position.offset + Text.size spelling := by
          rw [hpasses.position_eq, Position.offset_afterAll]
        rw [hnext] at htiles
        rw [hrest, hsplit]
        exact .cons hgap hoffset hstands htiles

theorem text_ne_empty {filename : String} {bytes : ByteArray} {lexeme : Lexeme}
    (hmem : lexeme ∈ (ofBytes filename bytes).tokens) (hkind : lexeme.token.kind = .ident) :
    lexeme.token.text ≠ "" := by
  obtain ⟨lexemes, htokens, htiles⟩ :=
    tiles_readFrom (.start filename (Text.decodeLossy bytes)) #[]
  have hlexeme : lexeme ∈ lexemes := by
    rw [ofBytes, ofText, htokens] at hmem
    exact hmem
  obtain ⟨spelling, rest, hstands⟩ := htiles.exists_stands (List.mem_map_of_mem hlexeme)
  exact hstands.text_ne_empty hkind

end TokenStream

/-- Every text is tiled by its tokens. -/
theorem tiles_tokenize (filename : String) (bytes : ByteArray) :
    Tiles 0 (tokenize filename bytes).1 (Text.decodeLossy bytes) := by
  obtain ⟨lexemes, htokens, htiles⟩ :=
    TokenStream.tiles_readFrom (.start filename (Text.decodeLossy bytes)) #[]
  have hstream : (tokenize filename bytes).1 =
      lexemes.map fun lexeme => ⟨lexeme.position, lexeme.token⟩ := by
    rw [tokenize, TokenStream.ofBytes, TokenStream.ofText, htokens]
    simp
  rw [hstream]
  exact htiles

end DotGraph
