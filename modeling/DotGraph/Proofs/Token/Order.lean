import DotGraph.Token.Stream

namespace DotGraph

/-! Tokens stand one behind the other in their text. -/

namespace Position

theorem offset_lt_after (position : Position) (c : Char) :
    position.offset < (position.after c).offset := by
  unfold after
  split <;> exact Nat.lt_add_of_pos_right c.utf8Size_pos

theorem offset_le_afterAll (position : Position) (text : List Char) :
    position.offset ≤ (position.afterAll text).offset := by
  induction text generalizing position with
  | nil => exact Nat.le_refl _
  | cons c text ih =>
      exact Nat.le_trans (Nat.le_of_lt (offset_lt_after position c)) (ih _)

theorem offset_lt_afterAll (position : Position) {text : List Char} (h : text ≠ []) :
    position.offset < (position.afterAll text).offset := by
  cases text with
  | nil => exact absurd rfl h
  | cons c text =>
      exact Nat.lt_of_lt_of_le (offset_lt_after position c) (offset_le_afterAll _ text)

end Position

theorem Cursor.Passes.offset_le {source target : Cursor} {spelling : List Char}
    (h : source.Passes spelling target) : source.position.offset ≤ target.position.offset := by
  rw [h.position_eq]
  exact source.position.offset_le_afterAll spelling

theorem Cursor.Passes.offset_lt {source target : Cursor} {spelling : List Char}
    (h : source.Passes spelling target) (hspelling : spelling ≠ []) :
    source.position.offset < target.position.offset := by
  rw [h.position_eq]
  exact source.position.offset_lt_afterAll hspelling

namespace Lexeme

def offset (lexeme : Lexeme) : Nat :=
  lexeme.position.offset

theorem position_readAt (position : Position) (c : Char) (rest : List Char) :
    (readAt position c rest).1.position = position := by
  unfold readAt
  split
  · rfl
  split
  · rfl
  split
  · rfl
  split
  · rfl
  split <;> rfl

theorem offset_le_read (cursor : Cursor) : cursor.position.offset ≤ (read cursor).1.offset := by
  obtain ⟨blank, h⟩ := Trivia.skip_passes .between cursor.position cursor.rest
  unfold read offset
  split
  rename_i start unclosed hskip
  rw [hskip] at h
  split
  · exact h.offset_le
  · rw [position_readAt]
    exact h.offset_le

theorem read_offset_lt (cursor : Cursor) (h : (read cursor).1.isEnd = false) :
    (read cursor).1.offset < (read cursor).2.position.offset := by
  unfold read offset at *
  split at h
  rename_i start unclosed hskip
  split at h
  · simp [isEnd, Token.punctuation] at h
  · rename_i c rest hrest
    obtain ⟨spelling, hspelling, k⟩ := readAt_passes start.position c rest
    rw [position_readAt]
    exact k.offset_lt hspelling

/-- The tokens from a place on, the end of input as the last one. -/
def readAll (cursor : Cursor) : List Lexeme :=
  let next := read cursor
  if _h : next.1.isEnd then [next.1] else next.1 :: readAll next.2
termination_by cursor.unread
decreasing_by exact read_unread_lt cursor (by simpa using _h)

theorem readAll_of_isEnd {cursor : Cursor} (h : (read cursor).1.isEnd) :
    readAll cursor = [(read cursor).1] := by
  rw [readAll, dif_pos h]

theorem readAll_of_not_isEnd {cursor : Cursor} (h : ¬ (read cursor).1.isEnd) :
    readAll cursor = (read cursor).1 :: readAll (read cursor).2 := by
  rw [readAll, dif_neg h]

theorem offset_le_of_mem_readAll (cursor : Cursor) :
    ∀ lexeme ∈ readAll cursor, cursor.position.offset ≤ lexeme.offset := by
  induction cursor using readAll.induct with
  | case1 cursor _ h =>
      intro lexeme hmem
      rw [readAll_of_isEnd h, List.mem_singleton] at hmem
      rw [hmem]
      exact offset_le_read cursor
  | case2 cursor _ h ih =>
      intro lexeme hmem
      rw [readAll_of_not_isEnd h] at hmem
      cases hmem with
      | head => exact offset_le_read cursor
      | tail _ hmem =>
          have hstart := Nat.le_trans (offset_le_read cursor)
            (Nat.le_of_lt (read_offset_lt cursor (by simpa using h)))
          exact Nat.le_trans hstart (ih lexeme hmem)

theorem offset_pairwise_readAll (cursor : Cursor) :
    ((readAll cursor).map offset).Pairwise (· < ·) := by
  induction cursor using readAll.induct with
  | case1 cursor _ h =>
      rw [readAll_of_isEnd h]
      exact List.pairwise_singleton _ _
  | case2 cursor _ h ih =>
      rw [readAll_of_not_isEnd h, List.map_cons, List.pairwise_cons]
      refine ⟨?_, ih⟩
      intro offset hmem
      obtain ⟨lexeme, hlexeme, rfl⟩ := List.mem_map.mp hmem
      exact Nat.lt_of_lt_of_le (read_offset_lt cursor (by simpa using h))
        (offset_le_of_mem_readAll _ lexeme hlexeme)

end Lexeme

namespace TokenStream

theorem lexemes_readFrom (cursor : Cursor) (before : Array Lexeme) :
    (readFrom cursor before).lexemes = before.toList ++ Lexeme.readAll cursor := by
  induction cursor, before using readFrom.induct with
  | case1 cursor before read h =>
      rw [readFrom, dif_pos h, Lexeme.readAll_of_isEnd h]
      rfl
  | case2 cursor before read h ih =>
      rw [readFrom, dif_neg h, ih, Lexeme.readAll_of_not_isEnd h]
      simp [read]

theorem lexemes_ofText (filename : String) (text : List Char) :
    (ofText filename text).lexemes = Lexeme.readAll (.start filename text) := by
  rw [ofText, lexemes_readFrom]
  rfl

theorem offset_pairwise (filename : String) (text : List Char) :
    ((ofText filename text).lexemes.map Lexeme.offset).Pairwise (· < ·) := by
  rw [lexemes_ofText]
  exact Lexeme.offset_pairwise_readAll _

theorem position_nodup (filename : String) (text : List Char) :
    ((ofText filename text).lexemes.map Lexeme.position).Nodup := by
  have h := offset_pairwise filename text
  rw [List.pairwise_map] at h
  refine List.pairwise_map.mpr (h.imp ?_)
  intro first second hlt heq
  unfold Lexeme.offset at hlt
  rw [heq] at hlt
  exact Nat.lt_irrefl _ hlt

end TokenStream

theorem offset_pairwise_tokenize (filename : String) (bytes : ByteArray) :
    ((tokenize filename bytes).1.map (·.position.offset)).Pairwise (· < ·) := by
  have hpairwise := TokenStream.offset_pairwise filename (Text.decodeLossy bytes)
  rw [TokenStream.lexemes, List.map_append, List.pairwise_append] at hpairwise
  rw [tokenize, List.map_map]
  exact hpairwise.1

theorem offset_lt_finish {filename : String} {bytes : ByteArray} {token : Located Token}
    (hmem : token ∈ (tokenize filename bytes).1) :
    token.position.offset < (TokenStream.ofBytes filename bytes).finish.position.offset := by
  have hsorted := TokenStream.offset_pairwise filename (Text.decodeLossy bytes)
  rw [TokenStream.lexemes, List.map_append, List.pairwise_append] at hsorted
  obtain ⟨lexeme, hlexeme, rfl⟩ := List.mem_map.mp hmem
  exact hsorted.2.2 _ (List.mem_map_of_mem hlexeme) _ List.mem_cons_self

end DotGraph
