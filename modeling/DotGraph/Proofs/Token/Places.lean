import DotGraph.Proofs.Token.Tiling

namespace DotGraph

/-! Where tokens stand, and what is wrong with them: each place is come to by going over the first
characters of the text, and no two faults are at one place. -/

/-- Going over some of the text leads to the place. -/
def Cursor.Reaches (cursor : Cursor) (position : Position) : Prop :=
  ∃ spelling rest, cursor.Passes spelling ⟨position, rest⟩

namespace Cursor

variable {first second : Cursor} {position : Position} {spelling : List Char}

theorem Passes.reaches (h : first.Passes spelling second) : first.Reaches second.position :=
  ⟨spelling, second.rest, h⟩

theorem Reaches.refl (cursor : Cursor) : cursor.Reaches cursor.position :=
  (Passes.refl cursor).reaches

theorem Reaches.of_passes (k : second.Reaches position) (h : first.Passes spelling second) :
    first.Reaches position := by
  obtain ⟨more, rest, k⟩ := k
  exact ⟨spelling ++ more, rest, h.trans k⟩

theorem Reaches.cons {start : Position} {c : Char} {rest : List Char}
    (h : Reaches ⟨start.after c, rest⟩ position) : Reaches ⟨start, c :: rest⟩ position :=
  h.of_passes (Passes.refl _).cons

theorem Reaches.offset_le (h : first.Reaches position) :
    first.position.offset ≤ position.offset := by
  obtain ⟨_, _, h⟩ := h
  exact h.offset_le

end Cursor

/-- A comment that is never closed opens in the text, if it was not open before. -/
theorem Trivia.reaches_skip (mode : Mode) (position : Position) (text : List Char) :
    ∀ opened ∈ (skip mode position text).2,
      mode = .blockComment opened ∨ Cursor.Reaches ⟨position, text⟩ opened := by
  intro opened hmem
  fun_induction skip mode position text with
  | case1 | case6 | case7 => cases hmem
  | case2 position rest ih =>
      rcases ih hmem with hmode | hreaches
      · cases hmode
      · exact .inr hreaches.cons.cons
  | case3 position rest ih =>
      rcases ih hmem with hmode | hreaches
      · cases hmode
        exact .inr (.refl _)
      · exact .inr hreaches.cons.cons
  | case4 position rest ih | case5 position c rest _ _ _ _ ih | case8 position rest ih
  | case9 position c rest _ ih =>
      rcases ih hmem with hmode | hreaches
      · cases hmode
      · exact .inr hreaches.cons
  | case10 other position =>
      cases hmem
      exact .inl rfl
  | case11 start position rest ih =>
      rcases ih hmem with hmode | hreaches
      · cases hmode
      · exact .inr hreaches.cons.cons
  | case12 start position c rest _ ih => exact (ih hmem).imp_right .cons

namespace Lexeme

theorem fault_ofEnclosed (kind : Token.Kind) (fault : LexFault) (position : Position)
    (enclosed : Enclosed) :
    ∀ noted ∈ (ofEnclosed kind fault position enclosed).1.fault, noted.position = position := by
  unfold ofEnclosed
  cases enclosed.isClosed with
  | true => exact fun _ hmem => nomatch hmem
  | false =>
      intro noted hmem
      obtain rfl := Option.some.inj hmem
      rfl

theorem fault_readAt (position : Position) (c : Char) (rest : List Char) :
    ∀ fault ∈ (readAt position c rest).1.fault, fault.position = position := by
  have hread := readsAt position c rest
  generalize readAt position c rest = result at hread
  cases hread with
  | word | numeral | sign _ => exact fun _ hmem => nomatch hmem
  | quotes _ | brackets _ => exact fault_ofEnclosed _ _ _ _
  | stray =>
      intro fault hmem
      obtain rfl := Option.some.inj hmem
      rfl

/-- What is wrong with a token is noted where the token starts. -/
theorem position_fault_read {cursor : Cursor} (hend : (read cursor).1.isEnd = false) :
    ∀ fault ∈ (read cursor).1.fault, fault.position = (read cursor).1.position := by
  unfold read at *
  split at hend
  rename_i start unclosed hskip
  split at hend
  · simp [isEnd, Token.punctuation] at hend
  · rename_i c rest hrest
    rw [position_readAt]
    exact fault_readAt _ _ _

theorem reaches_read (cursor : Cursor) : cursor.Reaches (read cursor).1.position := by
  obtain ⟨blank, h⟩ := Trivia.skip_passes .between cursor.position cursor.rest
  unfold read
  split
  rename_i start unclosed hskip
  rw [hskip] at h
  split
  · exact h.reaches
  · rw [position_readAt]
    exact h.reaches

theorem reaches_fault {cursor : Cursor} {fault : Located LexFault}
    (h : fault ∈ (read cursor).1.fault) : cursor.Reaches fault.position := by
  have hopened := Trivia.reaches_skip .between cursor.position cursor.rest
  obtain ⟨blank, hblank⟩ := Trivia.skip_passes .between cursor.position cursor.rest
  unfold read at h
  split at h
  rename_i start unclosed hskip
  rw [hskip] at hopened hblank
  split at h
  · obtain ⟨opened, hmem, rfl⟩ := Option.map_eq_some_iff.mp h
    exact (hopened opened hmem).resolve_left (by rintro ⟨⟩)
  · rw [fault_readAt _ _ _ _ h]
    exact hblank.reaches

/-- Where the end of input is read, all of the text has been gone over. -/
theorem read_of_isEnd {cursor : Cursor} (h : (read cursor).1.isEnd) :
    cursor.Passes cursor.rest (read cursor).2 ∧
      (read cursor).2 = ⟨(read cursor).1.position, []⟩ ∧
      (read cursor).1.token = .punctuation .endOfInput := by
  obtain ⟨gap, rest, hgap, hrest, hunclosed | hstops⟩ := Trivia.hasGap cursor.rest
  · obtain ⟨blank, hblank⟩ := Trivia.skip_passes .between cursor.position cursor.rest
    have hskip := Trivia.skip_gap hgap cursor.position rest
    have hend := Trivia.skip_unclosed hunclosed (cursor.position.afterAll gap)
    rw [← hrest] at hskip
    rw [← hskip] at hend
    unfold read
    split
    rename_i start unclosed hstart
    rw [hstart] at hblank hend
    have hnil : start.rest = [] := congrArg Cursor.rest hend
    obtain ⟨position, rest⟩ := start
    obtain rfl : rest = [] := hnil
    have hall : cursor.rest = blank := by rw [hblank.rest_eq, List.append_nil]
    rw [hall]
    exact ⟨hblank, rfl, rfl⟩
  · obtain ⟨_, spelling, hstands, _⟩ := read_of_stops hgap hstops hrest
    exact absurd (by simpa [isEnd] using h) hstands.kind_ne_endOfInput

theorem reaches_readAll (cursor : Cursor) : ∀ lexeme ∈ readAll cursor,
    cursor.Reaches lexeme.position ∧ ∀ fault ∈ lexeme.fault, cursor.Reaches fault.position := by
  have hread : ∀ cursor : Cursor, cursor.Reaches (read cursor).1.position ∧
      ∀ fault ∈ (read cursor).1.fault, cursor.Reaches fault.position :=
    fun cursor => ⟨reaches_read cursor, fun _ hmem => reaches_fault hmem⟩
  induction cursor using readAll.induct with
  | case1 cursor _ h =>
      intro lexeme hmem
      rw [readAll_of_isEnd h, List.mem_singleton] at hmem
      rw [hmem]
      exact hread cursor
  | case2 cursor _ h ih =>
      intro lexeme hmem
      rw [readAll_of_not_isEnd h] at hmem
      cases hmem with
      | head => exact hread cursor
      | tail _ hmem =>
          obtain ⟨_, hpasses⟩ := read_passes cursor
          obtain ⟨hposition, hfault⟩ := ih lexeme hmem
          exact ⟨hposition.of_passes hpasses, fun fault hfound =>
            (hfault fault hfound).of_passes hpasses⟩

/-- Of the faults of a text, each stands behind the one before. -/
theorem fault_pairwise_readAll (cursor : Cursor) :
    ((readAll cursor).filterMap fault).Pairwise fun first second =>
      first.position.offset < second.position.offset := by
  induction cursor using readAll.induct with
  | case1 cursor _ h =>
      rw [readAll_of_isEnd h]
      cases hfault : (read cursor).1.fault <;> simp [hfault]
  | case2 cursor _ h ih =>
      rw [readAll_of_not_isEnd h]
      have hlt := read_offset_lt cursor (by simpa using h)
      cases hfault : (read cursor).1.fault with
      | none =>
          rw [List.filterMap_cons_none hfault]
          exact ih
      | some fault =>
          rw [List.filterMap_cons_some hfault, List.pairwise_cons]
          refine ⟨fun other hmem => ?_, ih⟩
          obtain ⟨lexeme, hlexeme, hother⟩ := List.mem_filterMap.mp hmem
          rw [position_fault_read (by simpa using h) fault hfault]
          exact Nat.lt_of_lt_of_le hlt ((reaches_readAll _ lexeme hlexeme).2 other hother).offset_le

end Lexeme

end DotGraph
