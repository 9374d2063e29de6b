import DotGraph.Token.Trivia

namespace DotGraph.Trivia

/-! What may stand between tokens is gone over whole. -/

/-- What may stand between tokens: blanks, line comments and block comments. -/
inductive Gap : List Char → Prop
  | nil : Gap []
  | blank {c : Char} {rest : List Char} (hblank : isBlank c) : Gap rest → Gap (c :: rest)
  | line {body rest : List Char} (hbody : '\n' ∉ body) :
      Gap rest → Gap ('/' :: '/' :: (body ++ '\n' :: rest))
  | hash {body rest : List Char} (hbody : '\n' ∉ body) :
      Gap rest → Gap ('#' :: (body ++ '\n' :: rest))
  | block {body rest : List Char} (hbody : ¬ ['*', '/'] <:+: body) :
      Gap rest → Gap ('/' :: '*' :: (body ++ '*' :: '/' :: rest))

/-- What may stand behind the last token and its gap: a comment that goes on to the end of the text,
or nothing. -/
inductive Unclosed : List Char → Prop
  | nil : Unclosed []
  | line {body : List Char} (hbody : '\n' ∉ body) : Unclosed ('/' :: '/' :: body)
  | hash {body : List Char} (hbody : '\n' ∉ body) : Unclosed ('#' :: body)
  | block {body : List Char} (hbody : ¬ ['*', '/'] <:+: body) : Unclosed ('/' :: '*' :: body)

def startsGap (c : Char) : Bool :=
  isBlank c || c = '/' || c = '#'

/-- No token can go on into a text that starts a gap, or into none. -/
def Delimits (text : List Char) : Prop :=
  ∀ c ∈ text.head?, startsGap c

theorem Gap.delimits {gap : List Char} (h : Gap gap) : Delimits gap := by
  intro c hc
  cases h with
  | nil => exact absurd hc (by simp)
  | blank hblank _ =>
      cases hc
      simp [startsGap, hblank]
  | line _ _ => cases hc; decide
  | hash _ _ => cases hc; decide
  | block _ _ => cases hc; decide

theorem Delimits.append {gap : List Char} (h : Delimits gap) (hne : gap ≠ []) (text : List Char) :
    Delimits (gap ++ text) := by
  cases gap with
  | nil => exact absurd rfl hne
  | cons c gap => exact h

theorem skip_slashes (position : Position) (rest : List Char) :
    skip .between position ('/' :: '/' :: rest) =
      skip .lineComment ((position.after '/').after '/') rest :=
  rfl

theorem skip_slashStar (position : Position) (rest : List Char) :
    skip .between position ('/' :: '*' :: rest) =
      skip (.blockComment position) ((position.after '/').after '*') rest :=
  rfl

theorem skip_hash (position : Position) (rest : List Char) :
    skip .between position ('#' :: rest) = skip .lineComment (position.after '#') rest :=
  rfl

theorem skip_blank {c : Char} (h : isBlank c) (position : Position) (rest : List Char) :
    skip .between position (c :: rest) = skip .between (position.after c) rest := by
  simp only [isBlank, Bool.or_eq_true, decide_eq_true_eq] at h
  rcases h with ((rfl | rfl) | rfl) | rfl <;> rfl

theorem skip_stop {c : Char} {rest : List Char} (hblank : isBlank c = false) (hhash : c ≠ '#')
    (hslash : ∀ tail, c = '/' → rest ≠ '/' :: tail) (hstar : ∀ tail, c = '/' → rest ≠ '*' :: tail)
    (position : Position) :
    skip .between position (c :: rest) = (⟨position, c :: rest⟩, none) := by
  rw [skip, hblank]
  · rfl
  · exact hslash
  · exact hstar
  · exact hhash

theorem skip_inLine {c : Char} (h : c ≠ '\n') (position : Position) (rest : List Char) :
    skip .lineComment position (c :: rest) = skip .lineComment (position.after c) rest :=
  if_neg h

theorem skip_inBlock {c : Char} {rest : List Char} (h : ∀ tail, c = '*' → rest ≠ '/' :: tail)
    (opened position : Position) :
    skip (.blockComment opened) position (c :: rest) =
      skip (.blockComment opened) (position.after c) rest := by
  rw [skip]
  exact h

theorem skip_lineComment {body : List Char} (hbody : '\n' ∉ body) (position : Position)
    (rest : List Char) :
    skip .lineComment position (body ++ '\n' :: rest) =
      skip .between (position.afterAll (body ++ ['\n'])) rest := by
  induction body generalizing position with
  | nil => rfl
  | cons c body ih =>
      have hc : c ≠ '\n' := fun h => hbody (h ▸ List.mem_cons_self)
      have htail : '\n' ∉ body := fun h => hbody (List.mem_cons_of_mem _ h)
      rw [List.cons_append, skip_inLine hc, ih htail]
      rfl

theorem skip_blockComment {body : List Char} (hbody : ¬ ['*', '/'] <:+: body)
    (opened position : Position) (rest : List Char) :
    skip (.blockComment opened) position (body ++ '*' :: '/' :: rest) =
      skip .between (position.afterAll (body ++ ['*', '/'])) rest := by
  induction body generalizing position with
  | nil => rfl
  | cons c body ih =>
      have htail : ¬ ['*', '/'] <:+: body := fun h => hbody (h.trans (List.suffix_cons c body).isInfix)
      rw [List.cons_append, skip_inBlock, ih htail]
      · rfl
      · -- the comment does not end here, since the next character is no slash
        intro tail hc heq
        cases body with
        | nil => exact absurd heq (by simp)
        | cons d body =>
            obtain ⟨rfl, _⟩ := List.cons.inj heq
            exact hbody ⟨[], body, by simp [hc]⟩

theorem skip_gap {gap : List Char} (h : Gap gap) (position : Position) (rest : List Char) :
    skip .between position (gap ++ rest) = skip .between (position.afterAll gap) rest := by
  induction h generalizing position with
  | nil => rfl
  | @blank c gap hblank _ ih =>
      rw [List.cons_append, skip_blank hblank, ih]
      rfl
  | @line body gap hbody _ ih =>
      have happend : '/' :: '/' :: (body ++ '\n' :: gap) ++ rest =
          '/' :: '/' :: (body ++ '\n' :: (gap ++ rest)) := by simp
      rw [happend, skip_slashes, skip_lineComment hbody, ih]
      simp [Position.afterAll_append]
  | @hash body gap hbody _ ih =>
      have happend : '#' :: (body ++ '\n' :: gap) ++ rest =
          '#' :: (body ++ '\n' :: (gap ++ rest)) := by simp
      rw [happend, skip_hash, skip_lineComment hbody, ih]
      simp [Position.afterAll_append]
  | @block body gap hbody _ ih =>
      have happend : '/' :: '*' :: (body ++ '*' :: '/' :: gap) ++ rest =
          '/' :: '*' :: (body ++ '*' :: '/' :: (gap ++ rest)) := by simp
      rw [happend, skip_slashStar, skip_blockComment hbody, ih]
      simp [Position.afterAll_append]

theorem skip_of_not_startsGap {c : Char} (h : startsGap c = false) (position : Position)
    (rest : List Char) :
    skip .between position (c :: rest) = (⟨position, c :: rest⟩, none) := by
  simp only [startsGap, Bool.or_eq_false_iff, decide_eq_false_iff_not] at h
  obtain ⟨⟨hblank, hslash⟩, hhash⟩ := h
  exact skip_stop hblank hhash (fun _ hc _ => hslash hc) (fun _ hc _ => hslash hc) position

theorem skip_openLine {body : List Char} (hbody : '\n' ∉ body) (position : Position) :
    skip .lineComment position body = (⟨position.afterAll body, []⟩, none) := by
  induction body generalizing position with
  | nil => rfl
  | cons c body ih =>
      have hc : c ≠ '\n' := fun h => hbody (h ▸ List.mem_cons_self)
      rw [skip_inLine hc, ih fun h => hbody (List.mem_cons_of_mem _ h)]
      rfl

theorem skip_openBlock {body : List Char} (hbody : ¬ ['*', '/'] <:+: body)
    (opened position : Position) :
    skip (.blockComment opened) position body = (⟨position.afterAll body, []⟩, some opened) := by
  induction body generalizing position with
  | nil => rfl
  | cons c body ih =>
      rw [skip_inBlock, ih fun h => hbody (h.trans (List.suffix_cons c body).isInfix)]
      · rfl
      · rintro tail rfl rfl
        exact hbody ⟨[], tail, rfl⟩

theorem skip_unclosed {comment : List Char} (h : Unclosed comment) (position : Position) :
    (skip .between position comment).1 = ⟨position.afterAll comment, []⟩ := by
  cases h with
  | nil => rfl
  | line hbody => rw [skip_slashes, skip_openLine hbody]; rfl
  | hash hbody => rw [skip_hash, skip_openLine hbody]; rfl
  | block hbody => rw [skip_slashStar, skip_openBlock hbody]; rfl

/-- No gap starts at the text, and it is not at its end. -/
def Stops (text : List Char) : Prop :=
  text ≠ [] ∧ ∀ position, skip .between position text = (⟨position, text⟩, none)

theorem Stops.gap_eq_nil {gap rest : List Char} (h : Stops (gap ++ rest)) (hgap : Gap gap) :
    gap = [] := by
  have hskip := h.2 default
  rw [skip_gap hgap] at hskip
  have hle := skip_unread_le .between (Position.afterAll default gap) rest
  rw [hskip, Cursor.unread, List.length_append] at hle
  exact List.length_eq_zero_iff.mp (by omega)

theorem Stops.not_unclosed {text : List Char} (h : Stops text) : ¬ Unclosed text := by
  intro hunclosed
  have hskip := skip_unclosed hunclosed default
  rw [h.2] at hskip
  exact h.1 (congrArg Cursor.rest hskip)

theorem eq_append_of_isInfix_end {text : List Char} (h : ['*', '/'] <:+: text) :
    ∃ body rest, text = body ++ '*' :: '/' :: rest ∧ ¬ ['*', '/'] <:+: body := by
  induction text with
  | nil => exact absurd h (by decide)
  | cons c text ih =>
      rw [List.infix_cons_iff] at h
      rcases h with ⟨rest, hrest⟩ | h
      · exact ⟨[], rest, hrest.symm, by decide⟩
      · obtain ⟨body, rest, rfl, hbody⟩ := ih h
        by_cases hc : ['*', '/'] <+: c :: body
        · obtain ⟨rest', hrest'⟩ := hc
          refine ⟨[], rest' ++ '*' :: '/' :: rest, ?_, by decide⟩
          rw [← List.cons_append, ← hrest']
          simp
        · refine ⟨c :: body, rest, rfl, ?_⟩
          rw [List.infix_cons_iff]
          exact not_or_intro hc hbody

/-- A text starts with a gap, and behind it there is no more than an unclosed comment, or no gap
goes on. -/
def HasGap (text : List Char) : Prop :=
  ∃ gap rest, Gap gap ∧ text = gap ++ rest ∧ (Unclosed rest ∨ Stops rest)

theorem HasGap.prepend {rest : List Char} (h : HasGap rest) (front : List Char)
    (hfront : ∀ gap, Gap gap → Gap (front ++ gap)) : HasGap (front ++ rest) := by
  obtain ⟨gap, back, hgap, rfl, hback⟩ := h
  exact ⟨front ++ gap, back, hfront gap hgap, (List.append_assoc ..).symm, hback⟩

theorem Unclosed.hasGap {text : List Char} (h : Unclosed text) : HasGap text :=
  ⟨[], text, .nil, rfl, .inl h⟩

theorem Stops.hasGap {text : List Char} (h : Stops text) : HasGap text :=
  ⟨[], text, .nil, rfl, .inr h⟩

theorem stops_of_not_startsGap {c : Char} (h : startsGap c = false) (rest : List Char) :
    Stops (c :: rest) :=
  ⟨List.cons_ne_nil _ _, fun position => skip_of_not_startsGap h position rest⟩

/-- A slash alone opens no comment. -/
theorem stops_slash {rest : List Char} (hslash : rest.head? ≠ some '/')
    (hstar : rest.head? ≠ some '*') : Stops ('/' :: rest) := by
  refine ⟨List.cons_ne_nil _ _, skip_stop (by decide) (by decide) ?_ ?_⟩
  · rintro tail - rfl
    exact hslash rfl
  · rintro tail - rfl
    exact hstar rfl

/-- A comment ends with the first newline, or it is not closed. -/
theorem hasGap_lineComment (opening : List Char) {rest : List Char}
    (hgap : ∀ {body gap}, '\n' ∉ body → Gap gap → Gap (opening ++ (body ++ '\n' :: gap)))
    (hunclosed : ∀ {body}, '\n' ∉ body → Unclosed (opening ++ body))
    (ih : ∀ tail, tail.length < rest.length → HasGap tail) : HasGap (opening ++ rest) := by
  by_cases hnewline : '\n' ∈ rest
  · obtain ⟨body, tail, rfl, hbody⟩ := List.eq_append_cons_of_mem hnewline
    have htail := (ih tail (by simp; omega)).prepend (opening ++ (body ++ ['\n']))
      fun gap hrest => by simpa using hgap hbody hrest
    simpa using htail
  · exact (hunclosed hnewline).hasGap

theorem hasGap_blockComment {rest : List Char}
    (ih : ∀ tail, tail.length < rest.length → HasGap tail) : HasGap ('/' :: '*' :: rest) := by
  by_cases hend : ['*', '/'] <:+: rest
  · obtain ⟨body, tail, rfl, hbody⟩ := eq_append_of_isInfix_end hend
    have htail := (ih tail (by simp; omega)).prepend ('/' :: '*' :: (body ++ ['*', '/']))
      fun gap hgap => by simpa using Gap.block hbody hgap
    simpa using htail
  · exact (Unclosed.block hend).hasGap

theorem hasGap (text : List Char) : HasGap text := by
  cases text with
  | nil => exact Unclosed.nil.hasGap
  | cons c rest =>
      by_cases hblank : isBlank c
      · exact (hasGap rest).prepend [c] fun _ => .blank hblank
      by_cases hhash : c = '#'
      · subst hhash
        exact hasGap_lineComment ['#'] .hash .hash fun tail _ => hasGap tail
      by_cases hslash : c = '/'
      · subst hslash
        by_cases hline : rest.head? = some '/'
        · obtain ⟨rest, rfl⟩ := List.head?_eq_some_iff.mp hline
          exact hasGap_lineComment ['/', '/'] .line .line fun tail _ => hasGap tail
        by_cases hblock : rest.head? = some '*'
        · obtain ⟨rest, rfl⟩ := List.head?_eq_some_iff.mp hblock
          exact hasGap_blockComment fun tail _ => hasGap tail
        · exact (stops_slash hline hblock).hasGap
      · exact (stops_of_not_startsGap (by simp [startsGap, hblank, hhash, hslash]) rest).hasGap
termination_by text.length
decreasing_by all_goals simp_all <;> omega

end DotGraph.Trivia
