import DotGraph.Proofs.Token.Tiling

namespace DotGraph.Lexeme

/-! What stands in front of a text is what is read there: no text can be taken for two tokens. -/

open Token (Quotes EndsQuotes Spelled IsStray Stands)

theorem readQuoted_of_quotes {text body ending rest : List Char} (hbody : Quotes text body)
    (hending : EndsQuotes ending rest) (before : List Char) (position : Position) :
    readQuoted before position (body ++ (ending ++ rest)) =
      ⟨before.reverse ++ text, ending = ['"'],
        ⟨position.afterAll (body ++ ending), rest⟩⟩ := by
  induction hbody generalizing before position with
  | nil => cases hending <;> simp [readQuoted]
  | @plain c text body hquote hslash hnewline _ ih =>
      rw [List.cons_append, readQuoted, ih]
      · simp
      · exact hquote
      · exact hnewline
      · exact fun hc => absurd hc hslash
      · exact fun _ _ hc => absurd hc hslash
  | escape c _ ih =>
      rw [List.cons_append, List.cons_append, readQuoted, ih]
      simp

/-- Brackets that are never closed are read to the end of the text. -/
theorem readHtml_open {depth : Nat} {text : List Char}
    (h : ∀ front, front ++ ['>'] <+: text → isBalanced depth front = false)
    (before : List Char) (position : Position) :
    readHtml depth before position text =
      ⟨before.reverse ++ text, false, ⟨position.afterAll text, []⟩⟩ := by
  induction text generalizing depth before position with
  | nil => simp [readHtml]
  | cons c text ih =>
      have hinner (inner : Nat)
          (hsame : ∀ front, isBalanced depth (c :: front) = isBalanced inner front) :
          readHtml inner (c :: before) (position.after c) text =
            ⟨before.reverse ++ c :: text, false, ⟨position.afterAll (c :: text), []⟩⟩ := by
        have htext : ∀ front, front ++ ['>'] <+: text → isBalanced inner front = false :=
          fun front hfront => hsame front ▸ h (c :: front) (List.cons_prefix_cons.mpr ⟨rfl, hfront⟩)
        rw [ih htext]
        simp
      unfold readHtml
      by_cases hopen : c = '<'
      · rw [if_pos hopen]
        exact hinner (depth + 1) fun front => by simp [isBalanced, hopen]
      by_cases hclose : c = '>'
      · rw [if_neg hopen, if_pos hclose]
        cases depth with
        | zero =>
            have hfirst : [] ++ ['>'] <+: c :: text := ⟨text, by rw [hclose]; rfl⟩
            exact absurd (h [] hfirst) (by decide)
        | succ depth =>
            exact hinner depth fun front => by simp [isBalanced, hclose]
      · rw [if_neg hopen, if_neg hclose]
        exact hinner depth fun front => by simp [isBalanced, hopen, hclose]

theorem ofWord_of_name {word : List Char} {kind : Token.Kind} (hkind : kind ∈ Token.Kind.keywords)
    (hname : word.map Char.toLower = kind.name.toList) : Token.Kind.ofWord word = kind := by
  have hinjective : ∀ first ∈ Token.Kind.keywords, ∀ second ∈ Token.Kind.keywords,
      first.name.toList = second.name.toList → first = second := by decide
  rcases ofWord_cases word with ⟨hmem, hfound⟩ | ⟨_, hnone⟩
  · exact hinjective _ hmem kind hkind (hfound.symm.trans hname)
  · exact absurd hname (hnone kind hkind)

theorem ofWord_of_no_name {word : List Char}
    (hname : ∀ kind ∈ Token.Kind.keywords, word.map Char.toLower ≠ kind.name.toList) :
    Token.Kind.ofWord word = .ident := by
  rcases ofWord_cases word with ⟨hmem, hfound⟩ | ⟨hident, _⟩
  · exact absurd hfound (hname _ hmem)
  · exact hident

/-- A numeral that no longer one starts with is read whole. -/
theorem numeral_eq_of_longest {c : Char} {text rest : List Char} (h : isNumeral (c :: text))
    (hrest : ∀ more, more ≠ [] → more <+: rest → isNumeral (c :: text ++ more) = false) :
    numeral (c :: text ++ rest) = c :: text := by
  obtain ⟨more, hmore⟩ := isPrefix_numeral h (List.prefix_append (c :: text) rest)
  have hall := numeral_append_drop (c :: text ++ rest)
  rw [← hmore, List.append_assoc] at hall
  have hnumeral : isNumeral (c :: text ++ more) := by
    rw [hmore]
    exact isNumeral_numeral (startsNumeral_of_isNumeral h rest).2
  by_cases hnil : more = []
  · rw [← hmore, hnil, List.append_nil]
  · have hprefix : more <+: rest := ⟨_, List.append_cancel_left hall⟩
    exact nomatch (hrest more hnil hprefix).symm.trans hnumeral

theorem readAt_of_sign {kind : Token.Kind} (hkind : kind ∈ Token.Kind.signs) (position : Position)
    (rest : List Char) :
    ∃ c text, kind.name.toList = c :: text ∧
      readAt position c (text ++ rest) =
        (⟨position, .punctuation kind, none⟩, ⟨position.afterAll (c :: text), rest⟩) := by
  simp only [Token.Kind.signs, List.mem_cons, List.not_mem_nil, or_false] at hkind
  rcases hkind with rfl | rfl | rfl | rfl | rfl | rfl | rfl | rfl | rfl | rfl <;>
    exact ⟨_, _, rfl, rfl⟩

/-- What is spelled is what is read. -/
theorem readAt_of_spelled {token : Token} {spelling rest : List Char}
    (h : Spelled token spelling rest) (position : Position) :
    ∃ c text, spelling = c :: text ∧ (readAt position c (text ++ rest)).1.token = token ∧
      (readAt position c (text ++ rest)).2 = ⟨position.afterAll spelling, rest⟩ := by
  have hnil : isWord [] = false ∧ isNumeral [] = false := by decide
  have hcons {c : Char} {text : List Char} (hword : isWord (c :: text)) :
      isLetter c ∧ text.all isWordChar := Bool.and_eq_true_iff.mp hword
  cases h with
  | keyword hkind hword hname hrest =>
      cases spelling with
      | nil => exact nomatch hnil.1.symm.trans hword
      | cons c text =>
          have hread := readAt_word (hcons hword).1 (hcons hword).2 hrest position
          rw [ofWord_of_name hkind hname] at hread
          exact ⟨c, text, rfl, by rw [hread], by rw [hread]⟩
  | word hword hname hrest =>
      cases spelling with
      | nil => exact nomatch hnil.1.symm.trans hword
      | cons c text =>
          have hread := readAt_word (hcons hword).1 (hcons hword).2 hrest position
          rw [ofWord_of_no_name hname] at hread
          exact ⟨c, text, rfl, by rw [hread], by rw [hread]⟩
  | numeral hdigits hrest =>
      cases spelling with
      | nil => exact nomatch hnil.2.symm.trans hdigits
      | cons c text =>
          have hread := readAt_numeral hdigits (numeral_eq_of_longest hdigits hrest) position
          exact ⟨c, text, rfl, by rw [hread], by rw [hread]⟩
  | @quoted _ body ending _ hbody hending =>
      have hread : readAt position '"' (body ++ ending ++ rest) =
          ofEnclosed .quoted .unterminatedString position
            (readQuoted [] (position.after '"') (body ++ ending ++ rest)) := rfl
      rw [List.append_assoc, readQuoted_of_quotes hbody hending] at hread
      exact ⟨'"', body ++ ending, rfl, by rw [List.append_assoc, hread]; rfl,
        by rw [List.append_assoc, hread]; rfl⟩
  | @html text _ htext =>
      have hread : readAt position '<' (text ++ '>' :: rest) =
          ofEnclosed .html .unterminatedHtml position
            (readHtml 0 [] (position.after '<') (text ++ '>' :: rest)) := rfl
      rw [readHtml_balanced htext] at hread
      refine ⟨'<', text ++ ['>'], rfl, ?_⟩
      rw [List.append_assoc, List.singleton_append, hread]
      exact ⟨rfl, rfl⟩
  | @openHtml text htext =>
      have hread : readAt position '<' text =
          ofEnclosed .html .unterminatedHtml position
            (readHtml 0 [] (position.after '<') text) := rfl
      rw [readHtml_open htext] at hread
      refine ⟨'<', text, rfl, ?_⟩
      rw [List.append_nil, hread]
      exact ⟨rfl, rfl⟩
  | sign hkind =>
      obtain ⟨c, text, hname, hread⟩ := readAt_of_sign hkind position rest
      exact ⟨c, text, hname, by rw [hread], by rw [hread, hname]⟩

theorem kind_ne_illegal {kind : Token.Kind}
    (h : kind ∈ Token.Kind.keywords ∨ kind ∈ Token.Kind.signs) : kind ≠ .illegal := by
  have hnone : .illegal ∉ Token.Kind.keywords ∧ .illegal ∉ Token.Kind.signs := by decide
  rintro rfl
  exact h.elim hnone.1 hnone.2

/-- A character at which no token starts is read alone, and that is noted. -/
theorem readAt_of_illegal {position : Position} {c : Char} {rest : List Char}
    (h : (readAt position c rest).1.token.kind = .illegal) :
    readAt position c rest =
      (⟨position, ⟨.illegal, String.singleton c⟩, some ⟨position, .unexpected c⟩⟩,
        ⟨position.after c, rest⟩) := by
  have hread := readsAt position c rest
  generalize readAt position c rest = result at hread h ⊢
  cases hread with
  | @word word _ =>
      rcases ofWord_cases word with ⟨hmem, _⟩ | ⟨hident, _⟩
      · exact absurd h (kind_ne_illegal (.inl hmem))
      · exact nomatch hident.symm.trans h
  | numeral | quotes _ | brackets _ => nomatch h
  | sign hkind => exact absurd h (kind_ne_illegal (.inr hkind))
  | stray => rfl

/-- A token that is read, and stands at its place, reaches as far as it is read. -/
theorem rest_readAt_of_stands {position : Position} {c : Char} {tail spelling rest : List Char}
    (h : Stands (readAt position c tail).1.token spelling rest)
    (htail : c :: tail = spelling ++ rest) : (readAt position c tail).2.rest = rest := by
  generalize htoken : (readAt position c tail).1.token = token at h
  cases h with
  | token hspelled =>
      obtain ⟨d, text, rfl, -, hnext⟩ := readAt_of_spelled hspelled position
      obtain ⟨rfl, rfl⟩ := List.cons.inj htail
      exact congrArg Cursor.rest hnext
  | stray _ =>
      obtain ⟨rfl, rfl⟩ := List.cons.inj htail
      rw [readAt_of_illegal (congrArg Token.kind htoken)]

end DotGraph.Lexeme
