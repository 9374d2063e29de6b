import DotGraph.Proofs.Token.Spelling
import Mathlib.Tactic.SplitIfs

namespace DotGraph

/-! Every character that stands in no gap belongs to a token.  A token takes as many characters as it
can, and a character at which none starts is a token of its own. -/

namespace Token.Kind

def signs : List Token.Kind :=
  [lBrace, rBrace, lBracket, rBracket, semicolon, colon, comma, equal, arrow, dashDash]

end Token.Kind

namespace Token

/-- Quotes hold `body`, and it is read as `text`. -/
inductive Quotes : (text body : List Char) → Prop
  | nil : Quotes [] []
  | plain {c : Char} {text body : List Char} (hquote : c ≠ '"') (hslash : c ≠ '\\')
      (hnewline : c ≠ '\n') : Quotes text body → Quotes (c :: text) (c :: body)
  | escape (c : Char) {text body : List Char} :
      Quotes text body → Quotes (Lexeme.unescape c :: text) ('\\' :: c :: body)

/-- Quotes end with `ending` in front of `rest`.  They end without a quote in front of a newline and
at the end of the text, where there may be a backslash with nothing to escape. -/
inductive EndsQuotes : (ending rest : List Char) → Prop
  | closed (rest : List Char) : EndsQuotes ['"'] rest
  | newline (rest : List Char) : EndsQuotes [] ('\n' :: rest)
  | endOfText : EndsQuotes [] []
  | backslash : EndsQuotes ['\\'] []

/-- A token is written as `spelling` in front of `rest`. -/
inductive Spelled : Token → (spelling rest : List Char) → Prop
  | keyword {kind : Kind} {word rest : List Char} (hkind : kind ∈ Kind.keywords)
      (hword : Lexeme.isWord word) (hname : word.map Char.toLower = kind.name.toList)
      (hrest : ∀ c ∈ rest.head?, Lexeme.isWordChar c = false) :
      Spelled ⟨kind, String.ofList word⟩ word rest
  | word {word rest : List Char} (hword : Lexeme.isWord word)
      (hname : ∀ kind ∈ Kind.keywords, word.map Char.toLower ≠ kind.name.toList)
      (hrest : ∀ c ∈ rest.head?, Lexeme.isWordChar c = false) :
      Spelled ⟨.ident, String.ofList word⟩ word rest
  | numeral {digits rest : List Char} (hdigits : Lexeme.isNumeral digits)
      (hrest : ∀ more, more ≠ [] → more <+: rest → Lexeme.isNumeral (digits ++ more) = false) :
      Spelled ⟨.ident, String.ofList digits⟩ digits rest
  | quoted {text body ending rest : List Char} (hbody : Quotes text body)
      (hending : EndsQuotes ending rest) :
      Spelled ⟨.quoted, String.ofList text⟩ ('"' :: (body ++ ending)) rest
  | html {text rest : List Char} (htext : Lexeme.isBalanced 0 text) :
      Spelled ⟨.html, String.ofList text⟩ ('<' :: (text ++ ['>'])) rest
  | openHtml {text : List Char}
      (htext : ∀ front, front ++ ['>'] <+: text → Lexeme.isBalanced 0 front = false) :
      Spelled ⟨.html, String.ofList text⟩ ('<' :: text) []
  | sign {kind : Kind} {rest : List Char} (hkind : kind ∈ Kind.signs) :
      Spelled (.punctuation kind) kind.name.toList rest

/-- No gap and no token starts at the first character of a text. -/
structure IsStray (text : List Char) : Prop where
  gap : ∀ gap rest, text = gap ++ rest → Trivia.Gap gap → gap = []
  unclosed : ¬ Trivia.Unclosed text
  token : ∀ token spelling rest, text = spelling ++ rest → ¬ Spelled token spelling rest

/-- A token, or else a stray character, is written as `spelling` in front of `rest`. -/
inductive Stands : Token → (spelling rest : List Char) → Prop
  | token {token : Token} {spelling rest : List Char} (h : Spelled token spelling rest) :
      Stands token spelling rest
  | stray {c : Char} {rest : List Char} (h : IsStray (c :: rest)) :
      Stands ⟨.illegal, String.singleton c⟩ [c] rest

end Token

namespace Lexeme

open Token (Quotes EndsQuotes Spelled IsStray Stands)

theorem ofWord_cases (word : List Char) :
    (Token.Kind.ofWord word ∈ Token.Kind.keywords ∧
        word.map Char.toLower = (Token.Kind.ofWord word).name.toList) ∨
      (Token.Kind.ofWord word = .ident ∧
        ∀ kind ∈ Token.Kind.keywords, word.map Char.toLower ≠ kind.name.toList) := by
  unfold Token.Kind.ofWord
  cases hfind : Token.Kind.keywords.find? fun keyword =>
      keyword.name.toList == word.map Char.toLower with
  | some kind =>
      have hname := List.find?_some hfind
      exact .inl ⟨List.mem_of_find?_eq_some hfind, (eq_of_beq hname).symm⟩
  | none =>
      refine .inr ⟨rfl, ?_⟩
      intro kind hkind heq
      exact List.find?_eq_none.mp hfind kind hkind (beq_iff_eq.mpr heq.symm)

theorem spelled_word {c : Char} {rest : List Char} (hc : isLetter c) :
    Spelled
      ⟨.ofWord ((c :: rest).takeWhile isWordChar), String.ofList ((c :: rest).takeWhile isWordChar)⟩
      ((c :: rest).takeWhile isWordChar) ((c :: rest).dropWhile isWordChar) := by
  have hword : isWord ((c :: rest).takeWhile isWordChar) := by
    have hc' : isWordChar c := by simp [isWordChar, hc]
    rw [List.takeWhile_cons_of_pos hc']
    simp [isWord, hc]
  have hstop : ∀ d ∈ ((c :: rest).dropWhile isWordChar).head?, isWordChar d = false := by
    intro d hd
    have := List.head?_dropWhile_not isWordChar (c :: rest)
    rw [Option.mem_def.mp hd] at this
    simpa using this
  rcases ofWord_cases ((c :: rest).takeWhile isWordChar) with ⟨hkind, hname⟩ | ⟨hkind, hname⟩
  · exact .keyword hkind hword hname hstop
  · rw [hkind]
    exact .word hword hname hstop

theorem unsignedNumeral_point {whole : List Char} (hwhole : ∀ d ∈ whole, d.isDigit)
    (rest : List Char) :
    unsignedNumeral (whole ++ '.' :: rest) = whole ++ '.' :: rest.takeWhile Char.isDigit := by
  have hstop : ∀ d ∈ ('.' :: rest).head?, d.isDigit = false := by
    intro d hd
    cases hd
    decide
  simp only [unsignedNumeral, takeWhile_append_stop hwhole hstop, dropWhile_append_stop hwhole hstop]

theorem whole_isPrefix_unsignedNumeral (text : List Char) :
    text.takeWhile Char.isDigit <+: unsignedNumeral text := by
  unfold unsignedNumeral
  split
  · exact List.prefix_append _ _
  · exact List.prefix_rfl

theorem isPrefix_unsignedNumeral {front text : List Char} (h : isUnsigned front)
    (hfront : front <+: text) : front <+: unsignedNumeral text := by
  obtain ⟨back, rfl⟩ := hfront
  have hwhole : ∀ d ∈ front.takeWhile Char.isDigit, d.isDigit :=
    List.all_eq_true.mp List.all_takeWhile
  have hsplit := List.takeWhile_append_dropWhile (p := Char.isDigit) (l := front)
  simp only [isUnsigned, Bool.and_eq_true] at h
  obtain ⟨_, hfraction⟩ := h
  split at hfraction
  · -- the digits may go on in the text, and so may a point behind them
    rename_i hdrop
    rw [hdrop, List.append_nil] at hsplit
    rw [hsplit] at hwhole
    refine List.IsPrefix.trans ?_ (whole_isPrefix_unsignedNumeral _)
    rw [List.takeWhile_append_of_pos hwhole]
    exact List.prefix_append _ _
  · rename_i digits hdrop
    rw [hdrop] at hsplit
    rw [← hsplit, List.append_assoc, List.cons_append, unsignedNumeral_point hwhole,
      List.takeWhile_append_of_pos (List.all_eq_true.mp hfraction)]
    simp
  · exact absurd hfraction (by simp)

theorem startsWithDigit_append {front : List Char} (h : startsWithDigit front) (back : List Char) :
    startsWithDigit (front ++ back) := by
  cases front with
  | nil => exact absurd h (by decide)
  | cons c front => exact h

theorem startsWithDigit_of_isUnsigned {text : List Char} (h : isUnsigned text) :
    startsWithDigit text :=
  (Bool.and_eq_true_iff.mp h).1

theorem numeral_of_startsWithDigit {text : List Char} (h : startsWithDigit text) :
    numeral text = unsignedNumeral text := by
  unfold numeral
  split
  · exact absurd h (by simp [startsWithDigit])
  · rfl

/-- The numeral that is read is the longest one at the start of the text. -/
theorem isPrefix_numeral {front text : List Char} (h : isNumeral front) (hfront : front <+: text) :
    front <+: numeral text := by
  obtain ⟨back, rfl⟩ := hfront
  unfold isNumeral at h
  split at h
  · exact List.cons_prefix_cons.mpr ⟨rfl, isPrefix_unsignedNumeral h (List.prefix_append _ _)⟩
  · rename_i digits
    have hdigits : ∀ d ∈ digits, d.isDigit :=
      List.all_eq_true.mp (Bool.and_eq_true_iff.mp h).2
    have hnumeral : numeral ('.' :: digits ++ back) =
        '.' :: (digits ++ back).takeWhile Char.isDigit := rfl
    rw [hnumeral, List.takeWhile_append_of_pos hdigits]
    exact List.prefix_append _ _
  · rw [numeral_of_startsWithDigit (startsWithDigit_append (startsWithDigit_of_isUnsigned h) _)]
    exact isPrefix_unsignedNumeral h (List.prefix_append _ _)

theorem startsWithDigit_takeWhile {text : List Char} (h : startsWithDigit text) :
    startsWithDigit (text.takeWhile Char.isDigit) := by
  cases text with
  | nil => exact absurd h (by decide)
  | cons c text =>
      have hc : c.isDigit := h
      rw [List.takeWhile_cons_of_pos hc]
      exact h

theorem isUnsigned_unsignedNumeral {text : List Char} (h : startsWithDigit text) :
    isUnsigned (unsignedNumeral text) := by
  have hwhole : ∀ d ∈ text.takeWhile Char.isDigit, d.isDigit :=
    List.all_eq_true.mp List.all_takeWhile
  unfold unsignedNumeral isUnsigned
  split
  · rename_i rest hdrop
    have hstop : ∀ d ∈ ('.' :: rest.takeWhile Char.isDigit).head?, d.isDigit = false := by
      intro d hd
      cases hd
      decide
    rw [dropWhile_append_stop hwhole hstop,
      startsWithDigit_append (startsWithDigit_takeWhile h), Bool.true_and]
    exact List.all_takeWhile
  · have hdrop : (text.takeWhile Char.isDigit).dropWhile Char.isDigit = [] := by
      have hstop : ∀ d ∈ ([] : List Char).head?, d.isDigit = false := by simp
      simpa using dropWhile_append_stop hwhole hstop
    rw [hdrop, startsWithDigit_takeWhile h]
    rfl

theorem isNumeral_of_isUnsigned {text : List Char} (h : isUnsigned text) : isNumeral text := by
  have hstart := startsWithDigit_of_isUnsigned h
  unfold isNumeral
  split
  · exact absurd hstart (by simp [startsWithDigit])
  · exact absurd hstart (by simp [startsWithDigit])
  · exact h

theorem isNumeral_numeral {c : Char} {rest : List Char} (h : startsNumeral c rest) :
    isNumeral (numeral (c :: rest)) := by
  simp only [startsNumeral, Bool.or_eq_true, Bool.and_eq_true, decide_eq_true_eq] at h
  rcases h with hdigit | ⟨rfl | rfl, hrest⟩
  · have hstart : startsWithDigit (c :: rest) := hdigit
    rw [numeral_of_startsWithDigit hstart]
    exact isNumeral_of_isUnsigned (isUnsigned_unsignedNumeral hstart)
  · exact isUnsigned_unsignedNumeral hrest
  · have hnumeral : numeral ('.' :: rest) = '.' :: rest.takeWhile Char.isDigit := rfl
    rw [hnumeral, isNumeral, startsWithDigit_takeWhile hrest, List.all_takeWhile]
    rfl

theorem spelled_numeral {c : Char} {rest : List Char} (h : startsNumeral c rest) :
    Spelled ⟨.ident, String.ofList (numeral (c :: rest))⟩ (numeral (c :: rest))
      ((c :: rest).drop (numeral (c :: rest)).length) := by
  refine .numeral (isNumeral_numeral h) ?_
  intro more hne hmore
  apply Bool.eq_false_iff.mpr
  intro hlonger
  have hprefix : numeral (c :: rest) ++ more <+: c :: rest := by
    have := List.prefix_append_right_inj (numeral (c :: rest)) |>.mpr hmore
    rwa [numeral_append_drop] at this
  have hle := (isPrefix_numeral hlonger hprefix).length_le
  rw [List.length_append] at hle
  exact hne (List.length_eq_zero_iff.mp (by omega))

theorem readQuoted_reads (before : List Char) (position : Position) (rest : List Char) :
    ∃ text body ending, Quotes text body ∧
      (readQuoted before position rest).text = before.reverse ++ text ∧
      EndsQuotes ending (readQuoted before position rest).next.rest ∧
      Cursor.Passes ⟨position, rest⟩ (body ++ ending) (readQuoted before position rest).next := by
  fun_induction readQuoted before position rest
  case case1 before position => exact ⟨[], [], [], .nil, by simp, .endOfText, .refl _⟩
  case case2 before position rest =>
    exact ⟨[], [], ['"'], .nil, by simp, .closed rest, (Cursor.Passes.refl _).cons⟩
  case case3 before position rest =>
    exact ⟨[], [], [], .nil, by simp, .newline rest, .refl _⟩
  case case4 before position =>
    exact ⟨[], [], ['\\'], .nil, by simp, .backslash, (Cursor.Passes.refl _).cons⟩
  case case5 before position c rest ih =>
    obtain ⟨text, body, ending, hquotes, htext, hending, hpasses⟩ := ih
    exact ⟨_, _, ending, .escape c hquotes, by simp [htext], hending, hpasses.cons.cons⟩
  case case6 before position c rest hquote hnewline hlast hslash ih =>
    obtain ⟨text, body, ending, hquotes, htext, hending, hpasses⟩ := ih
    have hc : c ≠ '\\' := by
      rintro rfl
      cases rest with
      | nil => exact hlast rfl rfl
      | cons d rest => exact hslash d rest rfl rfl
    exact ⟨_, _, ending, .plain hquote hc hnewline hquotes, by simp [htext], hending, hpasses.cons⟩

theorem spelled_quoted (position : Position) (rest : List Char) :
    let enclosed := readQuoted [] (position.after '"') rest
    ∃ spelling, Spelled ⟨.quoted, String.ofList enclosed.text⟩ spelling enclosed.next.rest ∧
      Cursor.Passes ⟨position, '"' :: rest⟩ spelling enclosed.next := by
  obtain ⟨text, body, ending, hbody, htext, hending, hpasses⟩ :=
    readQuoted_reads [] (position.after '"') rest
  refine ⟨_, ?_, hpasses.cons⟩
  rw [htext]
  exact .quoted hbody hending

/-- An HTML text is read inside `depth` brackets, up to the one that closes it or up to the end. -/
inductive ReadsHtml (depth : Nat) (before : List Char) (source : Cursor) (enclosed : Enclosed) : Prop
  | closed {text : List Char} (hbalanced : isBalanced depth text)
      (htext : enclosed.text = before.reverse ++ text)
      (hpasses : source.Passes (text ++ ['>']) enclosed.next)
  | unclosed (hopen : ∀ front, front ++ ['>'] <+: source.rest → isBalanced depth front = false)
      (htext : enclosed.text = before.reverse ++ source.rest) (hend : enclosed.next.rest = [])
      (hpasses : source.Passes source.rest enclosed.next)

theorem ReadsHtml.cons {depth inner : Nat} {before rest : List Char} {c : Char}
    {position : Position} {enclosed : Enclosed}
    (h : ReadsHtml inner (c :: before) ⟨position.after c, rest⟩ enclosed)
    (hc : c = '>' → depth ≠ 0)
    (hinner : ∀ text, isBalanced depth (c :: text) = isBalanced inner text) :
    ReadsHtml depth before ⟨position, c :: rest⟩ enclosed := by
  cases h with
  | @closed text hbalanced htext hpasses =>
      exact .closed ((hinner text).trans hbalanced) (by simp [htext]) hpasses.cons
  | unclosed hopen htext hend hpasses =>
      refine .unclosed ?_ (by simp [htext]) hend hpasses.cons
      intro front hfront
      cases front with
      | nil =>
          have hdepth := hc (List.cons_prefix_cons.mp hfront).1.symm
          simp [isBalanced, hdepth]
      | cons d front =>
          obtain ⟨rfl, htail⟩ := List.cons_prefix_cons.mp hfront
          rw [hinner]
          exact hopen front htail

theorem readHtml_reads (depth : Nat) (before : List Char) (position : Position)
    (rest : List Char) :
    ReadsHtml depth before ⟨position, rest⟩ (readHtml depth before position rest) := by
  fun_induction readHtml depth before position rest
  case case1 depth before position =>
    refine .unclosed ?_ (by simp) rfl (.refl _)
    intro front hfront
    simpa using hfront.length_le
  case case2 depth before position rest ih =>
    exact ih.cons (fun hc => absurd hc (by decide)) fun text => rfl
  case case3 before position rest hopen =>
    exact .closed rfl (List.append_nil _).symm (Cursor.Passes.refl _).cons
  case case4 before position rest hopen depth ih =>
    exact ih.cons (fun _ => by simp) fun text => rfl
  case case5 depth before position c rest hopen hclose ih =>
    exact ih.cons (fun hc => absurd hc hclose) fun text => by simp [isBalanced, hopen, hclose]

theorem spelled_html (position : Position) (rest : List Char) :
    let enclosed := readHtml 0 [] (position.after '<') rest
    ∃ spelling, Spelled ⟨.html, String.ofList enclosed.text⟩ spelling enclosed.next.rest ∧
      Cursor.Passes ⟨position, '<' :: rest⟩ spelling enclosed.next := by
  cases readHtml_reads 0 [] (position.after '<') rest with
  | closed hbalanced htext hpasses =>
      refine ⟨_, ?_, hpasses.cons⟩
      rw [htext]
      exact .html hbalanced
  | unclosed hopen htext hend hpasses =>
      refine ⟨_, ?_, hpasses.cons⟩
      rw [htext, hend]
      exact .openHtml hopen

theorem mem_signs_of_punctuation? {c : Char} {kind : Token.Kind} (h : punctuation? c = some kind) :
    kind ∈ Token.Kind.signs ∧ kind.name.toList = [c] := by
  unfold punctuation? at h
  split_ifs at h <;> cases h <;> rename_i hc <;> subst hc <;> decide

theorem spelled_sign {c : Char} {kind : Token.Kind} (h : punctuation? c = some kind)
    {rest : List Char} : Spelled (.punctuation kind) [c] rest := by
  obtain ⟨hkind, hname⟩ := mem_signs_of_punctuation? h
  rw [← hname]
  exact .sign hkind

theorem name_of_mem_signs : ∀ kind ∈ Token.Kind.signs,
    (kind.name.toList.head?.bind punctuation?).isSome ∨
      kind.name.toList = ['-', '>'] ∨ kind.name.toList = ['-', '-'] := by
  decide

/-- What can be read where a character is. -/
inductive ReadsAt (position : Position) (c : Char) (rest : List Char) : Lexeme × Cursor → Prop where
  | word {word : List Char} {next : Cursor} :
      ReadsAt position c rest (⟨position, ⟨.ofWord word, String.ofList word⟩, none⟩, next)
  | numeral {digits : List Char} {next : Cursor} :
      ReadsAt position c rest (⟨position, ⟨.ident, String.ofList digits⟩, none⟩, next)
  | quotes (hc : c = '"') :
      ReadsAt position c rest
        (ofEnclosed .quoted .unterminatedString position (readQuoted [] (position.after c) rest))
  | brackets (hc : c = '<') :
      ReadsAt position c rest
        (ofEnclosed .html .unterminatedHtml position (readHtml 0 [] (position.after c) rest))
  | sign {kind : Token.Kind} {next : Cursor} (hkind : kind ∈ Token.Kind.signs) :
      ReadsAt position c rest (⟨position, .punctuation kind, none⟩, next)
  | stray :
      ReadsAt position c rest
        (⟨position, ⟨.illegal, String.singleton c⟩, some ⟨position, .unexpected c⟩⟩,
          ⟨position.after c, rest⟩)

theorem readsAt (position : Position) (c : Char) (rest : List Char) :
    ReadsAt position c rest (readAt position c rest) := by
  unfold readAt
  split
  · exact .word
  split
  · exact .numeral
  split
  · exact .quotes ‹_›
  split
  · exact .brackets ‹_›
  split
  · exact .sign (mem_signs_of_punctuation? ‹_›).1
  · exact .sign (by decide)
  · exact .sign (by decide)
  · exact .stray

/-- What the texts start with that are tokens. -/
theorem starts_of_spelled {token : Token} {spelling rest : List Char}
    (h : Spelled token spelling rest) :
    ∃ c text, spelling = c :: text ∧
      (isLetter c ∨ startsNumeral c (text ++ rest) ∨ c = '"' ∨ c = '<' ∨ (punctuation? c).isSome ∨
        c = '-' ∧ (text = ['>'] ∨ text = ['-'])) := by
  have hletter : ∀ {word : List Char}, isWord word →
      ∃ c text, word = c :: text ∧ isLetter c := by
    intro word hword
    cases word with
    | nil => exact absurd hword (by decide)
    | cons c text => exact ⟨c, text, rfl, (Bool.and_eq_true_iff.mp hword).1⟩
  cases h with
  | keyword _ hword _ _ | word hword _ _ =>
      obtain ⟨c, text, rfl, hc⟩ := hletter hword
      exact ⟨c, text, rfl, .inl hc⟩
  | numeral hdigits _ =>
      cases spelling with
      | nil => exact absurd hdigits (by decide)
      | cons c text => exact ⟨c, text, rfl, .inr (.inl (startsNumeral_of_isNumeral hdigits rest).2)⟩
  | quoted _ _ => exact ⟨_, _, rfl, by simp⟩
  | html _ | openHtml _ => exact ⟨_, _, rfl, by simp⟩
  | @sign kind _ hkind =>
      rcases name_of_mem_signs kind hkind with hname | hname | hname
      · cases hsign : kind.name.toList with
        | nil => simp [hsign] at hname
        | cons c text =>
            rw [hsign] at hname
            exact ⟨c, text, rfl, .inr (.inr (.inr (.inr (.inl hname))))⟩
      · exact ⟨'-', ['>'], hname, by simp⟩
      · exact ⟨'-', ['-'], hname, by simp⟩

theorem isStray {c : Char} {rest : List Char} (hstops : Trivia.Stops (c :: rest))
    (hletter : ¬ isLetter c) (hnumeral : ¬ startsNumeral c rest) (hquote : c ≠ '"')
    (hangle : c ≠ '<') (hsign : punctuation? c = none)
    (harrow : ∀ tail, c = '-' → rest ≠ '>' :: tail)
    (hdash : ∀ tail, c = '-' → rest ≠ '-' :: tail) : IsStray (c :: rest) where
  gap gap tail htext := by
    rw [htext] at hstops
    exact hstops.gap_eq_nil
  unclosed := hstops.not_unclosed
  token token spelling tail htext hspelled := by
    obtain ⟨d, text, rfl, hstarts⟩ := starts_of_spelled hspelled
    obtain ⟨rfl, rfl⟩ := List.cons.inj htext
    rcases hstarts with h | h | h | h | h | ⟨rfl, rfl | rfl⟩
    · exact hletter h
    · exact hnumeral h
    · exact hquote h
    · exact hangle h
    · simp [hsign] at h
    · exact harrow tail rfl rfl
    · exact hdash tail rfl rfl

/-- The token that is read stands at the start of the text, where no gap does. -/
theorem readAt_stands (position : Position) {c : Char} {rest : List Char}
    (hstops : Trivia.Stops (c :: rest)) :
    ∃ spelling,
      Stands (readAt position c rest).1.token spelling (readAt position c rest).2.rest ∧
        Cursor.Passes ⟨position, c :: rest⟩ spelling (readAt position c rest).2 := by
  unfold readAt
  split
  · rename_i hletter
    exact ⟨_, .token (spelled_word hletter), passes_takeWhile position isWordChar (c :: rest)⟩
  split
  · rename_i hnumeral
    exact ⟨_, .token (spelled_numeral hnumeral), ⟨(numeral_append_drop (c :: rest)).symm, rfl⟩⟩
  split
  · rename_i hquote
    subst hquote
    obtain ⟨spelling, hspelled, hpasses⟩ := spelled_quoted position rest
    exact ⟨spelling, .token hspelled, hpasses⟩
  split
  · rename_i hangle
    subst hangle
    obtain ⟨spelling, hspelled, hpasses⟩ := spelled_html position rest
    exact ⟨spelling, .token hspelled, hpasses⟩
  rename_i hletter hnumeral hquote hangle
  split
  · rename_i kind hkind
    exact ⟨_, .token (spelled_sign hkind), (Cursor.Passes.refl _).cons⟩
  · rename_i rest _
    have hspelled : Spelled (.punctuation .arrow) ['-', '>'] rest := .sign (by decide)
    exact ⟨_, .token hspelled, (Cursor.Passes.refl _).cons.cons⟩
  · rename_i rest _
    have hspelled : Spelled (.punctuation .dashDash) ['-', '-'] rest := .sign (by decide)
    exact ⟨_, .token hspelled, (Cursor.Passes.refl _).cons.cons⟩
  · -- nothing else is left that the character could start
    rename_i harrow hdash hsign
    exact ⟨_, .stray (isStray hstops hletter hnumeral hquote hangle hsign harrow hdash),
      (Cursor.Passes.refl _).cons⟩

end Lexeme

end DotGraph
