import DotGraph.Proofs.Text.Run
import DotGraph.Proofs.Token.Gap
import DotGraph.Token.Lexeme

namespace DotGraph

/-! How tokens are written, and that the reader of tokens undoes it. -/

namespace Lexeme

def isWord : List Char → Bool
  | [] => false
  | c :: rest => isLetter c && rest.all isWordChar

def startsWithDigit (text : List Char) : Bool :=
  text.head?.any Char.isDigit

/-- Digits, and then nothing, or a point and digits. -/
def isUnsigned (text : List Char) : Bool :=
  startsWithDigit text &&
    match text.dropWhile Char.isDigit with
    | [] => true
    | '.' :: digits => digits.all Char.isDigit
    | _ => false

def isNumeral : List Char → Bool
  | '-' :: text => isUnsigned text
  | '.' :: digits => startsWithDigit digits && digits.all Char.isDigit
  | text => isUnsigned text

/-- Whether the brackets of a text match each other, when `depth` more are open before it. -/
def isBalanced : (depth : Nat) → List Char → Bool
  | depth, [] => depth = 0
  | depth, c :: rest =>
      if c = '<' then isBalanced (depth + 1) rest
      else if c = '>' then
        match depth with
        | 0 => false
        | depth + 1 => isBalanced depth rest
      else isBalanced depth rest

def escaped (c : Char) : List Char :=
  if c = '"' then ['\\', '"']
  else if c = '\\' then ['\\', '\\']
  else if c = '\n' then ['\\', 'n']
  else [c]

end Lexeme

namespace Token

/-- Whether there is a way to write the token. -/
def isSpellable (token : Token) : Bool :=
  match token.kind with
  | .illegal | .endOfInput => false
  | .quoted => true
  | .html => Lexeme.isBalanced 0 token.text.toList
  | .ident =>
      Lexeme.isWord token.text.toList && Kind.ofWord token.text.toList = .ident ||
        Lexeme.isNumeral token.text.toList
  | .strict | .graph | .digraph | .subgraph | .node | .edge =>
      Lexeme.isWord token.text.toList && Kind.ofWord token.text.toList = token.kind
  | _ => token.text.isEmpty

def spelling (token : Token) : List Char :=
  match token.kind with
  | .quoted => '"' :: (token.text.toList.flatMap Lexeme.escaped ++ ['"'])
  | .html => '<' :: (token.text.toList ++ ['>'])
  | .ident | .strict | .graph | .digraph | .subgraph | .node | .edge => token.text.toList
  | kind => kind.name.toList

end Token

namespace Lexeme

/-! Each kind of token is read back where the text behind it delimits it. -/

open Trivia (Gap Delimits startsGap)

theorem of_startsGap {c : Char} (h : startsGap c) :
    isWordChar c = false ∧ c.isDigit = false ∧ c ≠ '.' := by
  simp only [startsGap, Trivia.isBlank, Bool.or_eq_true, decide_eq_true_eq] at h
  rcases h with ((((rfl | rfl) | rfl) | rfl) | rfl) | rfl <;> decide

theorem isDigit_of_delimits {rest : List Char} (h : Delimits rest) :
    ∀ c ∈ rest.head?, c.isDigit = false :=
  fun c hc => (of_startsGap (h c hc)).2.1

theorem readAt_word {c : Char} {word rest : List Char} (hc : isLetter c)
    (hword : word.all isWordChar) (hstop : ∀ d ∈ rest.head?, isWordChar d = false)
    (position : Position) :
    readAt position c (word ++ rest) =
      (⟨position, ⟨.ofWord (c :: word), String.ofList (c :: word)⟩, none⟩,
        ⟨position.afterAll (c :: word), rest⟩) := by
  have hall : ∀ d ∈ c :: word, isWordChar d := by
    intro d hd
    cases hd with
    | head => simp [isWordChar, hc]
    | tail _ hd => exact List.all_eq_true.mp hword d hd
  have htake : (c :: (word ++ rest)).takeWhile isWordChar = c :: word :=
    takeWhile_append_stop hall hstop
  have hdrop : (c :: (word ++ rest)).dropWhile isWordChar = rest :=
    dropWhile_append_stop hall hstop
  unfold readAt
  rw [if_pos hc]
  simp only [htake, hdrop]

theorem unsignedNumeral_append {text rest : List Char} (h : isUnsigned text)
    (hrest : Delimits rest) : unsignedNumeral (text ++ rest) = text := by
  have hstop := isDigit_of_delimits hrest
  have hwhole : ∀ d ∈ text.takeWhile Char.isDigit, d.isDigit :=
    List.all_eq_true.mp List.all_takeWhile
  have hsplit := List.takeWhile_append_dropWhile (p := Char.isDigit) (l := text)
  simp only [isUnsigned, Bool.and_eq_true] at h
  obtain ⟨_, hfraction⟩ := h
  generalize text.takeWhile Char.isDigit = whole at hwhole hsplit
  cases hdrop : text.dropWhile Char.isDigit with
  | nil =>
      rw [hdrop, List.append_nil] at hsplit
      subst hsplit
      unfold unsignedNumeral
      rw [takeWhile_append_stop hwhole hstop, dropWhile_append_stop hwhole hstop]
      cases rest with
      | nil => rfl
      | cons d rest =>
          have hd : d ≠ '.' := (of_startsGap (hrest d rfl)).2.2
          split
          · rename_i digits heq
            exact absurd (List.cons.inj heq).1 hd
          · rfl
  | cons c digits =>
      rw [hdrop] at hsplit hfraction
      split at hfraction
      · rename_i heq; exact absurd heq (by simp)
      · rename_i _ digits' heq
        obtain ⟨rfl, rfl⟩ := List.cons.inj heq
        have hdigits : ∀ d ∈ digits, d.isDigit := List.all_eq_true.mp hfraction
        rw [← hsplit]
        unfold unsignedNumeral
        rw [List.append_assoc, List.takeWhile_append_of_pos hwhole,
          List.dropWhile_append_of_pos hwhole]
        simp [takeWhile_append_stop hdigits hstop]
      · exact absurd hfraction (by simp)

theorem numeral_append {text rest : List Char} (h : isNumeral text) (hrest : Delimits rest) :
    numeral (text ++ rest) = text := by
  unfold isNumeral at h
  split at h
  · rename_i text
    exact congrArg ('-' :: ·) (unsignedNumeral_append h hrest)
  · rename_i digits
    have hdigits : ∀ d ∈ digits, d.isDigit :=
      List.all_eq_true.mp (Bool.and_eq_true_iff.mp h).2
    simp [numeral, unsignedNumeral, takeWhile_append_stop hdigits (isDigit_of_delimits hrest)]
  · rename_i hsign _
    cases text with
    | nil => exact absurd h (by decide)
    | cons c text =>
        have hc : c ≠ '-' := fun hc => hsign text (by rw [hc])
        have hnumeral : numeral (c :: (text ++ rest)) = unsignedNumeral (c :: (text ++ rest)) := by
          unfold numeral
          split
          · rename_i heq
            exact absurd (List.cons.inj heq).1 hc
          · rfl
        rw [List.cons_append, hnumeral]
        exact unsignedNumeral_append h hrest

theorem isLetter_of_isDigit {c : Char} (h : c.isDigit) : isLetter c = false := by
  have hnine : c.val ≤ '9'.val := of_decide_eq_true (Bool.and_eq_true_iff.mp h).2
  have hbelow : ∀ other : Char, '9'.val < other.val → ¬ other.val ≤ c.val := by
    intro other hother hle
    exact UInt32.not_le.mpr hother (UInt32.le_trans hle hnine)
  have hupper : c.isUpper = false := decide_eq_false fun h => hbelow 'A' (by decide) h.1
  have hlower : c.isLower = false :=
    Bool.and_eq_false_iff.mpr (.inl (decide_eq_false (hbelow 'a' (by decide))))
  have halpha : c.isAlpha = false := Bool.or_eq_false_iff.mpr ⟨hupper, hlower⟩
  have hne : c ≠ '_' := by
    intro hc
    rw [hc] at h
    exact absurd h (by decide)
  simp [isLetter, halpha, hne]

/-- What a numeral starts with. -/
theorem startsNumeral_of_isNumeral {c : Char} {text : List Char} (h : isNumeral (c :: text))
    (rest : List Char) : isLetter c = false ∧ startsNumeral c (text ++ rest) := by
  have hhead : ∀ digits : List Char, startsWithDigit digits →
      (digits ++ rest).head?.any Char.isDigit := by
    intro digits hdigits
    cases digits with
    | nil => exact absurd hdigits (by decide)
    | cons d digits => exact hdigits
  unfold isNumeral at h
  split at h
  · rename_i heq
    obtain ⟨rfl, rfl⟩ := List.cons.inj heq
    simp only [isUnsigned, Bool.and_eq_true] at h
    refine ⟨by decide, ?_⟩
    unfold startsNumeral
    rw [hhead _ h.1]
    decide
  · rename_i heq
    obtain ⟨rfl, rfl⟩ := List.cons.inj heq
    simp only [Bool.and_eq_true] at h
    refine ⟨by decide, ?_⟩
    unfold startsNumeral
    rw [hhead _ h.1]
    decide
  · simp only [isUnsigned, Bool.and_eq_true] at h
    have hdigit : c.isDigit := h.1
    exact ⟨isLetter_of_isDigit hdigit, by simp [startsNumeral, hdigit]⟩

theorem readAt_numeral {c : Char} {text rest : List Char} (h : isNumeral (c :: text))
    (hread : numeral (c :: text ++ rest) = c :: text) (position : Position) :
    readAt position c (text ++ rest) =
      (⟨position, ⟨.ident, String.ofList (c :: text)⟩, none⟩,
        ⟨position.afterAll (c :: text), rest⟩) := by
  obtain ⟨hletter, hnumeral⟩ := startsNumeral_of_isNumeral h rest
  rw [List.cons_append] at hread
  unfold readAt
  rw [if_neg (by simp [hletter]), if_pos hnumeral]
  simp [hread]

theorem escaped_quote : escaped '"' = ['\\', '"'] := rfl

theorem escaped_slash : escaped '\\' = ['\\', '\\'] := rfl

theorem escaped_newline : escaped '\n' = ['\\', 'n'] := rfl

theorem readQuoted_escaped (before text : List Char) (position : Position) (rest : List Char) :
    readQuoted before position (text.flatMap escaped ++ '"' :: rest) =
      ⟨before.reverse ++ text, true,
        ⟨position.afterAll (text.flatMap escaped ++ ['"']), rest⟩⟩ := by
  induction text generalizing before position with
  | nil => simp [readQuoted]
  | cons c text ih =>
      have hplain : ∀ d : Char, d ≠ '"' → d ≠ '\\' → d ≠ '\n' →
          readQuoted before position (d :: (text.flatMap escaped ++ '"' :: rest)) =
            readQuoted (d :: before) (position.after d)
              (text.flatMap escaped ++ '"' :: rest) := by
        intro d hquote hslash hnewline
        rw [readQuoted] <;> simp_all
      rw [List.flatMap_cons, List.append_assoc]
      by_cases hquote : c = '"'
      · subst hquote
        simp [escaped_quote, readQuoted, unescape, ih]
      by_cases hslash : c = '\\'
      · subst hslash
        simp [escaped_slash, readQuoted, unescape, ih]
      by_cases hnewline : c = '\n'
      · subst hnewline
        simp [escaped_newline, readQuoted, unescape, ih]
      · have hescaped : escaped c = [c] := by
          simp [escaped, hquote, hslash, hnewline]
        rw [hescaped, List.singleton_append, hplain c hquote hslash hnewline, ih]
        simp

theorem readHtml_balanced {depth : Nat} {text : List Char} (h : isBalanced depth text)
    (before : List Char) (position : Position) (rest : List Char) :
    readHtml depth before position (text ++ '>' :: rest) =
      ⟨before.reverse ++ text, true, ⟨position.afterAll (text ++ ['>']), rest⟩⟩ := by
  induction text generalizing depth before position with
  | nil =>
      obtain rfl : depth = 0 := by simpa [isBalanced] using h
      simp [readHtml]
  | cons c text ih =>
      rw [List.cons_append]
      unfold readHtml
      unfold isBalanced at h
      split at h
      · rename_i hopen
        rw [if_pos hopen, ih h]
        simp
      · rename_i hopen
        rw [if_neg hopen]
        split at h
        · rename_i hclose
          rw [if_pos hclose]
          cases depth with
          | zero => exact absurd h (by simp)
          | succ depth =>
              refine (ih h _ _).trans ?_
              simp
        · rename_i hclose
          rw [if_neg hclose, ih h]
          simp

/-- A token that is written at a place is read there. -/
def ReadsBack (token : Token) : Prop :=
  ∀ (position : Position) (rest : List Char), Delimits rest →
    ∃ c text, token.spelling = c :: text ∧ startsGap c = false ∧
      readAt position c (text ++ rest) =
        (⟨position, token, none⟩, ⟨position.afterAll token.spelling, rest⟩)

theorem not_startsGap_of_isLetter {c : Char} (h : isLetter c) : startsGap c = false := by
  apply Bool.eq_false_iff.mpr
  intro hgap
  have hword := (of_startsGap hgap).1
  rw [isWordChar, h] at hword
  exact absurd hword (by simp)

theorem not_startsGap_of_isNumeral {c : Char} {text : List Char} (h : isNumeral (c :: text)) :
    startsGap c = false := by
  apply Bool.eq_false_iff.mpr
  intro hgap
  have hstart := (startsNumeral_of_isNumeral h []).2
  simp only [startsGap, Trivia.isBlank, Bool.or_eq_true, decide_eq_true_eq] at hgap
  revert hstart
  rcases hgap with ((((rfl | rfl) | rfl) | rfl) | rfl) | rfl <;> simp [startsNumeral]

theorem readsBack_of_word {token : Token} (hspelling : token.spelling = token.text.toList)
    (hword : isWord token.text.toList) (hkind : Token.Kind.ofWord token.text.toList = token.kind) :
    ReadsBack token := by
  intro position rest hrest
  cases htext : token.text.toList with
  | nil =>
      rw [htext] at hword
      exact absurd hword (by decide)
  | cons c word =>
      rw [htext] at hword
      simp only [isWord, Bool.and_eq_true] at hword
      refine ⟨c, word, hspelling.trans htext, not_startsGap_of_isLetter hword.1, ?_⟩
      have hstop : ∀ d ∈ rest.head?, isWordChar d = false :=
        fun d hd => (of_startsGap (hrest d hd)).1
      rw [readAt_word hword.1 hword.2 hstop, hspelling, ← htext, hkind, String.ofList_toList]

theorem readsBack_of_numeral {token : Token} (hkind : token.kind = .ident)
    (h : isNumeral token.text.toList) : ReadsBack token := by
  intro position rest hrest
  have hspelling : token.spelling = token.text.toList := by
    simp only [Token.spelling, hkind]
  cases htext : token.text.toList with
  | nil =>
      rw [htext] at h
      exact absurd h (by decide)
  | cons c text =>
      rw [htext] at h
      refine ⟨c, text, hspelling.trans htext, not_startsGap_of_isNumeral h, ?_⟩
      rw [readAt_numeral h (numeral_append h hrest), hspelling, ← htext, String.ofList_toList, ← hkind]

theorem readsBack_of_quoted {token : Token} (hkind : token.kind = .quoted) : ReadsBack token := by
  intro position rest _
  have hspelling : token.spelling = '"' :: (token.text.toList.flatMap escaped ++ ['"']) := by
    simp only [Token.spelling, hkind]
  refine ⟨_, _, hspelling, by decide, ?_⟩
  have hread : readAt position '"' ((token.text.toList.flatMap escaped ++ ['"']) ++ rest) =
      ofEnclosed .quoted .unterminatedString position (readQuoted [] (position.after '"')
        (token.text.toList.flatMap escaped ++ '"' :: rest)) := by
    rw [List.append_assoc]
    rfl
  rw [hread, readQuoted_escaped, hspelling, ofEnclosed, ← hkind]
  simp

theorem readsBack_of_html {token : Token} (hkind : token.kind = .html)
    (h : isBalanced 0 token.text.toList) : ReadsBack token := by
  intro position rest _
  have hspelling : token.spelling = '<' :: (token.text.toList ++ ['>']) := by
    simp only [Token.spelling, hkind]
  refine ⟨_, _, hspelling, by decide, ?_⟩
  have hread : readAt position '<' ((token.text.toList ++ ['>']) ++ rest) =
      ofEnclosed .html .unterminatedHtml position
        (readHtml 0 [] (position.after '<') (token.text.toList ++ '>' :: rest)) := by
    rw [List.append_assoc]
    rfl
  rw [hread, readHtml_balanced h, hspelling, ofEnclosed, ← hkind]
  simp

theorem readsBack {token : Token} (h : token.isSpellable) : ReadsBack token := by
  obtain ⟨kind, text⟩ := token
  have hempty : text.isEmpty → text = "" := fun h => by simpa using h
  cases kind with
  | illegal | endOfInput => exact absurd h (by simp [Token.isSpellable])
  | quoted => exact readsBack_of_quoted rfl
  | html => exact readsBack_of_html rfl h
  | ident =>
      rcases Bool.or_eq_true_iff.mp h with hword | hnumeral
      · simp only [Bool.and_eq_true, decide_eq_true_eq] at hword
        exact readsBack_of_word rfl hword.1 hword.2
      · exact readsBack_of_numeral rfl hnumeral
  | strict | graph | digraph | subgraph | node | edge =>
      simp only [Token.isSpellable, Bool.and_eq_true, decide_eq_true_eq] at h
      exact readsBack_of_word rfl h.1 h.2
  | lBrace | rBrace | lBracket | rBracket | semicolon | colon | comma | equal | arrow | dashDash =>
      obtain rfl := hempty h
      intro position rest _
      exact ⟨_, _, rfl, by decide, rfl⟩

end Lexeme

end DotGraph
