import DotGraph.Diagnostic
import DotGraph.Token
import DotGraph.Token.Trivia

namespace DotGraph

/-! Tokens where they stand in a text.  Reading never fails: a character that starts no token is a
token of its own, and whatever is wrong with a token is noted beside it. -/

inductive LexFault where
  | unterminatedString
  | unterminatedHtml
  | unterminatedComment
  | unexpected (c : Char)
deriving DecidableEq, Repr

namespace LexFault

def isControl (c : Char) : Bool :=
  c.toNat < 0x20 || (0x7F ≤ c.toNat && c.toNat < 0xA0)

def message : LexFault → String
  | unterminatedString => "unterminated string"
  | unterminatedHtml => "unterminated HTML string"
  | unterminatedComment => "unterminated block comment"
  | unexpected c =>
      if isControl c then "unexpected character"
      else "unexpected character: " ++ String.singleton c

def diagnostic (fault : Located LexFault) : Diagnostic :=
  ⟨.lex, fault.position, fault.value.message⟩

end LexFault

structure Lexeme where
  position : Position
  token : Token
  fault : Option (Located LexFault)
deriving DecidableEq, Repr

namespace Lexeme

def isLetter (c : Char) : Bool :=
  c.isAlpha || c = '_'

def isWordChar (c : Char) : Bool :=
  isLetter c || c.isDigit

def unsignedNumeral (text : List Char) : List Char :=
  let whole := text.takeWhile Char.isDigit
  match text.dropWhile Char.isDigit with
  | '.' :: rest => whole ++ '.' :: rest.takeWhile Char.isDigit
  | _ => whole

/-- The longest numeral that the text starts with: an optional sign, digits, and an optional point
with the digits that follow it. -/
def numeral : List Char → List Char
  | '-' :: rest => '-' :: unsignedNumeral rest
  | text => unsignedNumeral text

/-- A text between delimiters, and the place after it. -/
structure Enclosed where
  text : List Char
  isClosed : Bool
  next : Cursor

def unescape (c : Char) : Char :=
  if c = 'n' then '\n' else if c = 't' then '\t' else if c = 'r' then '\r' else c

/-- Reads up to the closing quote; `text` holds what has been read, newest first.  A bare newline
ends the text and stays unread. -/
def readQuoted (text : List Char) : Position → List Char → Enclosed
  | position, [] => ⟨text.reverse, false, ⟨position, []⟩⟩
  | position, '"' :: rest => ⟨text.reverse, true, ⟨position.after '"', rest⟩⟩
  | position, '\n' :: rest => ⟨text.reverse, false, ⟨position, '\n' :: rest⟩⟩
  | position, ['\\'] => ⟨text.reverse, false, ⟨position.after '\\', []⟩⟩
  | position, '\\' :: c :: rest =>
      readQuoted (unescape c :: text) ((position.after '\\').after c) rest
  | position, c :: rest => readQuoted (c :: text) (position.after c) rest

/-- Reads up to the bracket that closes the text, inside `depth` brackets of the text itself. -/
def readHtml (depth : Nat) (text : List Char) : Position → List Char → Enclosed
  | position, [] => ⟨text.reverse, false, ⟨position, []⟩⟩
  | position, c :: rest =>
      if c = '<' then readHtml (depth + 1) (c :: text) (position.after c) rest
      else if c = '>' then
        match depth with
        | 0 => ⟨text.reverse, true, ⟨position.after c, rest⟩⟩
        | depth + 1 => readHtml depth (c :: text) (position.after c) rest
      else readHtml depth (c :: text) (position.after c) rest

def punctuation? (c : Char) : Option Token.Kind :=
  if c = '\x7b' then some .lBrace
  else if c = '\x7d' then some .rBrace
  else if c = '[' then some .lBracket
  else if c = ']' then some .rBracket
  else if c = ';' then some .semicolon
  else if c = ':' then some .colon
  else if c = ',' then some .comma
  else if c = '=' then some .equal
  else none

def startsNumeral (c : Char) (rest : List Char) : Bool :=
  c.isDigit || ((c = '-' || c = '.') && rest.head?.any Char.isDigit)

def ofEnclosed (kind : Token.Kind) (fault : LexFault) (position : Position)
    (enclosed : Enclosed) : Lexeme × Cursor :=
  (⟨position, ⟨kind, String.ofList enclosed.text⟩,
      if enclosed.isClosed then none else some ⟨position, fault⟩⟩,
    enclosed.next)

/-- Reads the token that starts with `c`. -/
def readAt (position : Position) (c : Char) (rest : List Char) : Lexeme × Cursor :=
  if isLetter c then
    let word := (c :: rest).takeWhile isWordChar
    (⟨position, ⟨.ofWord word, String.ofList word⟩, none⟩,
      ⟨position.afterAll word, (c :: rest).dropWhile isWordChar⟩)
  else if startsNumeral c rest then
    let digits := numeral (c :: rest)
    (⟨position, ⟨.ident, String.ofList digits⟩, none⟩,
      ⟨position.afterAll digits, (c :: rest).drop digits.length⟩)
  else if c = '"' then
    ofEnclosed .quoted .unterminatedString position (readQuoted [] (position.after c) rest)
  else if c = '<' then
    ofEnclosed .html .unterminatedHtml position (readHtml 0 [] (position.after c) rest)
  else
    match punctuation? c, c, rest with
    | some kind, _, _ => (⟨position, .punctuation kind, none⟩, ⟨position.after c, rest⟩)
    | none, '-', '>' :: rest =>
        (⟨position, .punctuation .arrow, none⟩, ⟨(position.after '-').after '>', rest⟩)
    | none, '-', '-' :: rest =>
        (⟨position, .punctuation .dashDash, none⟩, ⟨(position.after '-').after '-', rest⟩)
    | none, _, _ =>
        (⟨position, ⟨.illegal, String.singleton c⟩, some ⟨position, .unexpected c⟩⟩,
          ⟨position.after c, rest⟩)

/-- Reads the next token.  At the end of the text that is the end of input, and it carries the
fault of a comment that is never closed. -/
def read (cursor : Cursor) : Lexeme × Cursor :=
  let (start, unclosed) := Trivia.skip .between cursor.position cursor.rest
  match start.rest with
  | [] =>
      (⟨start.position, .punctuation .endOfInput, unclosed.map (⟨·, .unterminatedComment⟩)⟩, start)
  | c :: rest => readAt start.position c rest

def isEnd (lexeme : Lexeme) : Bool :=
  lexeme.token.kind = .endOfInput

theorem unsignedNumeral_append_drop (text : List Char) :
    unsignedNumeral text ++ text.drop (unsignedNumeral text).length = text := by
  suffices unsignedNumeral text <+: text from List.prefix_iff_eq_append.mp this
  unfold unsignedNumeral
  have split := List.takeWhile_append_dropWhile (p := Char.isDigit) (l := text)
  split
  · rename_i rest h
    refine ⟨rest.dropWhile Char.isDigit, ?_⟩
    rw [List.append_assoc, List.cons_append, List.takeWhile_append_dropWhile, ← h, split]
  · exact ⟨_, split⟩

theorem numeral_append_drop (text : List Char) :
    numeral text ++ text.drop (numeral text).length = text := by
  unfold numeral
  split
  · simp [unsignedNumeral_append_drop]
  · exact unsignedNumeral_append_drop text

theorem numeral_ne_nil {c : Char} {rest : List Char} (h : startsNumeral c rest) :
    numeral (c :: rest) ≠ [] := by
  unfold numeral
  split
  · simp
  · rename_i hsign
    simp only [startsNumeral, Bool.or_eq_true, Bool.and_eq_true, decide_eq_true_eq] at h
    unfold unsignedNumeral
    rcases h with hdigit | ⟨hc | hc, _⟩
    · split <;> simp [hdigit]
    · exact (hsign rest (by rw [hc])).elim
    · subst hc; simp

theorem readQuoted_passes (text : List Char) (position : Position) (rest : List Char) :
    ∃ spelling, Cursor.Passes ⟨position, rest⟩ spelling (readQuoted text position rest).next := by
  fun_induction readQuoted text position rest
  case case5 ih =>
    obtain ⟨spelling, h⟩ := ih
    exact ⟨_ :: _ :: spelling, h.cons.cons⟩
  case case6 ih =>
    obtain ⟨spelling, h⟩ := ih
    exact ⟨_ :: spelling, h.cons⟩
  case case1 | case3 => exact ⟨[], .refl _⟩
  all_goals exact ⟨[_], (Cursor.Passes.refl _).cons⟩

theorem readHtml_passes (depth : Nat) (text : List Char) (position : Position)
    (rest : List Char) :
    ∃ spelling, Cursor.Passes ⟨position, rest⟩ spelling
      (readHtml depth text position rest).next := by
  fun_induction readHtml depth text position rest
  case case1 => exact ⟨[], .refl _⟩
  case case3 => exact ⟨[_], (Cursor.Passes.refl _).cons⟩
  all_goals
    rename_i ih
    obtain ⟨spelling, h⟩ := ih
    exact ⟨_ :: spelling, h.cons⟩

theorem passes_takeWhile (position : Position) (p : Char → Bool) (text : List Char) :
    Cursor.Passes ⟨position, text⟩ (text.takeWhile p)
      ⟨position.afterAll (text.takeWhile p), text.dropWhile p⟩ :=
  ⟨List.takeWhile_append_dropWhile.symm, rfl⟩

/-- A token is spelled by the character it starts with and possibly more. -/
theorem readAt_passes (position : Position) (c : Char) (rest : List Char) :
    ∃ spelling, spelling ≠ [] ∧
      Cursor.Passes ⟨position, c :: rest⟩ spelling (readAt position c rest).2 := by
  unfold readAt
  split
  · rename_i h
    exact ⟨_, by simp [isWordChar, h], passes_takeWhile position isWordChar (c :: rest)⟩
  split
  · rename_i h
    exact ⟨_, numeral_ne_nil h, ⟨(numeral_append_drop (c :: rest)).symm, rfl⟩⟩
  split
  · obtain ⟨spelling, h⟩ := readQuoted_passes [] (position.after c) rest
    exact ⟨c :: spelling, by simp, h.cons⟩
  split
  · obtain ⟨spelling, h⟩ := readHtml_passes 0 [] (position.after c) rest
    exact ⟨c :: spelling, by simp, h.cons⟩
  split
  · exact ⟨[_], by simp, (Cursor.Passes.refl _).cons⟩
  · exact ⟨['-', '>'], by simp, (Cursor.Passes.refl _).cons.cons⟩
  · exact ⟨['-', '-'], by simp, (Cursor.Passes.refl _).cons.cons⟩
  · exact ⟨[_], by simp, (Cursor.Passes.refl _).cons⟩

theorem read_passes (cursor : Cursor) :
    ∃ spelling, cursor.Passes spelling (read cursor).2 := by
  obtain ⟨blank, h⟩ := Trivia.skip_passes .between cursor.position cursor.rest
  unfold read
  split
  rename_i start unclosed hskip
  rw [hskip] at h
  split
  · exact ⟨blank, h⟩
  · rename_i c rest hrest
    obtain ⟨spelling, _, k⟩ := readAt_passes start.position c rest
    rw [← hrest] at k
    exact ⟨blank ++ spelling, h.trans k⟩

theorem read_unread_lt (cursor : Cursor) (h : (read cursor).1.isEnd = false) :
    (read cursor).2.unread < cursor.unread := by
  obtain ⟨blank, hblank⟩ := Trivia.skip_passes .between cursor.position cursor.rest
  unfold read at h ⊢
  split at h
  rename_i start unclosed hskip
  rw [hskip] at hblank
  split at h
  · simp [isEnd, Token.punctuation] at h
  · rename_i c rest hrest
    obtain ⟨spelling, hne, k⟩ := readAt_passes start.position c rest
    rw [← hrest] at k
    have hlength : cursor.unread = _ := (hblank.trans k).unread_eq
    have hpositive := List.length_pos_iff.mpr hne
    rw [List.length_append] at hlength
    simp only [hskip, hrest] at *
    omega

end Lexeme

end DotGraph
