import DotGraph.Token.Cursor

namespace DotGraph.Trivia

/-! What separates tokens and is no token: blanks, line comments and block comments. -/

def isBlank (c : Char) : Bool :=
  c = ' ' || c = '\t' || c = '\n' || c = '\r'

inductive Mode where
  | between
  | lineComment
  | blockComment (opened : Position)

/-- Goes to the first character of the next token, or to the end of the text.  A block comment that
is never closed reaches to the end, and the place where it opens is reported. -/
def skip : Mode → Position → List Char → Cursor × Option Position
  | .between, position, [] => (⟨position, []⟩, none)
  | .between, position, '/' :: '/' :: rest =>
      skip .lineComment ((position.after '/').after '/') rest
  | .between, position, '/' :: '*' :: rest =>
      skip (.blockComment position) ((position.after '/').after '*') rest
  | .between, position, '#' :: rest =>
      skip .lineComment (position.after '#') rest
  | .between, position, c :: rest =>
      if isBlank c then skip .between (position.after c) rest
      else (⟨position, c :: rest⟩, none)
  | .lineComment, position, [] => (⟨position, []⟩, none)
  | .lineComment, position, c :: rest =>
      if c = '\n' then skip .between (position.after c) rest
      else skip .lineComment (position.after c) rest
  | .blockComment opened, position, [] => (⟨position, []⟩, some opened)
  | .blockComment _, position, '*' :: '/' :: rest =>
      skip .between ((position.after '*').after '/') rest
  | .blockComment opened, position, c :: rest =>
      skip (.blockComment opened) (position.after c) rest

theorem skip_passes (mode : Mode) (position : Position) (text : List Char) :
    ∃ spelling, Cursor.Passes ⟨position, text⟩ spelling (skip mode position text).1 := by
  fun_induction skip mode position text
  case case2 ih | case3 ih | case11 ih =>
    obtain ⟨spelling, h⟩ := ih
    exact ⟨_ :: _ :: spelling, h.cons.cons⟩
  case case4 ih | case5 ih | case8 ih | case9 ih | case12 ih =>
    obtain ⟨spelling, h⟩ := ih
    exact ⟨_ :: spelling, h.cons⟩
  all_goals exact ⟨[], .refl _⟩

theorem skip_unread_le (mode : Mode) (position : Position) (text : List Char) :
    (skip mode position text).1.unread ≤ text.length := by
  obtain ⟨_, h⟩ := skip_passes mode position text
  have := h.unread_eq
  simp only [Cursor.unread] at this ⊢
  omega

end DotGraph.Trivia
