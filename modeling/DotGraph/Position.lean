namespace DotGraph

/-! Places in a source text.  Lines and columns count from one, columns in characters; the offset
counts bytes of UTF-8 from zero. -/

structure Position where
  filename : String
  offset : Nat
  line : Nat
  column : Nat
deriving DecidableEq, Repr, Inhabited

namespace Position

def start (filename : String) : Position := ⟨filename, 0, 1, 1⟩

/-- A place in no text at all. -/
def nowhere : Position := ⟨"", 0, 0, 0⟩

def isValid (position : Position) : Bool :=
  0 < position.line

def after (position : Position) (c : Char) : Position :=
  if c = '\n' then
    ⟨position.filename, position.offset + c.utf8Size, position.line + 1, 1⟩
  else
    ⟨position.filename, position.offset + c.utf8Size, position.line, position.column + 1⟩

def afterAll (position : Position) (text : List Char) : Position :=
  text.foldl after position

@[simp] theorem afterAll_nil (position : Position) :
    position.afterAll [] = position := rfl

@[simp] theorem afterAll_cons (position : Position) (c : Char) (text : List Char) :
    position.afterAll (c :: text) = (position.after c).afterAll text := rfl

theorem afterAll_append (position : Position) (front back : List Char) :
    position.afterAll (front ++ back) = (position.afterAll front).afterAll back :=
  List.foldl_append

def display (position : Position) : String :=
  let place := toString position.line ++ ":" ++ toString position.column
  if position.filename.isEmpty then place else position.filename ++ ":" ++ place

end Position

/-- Something found at a place. -/
structure Located (α : Type) where
  position : Position
  value : α
deriving DecidableEq, Repr

end DotGraph
