import DotGraph.Position

namespace DotGraph

/-! A place in a text together with the text that follows it. -/

structure Cursor where
  position : Position
  rest : List Char
deriving DecidableEq, Repr

namespace Cursor

def start (filename : String) (text : List Char) : Cursor :=
  ⟨.start filename, text⟩

def unread (cursor : Cursor) : Nat :=
  cursor.rest.length

/-- Going over `spelling` leads from one cursor to the other. -/
structure Passes (source : Cursor) (spelling : List Char) (target : Cursor) : Prop where
  rest_eq : source.rest = spelling ++ target.rest
  position_eq : target.position = source.position.afterAll spelling

theorem Passes.refl (cursor : Cursor) : cursor.Passes [] cursor :=
  ⟨rfl, rfl⟩

theorem Passes.trans {first second third : Cursor} {front back : List Char}
    (h : first.Passes front second) (k : second.Passes back third) :
    first.Passes (front ++ back) third where
  rest_eq := by rw [h.rest_eq, k.rest_eq, List.append_assoc]
  position_eq := by rw [k.position_eq, h.position_eq, Position.afterAll_append]

theorem Passes.cons {position : Position} {c : Char} {rest spelling : List Char}
    {target : Cursor} (h : Passes ⟨position.after c, rest⟩ spelling target) :
    Passes ⟨position, c :: rest⟩ (c :: spelling) target where
  rest_eq := by rw [List.cons_append, ← h.rest_eq]
  position_eq := by rw [h.position_eq]; rfl

theorem Passes.unread_eq {source target : Cursor} {spelling : List Char}
    (h : source.Passes spelling target) :
    source.unread = spelling.length + target.unread := by
  simp only [unread, h.rest_eq, List.length_append]

end Cursor

end DotGraph
