namespace DotGraph

/-! Attribute maps, held in increasing order of their keys. -/

structure Attributes where
  entries : List (String × String)
  increasing : entries.Pairwise fun first second => first.1 < second.1
deriving DecidableEq, Repr

namespace Attributes

def empty : Attributes := ⟨[], .nil⟩

instance : Inhabited Attributes := ⟨empty⟩

def isEmpty (attributes : Attributes) : Bool :=
  attributes.entries.isEmpty

def get? (attributes : Attributes) (key : String) : Option String :=
  attributes.entries.lookup key

def insertEntry (key value : String) : List (String × String) → List (String × String)
  | [] => [(key, value)]
  | entry :: entries =>
      if key < entry.1 then (key, value) :: entry :: entries
      else if key = entry.1 then (key, value) :: entries
      else entry :: insertEntry key value entries

theorem mem_insertEntry {key value : String} {entries : List (String × String)}
    {entry : String × String} (h : entry ∈ insertEntry key value entries) :
    entry = (key, value) ∨ entry ∈ entries := by
  fun_induction insertEntry key value entries <;> grind

theorem pairwise_insertEntry (key value : String) {entries : List (String × String)}
    (h : entries.Pairwise fun first second => first.1 < second.1) :
    (insertEntry key value entries).Pairwise fun first second => first.1 < second.1 := by
  fun_induction insertEntry key value entries
  case case1 => simp
  case case2 entry entries hlt =>
    refine .cons (fun other hother => ?_) h
    rcases List.mem_cons.mp hother with rfl | hmem
    · exact hlt
    · exact String.lt_trans hlt (List.rel_of_pairwise_cons h hmem)
  case case3 entry entries _ heq =>
    exact .cons (fun other hother => heq ▸ List.rel_of_pairwise_cons h hother) h.of_cons
  case case4 entry entries hlt hne ih =>
    refine .cons (fun other hother => ?_) (ih h.of_cons)
    rcases mem_insertEntry hother with rfl | hmem
    · exact Std.lt_of_le_of_ne (String.not_lt.mp hlt) (Ne.symm hne)
    · exact List.rel_of_pairwise_cons h hmem

/-- Sets a key, whether it had a value or not. -/
def set (attributes : Attributes) (key value : String) : Attributes :=
  ⟨insertEntry key value attributes.entries, pairwise_insertEntry key value attributes.increasing⟩

def setAll (attributes : Attributes) (entries : List (String × String)) : Attributes :=
  entries.foldl (fun attributes entry => attributes.set entry.1 entry.2) attributes

end Attributes

end DotGraph
