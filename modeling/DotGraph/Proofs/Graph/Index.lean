import DotGraph.Proofs.Tree.Occurrences

namespace DotGraph

/-! Indices and sets that are kept beside a list, and answer questions about it. -/

/-- The index maps each of the ids to its place, and maps nothing else. -/
def Indexes (index : Std.HashMap String Nat) (ids : Array String) : Prop :=
  ∀ (id : String) (place : Nat), index[id]? = some place ↔ ids[place]? = some id

/-- A set goes on holding what is listed. -/
theorem mem_insert_iff_mem_push {α : Type} [BEq α] [Hashable α] [LawfulBEq α] [LawfulHashable α]
    {set : Std.HashSet α} {xs : Array α} (h : ∀ x, x ∈ set ↔ x ∈ xs) (new x : α) :
    x ∈ set.insert new ↔ x ∈ xs.push new := by
  rw [Std.HashSet.mem_insert, Array.mem_push, h x, beq_iff_eq, eq_comm]
  exact Or.comm

/-- The set holds the ids, which are listed once each. -/
def Mirrors (set : Std.HashSet String) (ids : Array String) : Prop :=
  ids.toList.Nodup ∧ ∀ id, id ∈ set ↔ id ∈ ids

theorem map_modify_of_comm {α β : Type} (xs : Array α) (place : Nat) (change : α → α)
    (view : α → β) (other : β → β) (h : ∀ x, view (change x) = other (view x)) :
    (xs.modify place change).map view = (xs.map view).modify place other := by
  apply Array.ext_getElem?
  intro index
  simp only [Array.getElem?_map, Array.getElem?_modify]
  split
  · cases xs[index]? with
    | none => rfl
    | some x => exact congrArg some (h x)
  · rfl

theorem map_modify_of_eq {α β : Type} (xs : Array α) (place : Nat) (change : α → α)
    (view : α → β) (h : ∀ x, view (change x) = view x) :
    (xs.modify place change).map view = xs.map view := by
  rw [map_modify_of_comm xs place change view id h]
  apply Array.toList_inj.mp
  rw [Array.toList_modify, List.modify_id]

namespace Indexes

variable {index : Std.HashMap String Nat} {ids : Array String}

theorem empty : Indexes ∅ #[] := by
  intro id place
  simp

theorem nodup (h : Indexes index ids) : ids.toList.Nodup := by
  apply List.pairwise_iff_getElem.mpr
  intro first second hfirst hsecond hlt heq
  have hfirstIndex := (h ids.toList[first] first).mpr (by simp)
  have hsecondIndex := (h ids.toList[second] second).mpr (by simp)
  rw [heq, hsecondIndex] at hfirstIndex
  exact Nat.ne_of_lt hlt (Option.some.inj hfirstIndex).symm

theorem mem_iff (h : Indexes index ids) (id : String) :
    id ∈ ids ↔ ∃ place, index[id]? = some place := by
  rw [Array.mem_iff_getElem?]
  exact exists_congr fun place => (h id place).symm

/-- An index is of one list only. -/
theorem unique {others : Array String} (h : Indexes index ids) (k : Indexes index others) :
    ids = others := by
  refine Array.ext_getElem? fun place => Option.ext fun id => ?_
  exact (h id place).symm.trans (k id place)

theorem push (h : Indexes index ids) {id : String} (hnew : index[id]? = none) :
    Indexes (index.insert id ids.size) (ids.push id) := by
  intro other place
  rw [Std.HashMap.getElem?_insert, Array.getElem?_push]
  by_cases hid : id = other
  · subst hid
    by_cases hplace : place = ids.size
    · simp [hplace]
    · rw [if_neg hplace, ← h, hnew]
      simp [Ne.symm hplace]
  · by_cases hplace : place = ids.size
    · subst hplace
      have hnone : index[other]? ≠ some ids.size := by
        intro hsome
        have := (h other ids.size).mp hsome
        simp at this
      simp [hid, hnone]
    · rw [if_neg hplace, ← h]
      simp [hid]

/-- What is looked up, and added if it is not there, is listed where it is first looked up. -/
theorem eraseDups_concat (h : Indexes index ids) {seen : List String}
    (hseen : ids.toList = seen.eraseDups) (id : String) :
    (seen ++ [id]).eraseDups = (if index[id]?.isSome then ids else ids.push id).toList := by
  have hmem : id ∈ seen ↔ index[id]?.isSome := by
    rw [← List.mem_eraseDups, ← hseen, Array.mem_toList_iff, h.mem_iff, Option.isSome_iff_exists]
  rw [FirstSeen.eraseDups_concat, ← hseen]
  by_cases hfound : index[id]?.isSome
  · rw [if_pos hfound, if_pos (hmem.mpr hfound)]
  · rw [if_neg hfound, if_neg (mt hmem.mp hfound), Array.toList_push]

theorem push_map {α : Type} {xs : Array α} {view : α → String} (h : Indexes index (xs.map view))
    {x : α} (hnew : index[view x]? = none) :
    Indexes (index.insert (view x) xs.size) ((xs.push x).map view) := by
  rw [Array.map_push, ← Array.size_map]
  exact h.push hnew

/-- What has an id is found where the index says. -/
theorem find?_eq {α : Type} {xs : Array α} {view : α → String} (h : Indexes index (xs.map view))
    (id : String) : xs.find? (fun x => view x = id) = index[id]?.bind (xs[·]?) := by
  have hplace : ∀ place x, xs[place]? = some x → view x = id → index[id]? = some place := by
    intro place x hx hid
    rw [h, Array.getElem?_map, hx, Option.map_some, hid]
  cases hindex : index[id]? with
  | none =>
      rw [Option.bind_none, Array.find?_eq_none]
      intro x hmem hid
      obtain ⟨place, hx⟩ := Array.mem_iff_getElem?.mp hmem
      have hsome := hplace place x hx (of_decide_eq_true hid)
      exact absurd (hindex.symm.trans hsome) (Option.some_ne_none _).symm
  | some place =>
      have hx := (h id place).mp hindex
      rw [Array.getElem?_map, Option.map_eq_some_iff] at hx
      obtain ⟨x, hx, hid⟩ := hx
      obtain ⟨hlt, hget⟩ := Array.getElem?_eq_some_iff.mp hx
      rw [Option.bind_some, hx, Array.find?_eq_some_iff_getElem]
      refine ⟨decide_eq_true hid, place, hlt, hget, ?_⟩
      intro other hother
      rw [Bool.not_eq_true', decide_eq_false_iff_not]
      intro hid
      have hsame := hplace other _ (Array.getElem?_eq_getElem (Nat.lt_trans hother hlt)) hid
      exact Nat.ne_of_gt hother (Option.some.inj (hindex.symm.trans hsame))

section Changes

variable {α : Type} {xs : Array α} {view : α → String} (h : Indexes index (xs.map view))
include h

theorem exists_of_getElem? {id : String} {place : Nat} (hplace : index[id]? = some place) :
    ∃ x, xs[place]? = some x ∧ view x = id := by
  have hid := (h id place).mp hplace
  rwa [Array.getElem?_map, Option.map_eq_some_iff] at hid

theorem find?_of_mem {x : α} (hmem : x ∈ xs) : xs.find? (fun y => view y = view x) = some x := by
  obtain ⟨place, hx⟩ := Array.mem_iff_getElem?.mp hmem
  have hplace : index[view x]? = some place := by
    rw [h, Array.getElem?_map, hx, Option.map_some]
  rw [h.find?_eq, hplace, Option.bind_some, hx]

theorem find?_push {x : α} (hnew : index[view x]? = none) (id : String) :
    (xs.push x).find? (fun y => view y = id) =
      if id = view x then some x else xs.find? fun y => view y = id := by
  rw [Array.find?_push]
  by_cases heq : id = view x
  · rw [h.find?_eq, heq, hnew]
    simp
  · simp [heq, Ne.symm heq]

/-- A change at the place of an id is a change of what has that id, and of nothing else. -/
theorem find?_modify {change : α → α} (hview : ∀ x, view (change x) = view x) {id : String}
    {place : Nat} (hplace : index[id]? = some place) (other : String) :
    (xs.modify place change).find? (fun y => view y = other) =
      if other = id then (xs.find? fun y => view y = id).map change
      else xs.find? fun y => view y = other := by
  have hchanged : Indexes index ((xs.modify place change).map view) := by
    rwa [map_modify_of_eq _ _ _ _ hview]
  rw [hchanged.find?_eq, h.find?_eq, h.find?_eq]
  split
  · rename_i heq
    subst heq
    simp [hplace, Array.getElem?_modify]
  · rename_i hne
    cases hfound : index[other]? with
    | none => rfl
    | some found =>
        -- two ids at one place would be the id of one thing
        have hother : place ≠ found := by
          rintro rfl
          have hsame := ((h other place).mp hfound).symm.trans ((h id place).mp hplace)
          exact hne (Option.some.inj hsame)
        simp [Array.getElem?_modify, hother]

end Changes

end Indexes

namespace Mirrors

variable {set : Std.HashSet String} {ids : Array String}

theorem empty : Mirrors ∅ #[] := by
  refine ⟨List.nodup_nil, ?_⟩
  intro id
  simp

theorem insert (h : Mirrors set ids) {id : String} (hnew : id ∉ set) :
    Mirrors (set.insert id) (ids.push id) := by
  refine ⟨?_, ?_⟩
  · have hnotMem : id ∉ ids.toList := by
      intro hmem
      exact hnew ((h.2 id).mpr (Array.mem_toList_iff.mp hmem))
    rw [Array.toList_push, List.nodup_append]
    refine ⟨h.1, List.pairwise_singleton _ _, ?_⟩
    intro other hother last hlast heq
    rw [List.mem_singleton] at hlast
    exact hnotMem (hlast ▸ heq ▸ hother)
  · exact mem_insert_iff_mem_push h.2 id

end Mirrors

end DotGraph
