import DotGraph.Graph.Path
import Mathlib.Data.List.Induction

namespace DotGraph

/-! The nodes that occur in a tree, in the order of the source: what is first seen of them is the
list of their ids without its repeats. -/

namespace FirstSeen

theorem insertAll_append (ids : FirstSeen) (front back : List String) :
    ids.insertAll (front ++ back) = (ids.insertAll front).insertAll back :=
  List.foldl_append

theorem insertAll_concat (ids : FirstSeen) (more : List String) (id : String) :
    ids.insertAll (more ++ [id]) = (ids.insertAll more).insert id :=
  insertAll_append ids more [id]

theorem insert_of_mem {ids : FirstSeen} {id : String} (h : id ∈ ids.seen) : ids.insert id = ids :=
  if_pos h

theorem toList_insert_of_not_mem {ids : FirstSeen} {id : String} (h : id ∉ ids.seen) :
    (ids.insert id).toList = ids.toList ++ [id] := by
  simp [insert, toList, h]

theorem mem_seen_insert (ids : FirstSeen) (id other : String) :
    other ∈ (ids.insert id).seen ↔ other ∈ ids.seen ∨ other = id := by
  by_cases h : id ∈ ids.seen
  · rw [insert_of_mem h]
    refine (or_iff_left_of_imp ?_).symm
    intro heq
    exact heq ▸ h
  · have hinsert : (ids.insert id).seen = ids.seen.insert id := by
      simp [insert, h]
    rw [hinsert, Std.HashSet.mem_insert, beq_iff_eq, eq_comm]
    exact Or.comm

theorem mem_seen_insertAll (ids : FirstSeen) (more : List String) (other : String) :
    other ∈ (ids.insertAll more).seen ↔ other ∈ ids.seen ∨ other ∈ more := by
  induction more using List.reverseRecOn with
  | nil => simp [insertAll]
  | append_singleton more id ih =>
      rw [insertAll_concat, mem_seen_insert, ih, List.mem_append, List.mem_singleton, or_assoc]

theorem eraseDups_concat (ids : List String) (id : String) :
    (ids ++ [id]).eraseDups = if id ∈ ids then ids.eraseDups else ids.eraseDups ++ [id] := by
  rw [List.eraseDups_append]
  split <;> simp [List.removeAll, List.eraseDups_cons, *]

theorem eraseDups_append_of_subset {front back : List String} (h : back ⊆ front) :
    (front ++ back).eraseDups = front.eraseDups := by
  have hnone : back.removeAll front = [] :=
    List.filter_eq_nil_iff.mpr fun id hmem => by simpa using h hmem
  rw [List.eraseDups_append, hnone, List.eraseDups_nil, List.append_nil]

theorem length_eraseDups_le (ids : List String) : ids.eraseDups.length ≤ ids.length := by
  induction ids using List.reverseRecOn with
  | nil => exact Nat.le_refl 0
  | append_singleton ids id ih =>
      rw [eraseDups_concat, List.length_append]
      split
      · exact Nat.le_add_right_of_le ih
      · rw [List.length_append]
        exact Nat.add_le_add_right ih 1

theorem eraseDups_of_nodup {ids : List String} (h : ids.Nodup) : ids.eraseDups = ids := by
  induction ids using List.reverseRecOn with
  | nil => rfl
  | append_singleton ids id ih =>
      obtain ⟨hids, -, hdisjoint⟩ := List.nodup_append.mp h
      rw [eraseDups_concat, if_neg fun hmem => hdisjoint id hmem id List.mem_cons_self rfl, ih hids]

/-- A list that does not get shorter had no repeats. -/
theorem nodup_of_length_eraseDups {ids : List String} (h : ids.eraseDups.length = ids.length) :
    ids.Nodup := by
  induction ids using List.reverseRecOn with
  | nil => exact List.nodup_nil
  | append_singleton ids id ih =>
      rw [eraseDups_concat, List.length_append] at h
      split at h
      · have hle := length_eraseDups_le ids
        exact absurd h (Nat.ne_of_lt (Nat.lt_succ_of_le hle))
      · rename_i hmem
        rw [List.length_append] at h
        refine List.nodup_append.mpr ⟨ih (Nat.add_right_cancel h), List.pairwise_singleton _ id, ?_⟩
        intro other hother last hlast heq
        exact hmem (List.mem_singleton.mp hlast ▸ heq ▸ hother)

/-- Repeats change nothing. -/
theorem insertAll_eraseDups (ids : FirstSeen) (more : List String) :
    ids.insertAll more.eraseDups = ids.insertAll more := by
  induction more using List.reverseRecOn with
  | nil => rfl
  | append_singleton more id ih =>
      rw [eraseDups_concat, insertAll_concat]
      split
      · rename_i h
        rw [ih]
        exact (insert_of_mem ((mem_seen_insertAll ids more id).mpr (.inr h))).symm
      · rw [insertAll_concat, ih]

theorem insertAll_again (ids : FirstSeen) (more : List String) :
    (ids.insertAll more).insertAll more = ids.insertAll more := by
  rw [← insertAll_append, ← insertAll_eraseDups, eraseDups_append_of_subset (List.Subset.refl more),
    insertAll_eraseDups]

theorem toList_insertAll_empty (more : List String) :
    (empty.insertAll more).toList = more.eraseDups := by
  induction more using List.reverseRecOn with
  | nil => rfl
  | append_singleton more id ih =>
      have hseen : id ∈ (empty.insertAll more).seen ↔ id ∈ more := by
        rw [mem_seen_insertAll]
        simp [empty]
      rw [eraseDups_concat, insertAll_concat, ← ih]
      split
      · rename_i h
        rw [insert_of_mem (hseen.mpr h)]
      · rename_i h
        exact toList_insert_of_not_mem (mt hseen.mp h)

end FirstSeen

namespace Tree

mutual
/-- The ids of the nodes that occur in a part of a tree. -/
def Endpoint.occurrences : Endpoint → List String
  | .node node => [node.name]
  | .group _ nodes => nodes.map NodeId.name
  | .subgraph ⟨_, _, statements⟩ => occurrencesOfAll statements

def occurrencesOfHops : List Hop → List String
  | [] => []
  | ⟨_, _, endpoint⟩ :: hops => endpoint.occurrences ++ occurrencesOfHops hops

def Statement.occurrences : Statement → List String
  | .node _ node _ => [node.name]
  | .edge _ left hops _ => left.occurrences ++ occurrencesOfHops hops
  | .subgraph ⟨_, _, statements⟩ => occurrencesOfAll statements
  | .defaults _ _ _ | .assign _ _ _ => []

def occurrencesOfAll : List Statement → List String
  | [] => []
  | statement :: statements => statement.occurrences ++ occurrencesOfAll statements
end

theorem occurrencesOfAll_singleton (statement : Statement) :
    occurrencesOfAll [statement] = statement.occurrences := by
  rw [occurrencesOfAll, occurrencesOfAll, List.append_nil]

theorem occurrencesOfAll_append (front back : List Statement) :
    occurrencesOfAll (front ++ back) = occurrencesOfAll front ++ occurrencesOfAll back := by
  induction front with
  | nil => rw [List.nil_append, occurrencesOfAll, List.nil_append]
  | cons statement front ih =>
      rw [List.cons_append, occurrencesOfAll, occurrencesOfAll, ih, List.append_assoc]

theorem occurrencesOfHops_append (front back : List Hop) :
    occurrencesOfHops (front ++ back) = occurrencesOfHops front ++ occurrencesOfHops back := by
  induction front with
  | nil => rw [List.nil_append, occurrencesOfHops, List.nil_append]
  | cons hop front ih =>
      obtain ⟨_, _, endpoint⟩ := hop
      rw [List.cons_append, occurrencesOfHops, occurrencesOfHops, ih, List.append_assoc]

mutual
theorem Endpoint.collectIds_eq : (endpoint : Endpoint) → (ids : FirstSeen) →
    endpoint.collectIds ids = ids.insertAll endpoint.occurrences
  | .node node, ids => by
      rw [Endpoint.collectIds, Endpoint.occurrences]
      rfl
  | .group _ nodes, ids => by rw [Endpoint.collectIds, Endpoint.occurrences]
  | .subgraph ⟨_, _, statements⟩, ids => by
      rw [Endpoint.collectIds, Endpoint.occurrences]
      exact collectIdsOfAll_eq statements ids

theorem collectIdsOfHops_eq : (hops : List Hop) → (ids : FirstSeen) →
    collectIdsOfHops hops ids = ids.insertAll (occurrencesOfHops hops)
  | [], ids => by
      rw [collectIdsOfHops, occurrencesOfHops]
      rfl
  | ⟨_, _, endpoint⟩ :: hops, ids => by
      rw [collectIdsOfHops, occurrencesOfHops, FirstSeen.insertAll_append,
        Endpoint.collectIds_eq endpoint, collectIdsOfHops_eq hops]

theorem Statement.collectIds_eq : (statement : Statement) → (ids : FirstSeen) →
    statement.collectIds ids = ids.insertAll statement.occurrences
  | .node _ node _, ids => by
      rw [Statement.collectIds, Statement.occurrences]
      rfl
  | .edge _ left hops _, ids => by
      rw [Statement.collectIds, Statement.occurrences, FirstSeen.insertAll_append,
        Endpoint.collectIds_eq left, collectIdsOfHops_eq hops]
  | .subgraph ⟨_, _, statements⟩, ids => by
      rw [Statement.collectIds, Statement.occurrences]
      exact collectIdsOfAll_eq statements ids
  | .defaults _ _ _, ids | .assign _ _ _, ids => by
      rw [Statement.collectIds, Statement.occurrences]
      rfl

theorem collectIdsOfAll_eq : (statements : List Statement) → (ids : FirstSeen) →
    collectIdsOfAll statements ids = ids.insertAll (occurrencesOfAll statements)
  | [], ids => by
      rw [collectIdsOfAll, occurrencesOfAll]
      rfl
  | statement :: statements, ids => by
      rw [collectIdsOfAll, occurrencesOfAll, FirstSeen.insertAll_append,
        Statement.collectIds_eq statement, collectIdsOfAll_eq statements]
end

theorem Endpoint.ids_eq (endpoint : Endpoint) :
    endpoint.ids = endpoint.occurrences.eraseDups := by
  rw [Endpoint.ids, Endpoint.collectIds_eq, FirstSeen.toList_insertAll_empty]

end Tree

end DotGraph
