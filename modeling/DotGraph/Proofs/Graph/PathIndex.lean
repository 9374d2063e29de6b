import DotGraph.Graph.Path
import DotGraph.Proofs.Graph.Fields
import DotGraph.Proofs.Graph.Index
import Mathlib.Data.List.Induction

namespace DotGraph

/-! The index of a walk finds what a search through the graph finds. -/

theorem findIdx?_or {α : Type} (p q : α → Bool) (xs : List α) :
    xs.findIdx? (fun x => p x || q x) =
      match xs.findIdx? p, xs.findIdx? q with
      | some first, some second => some (min first second)
      | first, second => first.or second := by
  induction xs with
  | nil => rfl
  | cons x xs ih =>
      simp only [List.findIdx?_cons, ih]
      cases p x <;> cases q x <;> cases xs.findIdx? p <;> cases xs.findIdx? q <;> simp

/-- The place of each id, the last one where there are more. -/
def lastPlaces {α : Type} (view : α → String) (xs : List α) : Std.HashMap String Nat :=
  xs.zipIdx.foldl (fun index entry => index.insert (view entry.1) entry.2) ∅

theorem lastPlaces_concat {α : Type} (view : α → String) (xs : List α) (x : α) :
    lastPlaces view (xs ++ [x]) = (lastPlaces view xs).insert (view x) xs.length := by
  simp [lastPlaces, List.zipIdx_append]

theorem indexes_lastPlaces {α : Type} (view : α → String) (xs : List α)
    (h : (xs.map view).Nodup) : Indexes (lastPlaces view xs) (xs.map view).toArray := by
  induction xs using List.reverseRecOn with
  | nil => exact Indexes.empty
  | append_singleton xs x ih =>
      rw [List.map_append, List.map_singleton, List.nodup_append] at h
      obtain ⟨hnodup, _, hdisjoint⟩ := h
      have hindexes := ih hnodup
      -- an id that is indexed already would stand twice
      have hnew : (lastPlaces view xs)[view x]? = none := by
        rw [Option.eq_none_iff_forall_ne_some]
        intro place hplace
        have hmem := (hindexes.mem_iff (view x)).mpr ⟨place, hplace⟩
        exact hdisjoint _ (List.mem_toArray.mp hmem) _ List.mem_cons_self rfl
      have hpush := hindexes.push hnew
      rwa [List.size_toArray, List.length_map, ← lastPlaces_concat, List.push_toArray,
        ← List.map_singleton, ← List.map_append] at hpush

theorem isSome_lastPlaces {α : Type} (view : α → String) (xs : List α) (key : String) :
    (lastPlaces view xs)[key]?.isSome = xs.any fun x => view x = key := by
  induction xs using List.reverseRecOn with
  | nil => exact congrArg Option.isSome Std.HashMap.getElem?_empty
  | append_singleton xs x ih =>
      rw [lastPlaces_concat, Std.HashMap.getElem?_insert, List.any_append, ← ih]
      by_cases hkey : view x = key
      · simp [hkey]
      · simp [hkey]

theorem lastPlaces_eq {α : Type} (view : α → String) (xs : List α) :
    lastPlaces view xs = lastPlaces id (xs.map view) := by
  simp [lastPlaces, List.zipIdx_map, List.foldl_map]

/-- The place of each pair, the first one where there are more. -/
def firstPlaces {α : Type} (view : α → String × String) (xs : List α) :
    Std.HashMap (String × String) Nat :=
  xs.zipIdx.foldl (fun index entry => index.insertIfNew (view entry.1) entry.2) ∅

theorem firstPlaces_concat {α : Type} (view : α → String × String) (xs : List α) (x : α) :
    firstPlaces view (xs ++ [x]) = (firstPlaces view xs).insertIfNew (view x) xs.length := by
  simp [firstPlaces, List.zipIdx_append]

theorem firstPlaces_eq {α : Type} (view : α → String × String) (xs : List α) :
    firstPlaces view xs = firstPlaces id (xs.map view) := by
  simp [firstPlaces, List.zipIdx_map, List.foldl_map]

theorem getElem?_firstPlaces {α : Type} (view : α → String × String) (xs : List α)
    (pair : String × String) :
    (firstPlaces view xs)[pair]? = xs.findIdx? fun x => view x = pair := by
  induction xs using List.reverseRecOn with
  | nil => exact Std.HashMap.getElem?_empty
  | append_singleton xs x ih =>
      rw [firstPlaces_concat, Std.HashMap.getElem?_insertIfNew, List.findIdx?_append, ← ih]
      by_cases hpair : view x = pair
      · subst hpair
        cases hfound : (firstPlaces view xs)[view x]? with
        | none => simp [Std.HashMap.mem_iff_isSome_getElem?, hfound]
        | some place => simp [Std.HashMap.mem_iff_isSome_getElem?, hfound]
      · simp [hpair]

namespace Graph

/-- Where the first link stands that joins two nodes. -/
def linkPlace? (graph : Graph) (source target : String) : Option Nat :=
  graph.links.findIdx? fun link => link.joins source target graph.directed

theorem link?_eq (graph : Graph) (source target : String) :
    graph.link? source target = (graph.linkPlace? source target).bind (graph.links[·]?) :=
  Array.find?_eq_bind_findIdx?_getElem?

namespace PathIndex

theorem nodes_ofGraph (graph : Graph) :
    (ofGraph graph).nodes = lastPlaces Node.id graph.nodes.toList := by
  rw [lastPlaces, ← Array.toList_zipIdx, Array.foldl_toList]
  rfl

theorem links_ofGraph (graph : Graph) :
    (ofGraph graph).links = firstPlaces Link.ends graph.links.toList := by
  rw [firstPlaces, ← Array.toList_zipIdx, Array.foldl_toList]
  rfl

theorem indexes_ofGraph {graph : Graph} (h : (graph.nodes.toList.map Node.id).Nodup) :
    Indexes (ofGraph graph).nodes (graph.nodes.map Node.id) := by
  have hindexes := indexes_lastPlaces Node.id graph.nodes.toList h
  rwa [← nodes_ofGraph, ← List.map_toArray, Array.toArray_toList] at hindexes

/-- The index finds the link that a search finds first. -/
theorem link?_ofGraph (graph : Graph) (source target : String) :
    (ofGraph graph).link? source target = graph.linkPlace? source target := by
  have hdirected : (ofGraph graph).directed = graph.directed := rfl
  have hlist : graph.linkPlace? source target =
      graph.links.toList.findIdx? fun link => link.joins source target graph.directed := by
    rw [linkPlace?, ← List.findIdx?_toArray, Array.toArray_toList]
  rw [hlist, link?, hdirected, links_ofGraph, getElem?_firstPlaces, getElem?_firstPlaces]
  simp only [Link.joins_eq]
  cases graph.directed with
  | true => simp
  | false =>
      simp only [Bool.not_false, Bool.true_and, findIdx?_or]
      rfl

end PathIndex

end Graph

end DotGraph
