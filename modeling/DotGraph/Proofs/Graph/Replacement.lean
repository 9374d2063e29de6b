import DotGraph.Proofs.Graph.Nodes
import DotGraph.Proofs.Tree.Place

namespace DotGraph

/-! Statements in the place of others.  What does the same at every place of a graph in the making may
take that place in every tree. -/

open DotGraph.Tree

namespace Assembly

/-- The new statements do what the old ones do: they lead to the same assembly, they touch the same
nodes in the same order, and they say the same of a body that they stand in. -/
structure Replaces (old new : List Statement) : Prop where
  performAll : ∀ (group : Option String) {assembly : Assembly}, assembly.Indexed →
    assembly.performAll (actionsOfAll group new) = assembly.performAll (actionsOfAll group old)
  touched : ∀ ids : FirstSeen,
    ids.insertAll (occurrencesOfAll new) = ids.insertAll (occurrencesOfAll old)
  assignments : assignments new = assignments old

/-- Edges whose endpoints do the same, and are linked by the same ids, do the same. -/
theorem performAll_fill_congr {group : Option String} {first second : Endpoint}
    (hends : second.ends = first.ends)
    (hperform : ∀ {assembly : Assembly}, assembly.Indexed →
      assembly.performAll (second.actions group) = assembly.performAll (first.actions group))
    (hole : EdgeHole) {assembly : Assembly} (h : assembly.Indexed) :
    assembly.performAll ((hole.fill second).actions group) =
      assembly.performAll ((hole.fill first).actions group) := by
  cases hole with
  | first position hops attributes =>
      rw [EdgeHole.fill, EdgeHole.fill, Statement.actions, Statement.actions, performAll_append,
        performAll_append, hperform h, hends]
  | later position left front opened directed back attributes =>
      rw [EdgeHole.fill, EdgeHole.fill, Statement.actions, Statement.actions, performAll_append,
        performAll_append]
      generalize left.ends = ids
      have hleft := h.performAll (left.actions group)
      generalize assembly.performAll (left.actions group) = assembly at hleft ⊢
      induction front generalizing assembly ids with
      | nil =>
          rw [List.nil_append, List.nil_append, actionsOfHops, actionsOfHops, hends]
          simp only [performAll_append, hperform hleft]
      | cons hop front ih =>
          obtain ⟨_, _, endpoint⟩ := hop
          rw [List.cons_append, List.cons_append, actionsOfHops, actionsOfHops]
          simp only [performAll_append]
          exact ih _ _ ((hleft.performAll _).performAll _)

namespace Replaces

variable {old new : List Statement}

theorem ids_eq (h : Replaces old new) :
    (occurrencesOfAll new).eraseDups = (occurrencesOfAll old).eraseDups := by
  rw [← FirstSeen.toList_insertAll_empty, ← FirstSeen.toList_insertAll_empty, h.touched]

theorem performAll_body (h : Replaces old new) (group : Option String) (position : Position)
    (ident : Option Ident) {assembly : Assembly} (hindexed : assembly.Indexed) :
    assembly.performAll (Subgraph.actions group ⟨position, ident, new⟩) =
      assembly.performAll (Subgraph.actions group ⟨position, ident, old⟩) := by
  cases ident with
  | none =>
      rw [Subgraph.actions, Subgraph.actions]
      exact h.performAll group hindexed
  | some ident =>
      have hrecord : ∀ assembly ids, recordSubgraph assembly ident.name ids new =
          recordSubgraph assembly ident.name ids old := by
        intro assembly ids
        unfold recordSubgraph
        rw [h.assignments]
      rw [Subgraph.actions, Subgraph.actions, performAll_append, performAll_append,
        h.performAll (some ident.name) hindexed, h.ids_eq]
      exact hrecord _ _

theorem refl (statements : List Statement) : Replaces statements statements where
  performAll _ _ _ := rfl
  touched _ := rfl
  assignments := rfl

theorem append {oldMore newMore : List Statement} (h : Replaces old new)
    (k : Replaces oldMore newMore) : Replaces (old ++ oldMore) (new ++ newMore) where
  performAll group assembly hindexed := by
    rw [actionsOfAll_append, actionsOfAll_append, performAll_append, performAll_append,
      h.performAll group hindexed, k.performAll group (hindexed.performAll _)]
  touched ids := by
    rw [occurrencesOfAll_append, occurrencesOfAll_append, FirstSeen.insertAll_append,
      FirstSeen.insertAll_append, h.touched, k.touched]
  assignments := by
    have hmore := k.assignments
    have hfirst := h.assignments
    unfold Assembly.assignments at hfirst hmore ⊢
    rw [List.filterMap_append, List.filterMap_append, hfirst, hmore]

/-- In a body, whether it is a statement or an endpoint. -/
theorem body (h : Replaces old new) (hole : BodyHole) (position : Position)
    (ident : Option Ident) :
    Replaces [hole.fill ⟨position, ident, old⟩] [hole.fill ⟨position, ident, new⟩] where
  performAll group assembly hindexed := by
    rw [actionsOfAll_singleton, actionsOfAll_singleton]
    cases hole with
    | statement =>
        rw [BodyHole.fill, BodyHole.fill, Statement.actions, Statement.actions]
        exact h.performAll_body group position ident hindexed
    | endpoint hole =>
        have hends : (Endpoint.subgraph ⟨position, ident, new⟩).ends =
            (Endpoint.subgraph ⟨position, ident, old⟩).ends := by
          rw [Endpoint.ends, Endpoint.ends, h.ids_eq]
        refine performAll_fill_congr hends (fun hindexed => ?_) hole hindexed
        rw [Endpoint.actions, Endpoint.actions]
        exact h.performAll_body group position ident hindexed
  touched ids := by
    rw [occurrencesOfAll_singleton, occurrencesOfAll_singleton]
    cases hole with
    | statement =>
        rw [BodyHole.fill, BodyHole.fill, Statement.occurrences, Statement.occurrences]
        exact h.touched ids
    | endpoint hole =>
        obtain ⟨front, back, hoccurrences⟩ := hole.exists_occurrences
        rw [BodyHole.fill, BodyHole.fill, hoccurrences, hoccurrences, Endpoint.occurrences,
          Endpoint.occurrences]
        simp only [FirstSeen.insertAll_append, h.touched]
  assignments := by
    rcases hole with _ | ⟨_ | _⟩ <;> rfl

/-- At whatever place. -/
theorem fill (h : Replaces old new) (place : Place) :
    Replaces (place.fill old) (place.fill new) := by
  induction place with
  | here front back => exact ((refl front).append h).append (refl back)
  | within front hole position ident place back ih =>
      exact (refl front).append ((ih.body hole position ident).append (refl back))

/-- A tree with the old statements at a place has the graph of the one with the new. -/
theorem toGraph_eq (h : Replaces old new) {document : Document} {place : Place}
    (hplace : document.statements = place.fill old) :
    Document.toGraph { document with statements := place.fill new } = document.toGraph := by
  rw [Document.toGraph_eq, document.toGraph_eq, Document.actions, Document.actions, hplace]
  exact congrArg graph ((h.fill place).performAll none (indexed_start _ _ _))

/-- An anonymous subgraph is its statements, unless one of them says something of the body that it
stands in. -/
theorem inlined {body : List Statement} (hbody : Assembly.assignments body = [])
    (position : Position) : Replaces [.subgraph ⟨position, none, body⟩] body where
  performAll group assembly _ := by
    rw [actionsOfAll_singleton, Statement.actions, Subgraph.actions]
  touched ids := by
    rw [occurrencesOfAll_singleton, Statement.occurrences]
  assignments := hbody

end Replaces

end Assembly

namespace Tree

/-- A bare id that stands nowhere. -/
def Ident.ofName (name : String) : Ident :=
  ⟨.nowhere, name, .bare⟩

def NodeId.ofName (name : String) : NodeId :=
  ⟨.nowhere, .ofName name, none⟩

def Endpoint.ofName (name : String) : Endpoint :=
  .node (.ofName name)

namespace Document

/-- Anonymous subgraphs are transparent: wherever one without assignments of its own stands as a
statement, its statements may stand instead. -/
theorem toGraph_inlined {document : Document} {place : Place} {position : Position}
    {body : List Statement}
    (h : document.statements = place.fill [.subgraph ⟨position, none, body⟩])
    (hbody : Assembly.assignments body = []) :
    Document.toGraph { document with statements := place.fill body } = document.toGraph :=
  (Assembly.Replaces.inlined hbody position).toGraph_eq h

/-- Default attributes that leave the body, an edge, and a named subgraph with an assignment. -/
private def eventfulBody : List Statement :=
  [.defaults .nowhere .node (some ⟨.nowhere, [⟨.nowhere, .ofName "color", .ofName "red"⟩]⟩),
    .edge .nowhere (.ofName "b") [⟨.nowhere, true, .ofName "c"⟩] none,
    .subgraph ⟨.nowhere, some (.ofName "inner"),
      [.assign .nowhere (.ofName "label") (.ofName "L"),
        .node .nowhere (.ofName "a") none]⟩]

/-- In a named subgraph that an edge links to the nodes `d` and `a`. -/
private def inLinkedBody : Place :=
  .within [.node .nowhere (.ofName "a") none]
    (.endpoint (.later .nowhere (.ofName "d") [] .nowhere false
      [⟨.nowhere, false, .ofName "a"⟩] none))
    .nowhere (some (.ofName "outer"))
    (.here [.assign .nowhere (.ofName "color") (.ofName "blue")]
      [.edge .nowhere (.ofName "e") [] none]) []

theorem toGraph_inlined_eventfulBody :
    Assembly.assignments eventfulBody = [] ∧
      Document.toGraph ⟨.nowhere, true, false, none, inLinkedBody.fill eventfulBody⟩ =
        Document.toGraph ⟨.nowhere, true, false, none,
          inLinkedBody.fill [.subgraph ⟨.nowhere, none, eventfulBody⟩]⟩ := by
  have hplace : (Document.mk .nowhere true false none
      (inLinkedBody.fill [.subgraph ⟨.nowhere, none, eventfulBody⟩])).statements =
        inLinkedBody.fill [.subgraph ⟨.nowhere, none, eventfulBody⟩] := rfl
  exact ⟨rfl, toGraph_inlined hplace rfl⟩

end Document

end Tree

end DotGraph
