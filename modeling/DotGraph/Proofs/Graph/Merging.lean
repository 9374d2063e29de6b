import DotGraph.Proofs.Graph.Records
import DotGraph.Proofs.Tree.Events

namespace DotGraph

/-! The record of a named subgraph, told from the tree.  The bodies of a name are recorded when they
end. -/

open DotGraph.Tree

/-- The innermost name around. -/
def Tree.groupIn (around : List Subgraph) : Option String :=
  around.findSome? Subgraph.name?

/-- What is read off the actions of a tree is also read off its events: off what happens to nodes,
and off the ends of named bodies. -/
structure Tells {α : Type} (view : Action → Option α) (told : Event → Option α) : Prop where
  describe : ∀ around id attributes,
    view (.describe id attributes (groupIn around)) = told (.node around id)
  mention : ∀ around id, view (.mention id (groupIn around)) = told (.node around id)
  setDefaults : ∀ subject attributes, view (.setDefaults subject attributes) = none
  link : ∀ attributes source target, view (.link attributes source target) = none
  record : ∀ around position ident statements,
    view (.record ident.name (occurrencesOfAll statements).eraseDups statements) =
      told (.close around ⟨position, some ident, statements⟩)
  assign : ∀ around key value, told (.assign around key value) = none
  close : ∀ around position statements,
    told (.close around ⟨position, none, statements⟩) = none

namespace Tells

variable {α : Type} {view : Action → Option α} {told : Event → Option α}

theorem filterMap_linkActions (h : Tells view told) (attributes : Option AttributeList)
    (left right : List String) : (linkActions attributes left right).filterMap view = [] := by
  refine List.filterMap_eq_nil_iff.mpr fun action hmem => ?_
  obtain ⟨ends, -, rfl⟩ := List.mem_map.mp hmem
  exact h.link attributes ends.1 ends.2

theorem filterMap_mentions (h : Tells view told) (around : List Subgraph) (nodes : List NodeId) :
    (nodes.map fun node => Action.mention node.name (groupIn around)).filterMap view =
      (nodes.map fun node => Event.node around node.name).filterMap told := by
  rw [List.filterMap_map, List.filterMap_map]
  exact congrArg (List.filterMap · nodes) (funext fun node => h.mention around node.name)

mutual
theorem filterMap_actionsOfAll (h : Tells view told) :
    (around : List Subgraph) → (statements : List Statement) →
    (actionsOfAll (groupIn around) statements).filterMap view =
      (eventsOfAll around statements).filterMap told
  | around, [] => by rw [actionsOfAll, eventsOfAll, List.filterMap_nil, List.filterMap_nil]
  | around, statement :: statements => by
      rw [actionsOfAll, eventsOfAll, List.filterMap_append, List.filterMap_append,
        filterMap_actions h around statement, filterMap_actionsOfAll h around statements]

theorem filterMap_actions (h : Tells view told) :
    (around : List Subgraph) → (statement : Statement) →
    (statement.actions (groupIn around)).filterMap view = (statement.events around).filterMap told
  | around, .node _ node attributes => by
      rw [Statement.actions, Statement.events, List.filterMap_cons, List.filterMap_cons, h.describe]
      rfl
  | around, .edge _ left hops attributes => by
      rw [Statement.actions, Statement.events, List.filterMap_append, List.filterMap_append,
        filterMap_endpoint h around left, filterMap_hops h around attributes left.ends hops]
  | around, .defaults _ subject attributes => by
      rw [Statement.actions, Statement.events, List.filterMap_cons, h.setDefaults]
      rfl
  | around, .assign _ key value => by
      rw [Statement.actions, Statement.events, List.filterMap_cons, h.assign]
      rfl
  | around, .subgraph body => by
      rw [Statement.actions, Statement.events]
      exact filterMap_subgraph h around body

theorem filterMap_hops (h : Tells view told) : (around : List Subgraph) →
    (attributes : Option AttributeList) → (left : List String) → (hops : List Hop) →
    (actionsOfHops (groupIn around) attributes left hops).filterMap view =
      (eventsOfHops around hops).filterMap told
  | around, attributes, left, [] => by
      rw [actionsOfHops, eventsOfHops, List.filterMap_nil, List.filterMap_nil]
  | around, attributes, left, ⟨_, _, endpoint⟩ :: hops => by
      rw [actionsOfHops, eventsOfHops, List.filterMap_append, List.filterMap_append,
        List.filterMap_append, h.filterMap_linkActions, List.append_nil,
        filterMap_endpoint h around endpoint, filterMap_hops h around attributes endpoint.ends hops]

theorem filterMap_endpoint (h : Tells view told) :
    (around : List Subgraph) → (endpoint : Endpoint) →
    (endpoint.actions (groupIn around)).filterMap view = (endpoint.events around).filterMap told
  | around, .node node => by
      rw [Endpoint.actions, Endpoint.events, List.filterMap_cons, List.filterMap_cons, h.mention]
      rfl
  | around, .group _ nodes => by
      rw [Endpoint.actions, Endpoint.events]
      exact h.filterMap_mentions around nodes
  | around, .subgraph body => by
      rw [Endpoint.actions, Endpoint.events]
      exact filterMap_subgraph h around body

theorem filterMap_subgraph (h : Tells view told) :
    (around : List Subgraph) → (body : Subgraph) →
    (body.actions (groupIn around)).filterMap view = (body.events around).filterMap told
  | around, ⟨position, none, statements⟩ => by
      have hinside :=
        filterMap_actionsOfAll h (⟨position, none, statements⟩ :: around) statements
      rw [Subgraph.actions, Subgraph.events, List.filterMap_append, List.filterMap_cons, h.close,
        List.filterMap_nil, List.append_nil]
      exact hinside
  | around, ⟨position, some ident, statements⟩ => by
      have hinside :=
        filterMap_actionsOfAll h (⟨position, some ident, statements⟩ :: around) statements
      rw [Subgraph.actions, Subgraph.events, List.filterMap_append, List.filterMap_append,
        ← hinside, List.filterMap_cons, List.filterMap_cons, h.record around position]
      rfl
end

theorem filterMap_document (h : Tells view told) (document : Document) :
    document.actions.filterMap view = document.events.filterMap told :=
  h.filterMap_actionsOfAll [] document.statements

end Tells

/-- What is recorded of a body when it ends. -/
def Tree.Subgraph.said (body : Subgraph) : List String × List (String × String) :=
  (body.occurrences.eraseDups, body.assignments)

theorem tells_body (name : String) :
    Tells (Action.body? name) fun event => (event.body? name).map Subgraph.said where
  describe _ _ _ := rfl
  mention _ _ := rfl
  setDefaults _ _ := rfl
  link _ _ _ := rfl
  record _ _ ident _ := by
    by_cases hname : ident.name = name <;>
      simp [Action.body?, Event.body?, Subgraph.name?, hname, Subgraph.said, Subgraph.occurrences,
        Subgraph.assignments]
  assign _ _ _ := rfl
  close _ _ _ := by simp [Event.body?, Subgraph.name?]

theorem FirstSeen.insertAll_flatMap_eraseDups {α : Type} (f : α → List String) (xs : List α)
    (ids : FirstSeen) :
    ids.insertAll (xs.flatMap fun x => (f x).eraseDups) = ids.insertAll (xs.flatMap f) := by
  induction xs generalizing ids with
  | nil => rfl
  | cons x xs ih =>
      rw [List.flatMap_cons, List.flatMap_cons, insertAll_append, insertAll_append,
        insertAll_eraseDups, ih]

theorem Graph.Subgraph.merged_said (name : String) (bodies : List Tree.Subgraph) :
    merged name (bodies.map Tree.Subgraph.said) =
      if bodies.isEmpty then none
      else some (recording name (bodies.flatMap Tree.Subgraph.occurrences)
        (bodies.flatMap Tree.Subgraph.assignments)) := by
  have hids : ((bodies.map Tree.Subgraph.said).flatMap Prod.fst).eraseDups =
      (bodies.flatMap Tree.Subgraph.occurrences).eraseDups := by
    rw [List.flatMap_map, ← FirstSeen.toList_insertAll_empty,
      ← FirstSeen.toList_insertAll_empty]
    exact congrArg _ (FirstSeen.insertAll_flatMap_eraseDups Tree.Subgraph.occurrences bodies _)
  rw [merged, recording, recording, hids, List.flatMap_map, List.isEmpty_map]
  rfl

namespace Tree.Document

theorem subgraph?_eq_merged (document : Document) (name : String) :
    document.toGraph.subgraph? name =
      Graph.Subgraph.merged name ((document.bodies name).map Subgraph.said) := by
  have hstart := (Assembly.consistent_start document.directed document.strict
    (document.ident.map Ident.name)).records
  rw [document.toGraph_eq, Assembly.subgraph?_performAll hstart [] rfl,
    (tells_body name).filterMap_document, Document.bodies, List.map_filterMap]
  rfl

/-- The record of a name lists the nodes inside the subgraphs of that name, and has the last values
that are assigned directly in one of them.  The bodies count in the order in which they end.  Where
none of them is inside another one, that is the order of the source. -/
theorem subgraph?_toGraph (document : Document) (name : String) :
    document.toGraph.subgraph? name =
        (if (document.bodies name).isEmpty then none
        else some (.recording name ((document.bodies name).flatMap Subgraph.occurrences)
          ((document.bodies name).flatMap Subgraph.assignments))) ∧
      (∀ id, id ∈ (document.bodies name).flatMap Subgraph.occurrences ↔
        id ∈ document.nodesIn name) ∧
      (¬ NestsItself name document.events →
        (document.bodies name).flatMap Subgraph.occurrences = document.nodesIn name ∧
        (document.bodies name).flatMap Subgraph.assignments = document.entriesIn name) := by
  refine ⟨?_, document.mem_flatMap_bodies name, fun hnest => ?_⟩
  · rw [document.subgraph?_eq_merged, Graph.Subgraph.merged_said]
  · obtain ⟨hnodes, hentries⟩ :=
      document.recounts_events.filterMap_eq_flatMap (not_encloses_nil name) hnest
    exact ⟨hnodes.symm, hentries.symm⟩

private def nameAt (name : String) : Ident := ⟨.nowhere, name, .bare⟩

private def nodeAt (name : String) : Statement :=
  .node .nowhere ⟨.nowhere, nameAt name, none⟩ none

private def labelAt (value : String) : Statement :=
  .assign .nowhere (nameAt "label") (nameAt value)

private def bodyAt (name : String) (statements : List Statement) : Statement :=
  .subgraph ⟨.nowhere, some (nameAt name), statements⟩

private def twice : Document :=
  ⟨.nowhere, false, true, none,
    [bodyAt "g" [labelAt "x", nodeAt "a"], bodyAt "g" [labelAt "y", nodeAt "b", nodeAt "a"]]⟩

theorem subgraph?_toGraph_twice :
    ¬ NestsItself "g" twice.events ∧
      twice.toGraph.subgraph? "g" = some { id := "g", label := "y", nodes := #["a", "b"] } := by
  have hnest : ¬ NestsItself "g" twice.events := by decide
  obtain ⟨hrecord, -, horder⟩ := subgraph?_toGraph twice "g"
  obtain ⟨hnodes, hentries⟩ := horder hnest
  refine ⟨hnest, hrecord.trans ?_⟩
  rw [hnodes, hentries]
  decide

/-- A subgraph that starts first and ends last. -/
private def nested : Document :=
  ⟨.nowhere, false, true, none,
    [bodyAt "g" [labelAt "x", nodeAt "a", bodyAt "g" [labelAt "y", nodeAt "b"], nodeAt "c"]]⟩

/-- Inside a subgraph of its own name, a body is recorded before what stands in front of it. -/
theorem record_of_nested_ne_source_order :
    (nested.toGraph.subgraph? "g").map Graph.Subgraph.nodes = some #["b", "a", "c"] ∧
      (nested.nodesIn "g").eraseDups = ["a", "b", "c"] ∧
      (nested.toGraph.subgraph? "g").map Graph.Subgraph.label = some "x" ∧
      lastValue "label" (nested.entriesIn "g") = some "y" := by
  rw [subgraph?_eq_merged]
  decide

end Tree.Document

end DotGraph
