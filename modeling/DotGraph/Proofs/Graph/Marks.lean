import DotGraph.Proofs.Graph.Walk
import Mathlib.Data.List.Forall2

namespace DotGraph

/-! Walks through a graph that has marks already.  What a path comes to depends on the ids of the
nodes and the ends of the links, and not on marks; so the marks of several paths add up in any
order, and nothing but marks is changed. -/

open DotGraph.Tree

namespace Graph

/-- Marks, by the places of the nodes and links that have them. -/
structure Marks where
  isOnPath : Nat → Bool
  isLost : Nat → Bool
  isLinkOnPath : Nat → Bool

def Marks.union (first second : Marks) : Marks where
  isOnPath place := first.isOnPath place || second.isOnPath place
  isLost place := first.isLost place || second.isLost place
  isLinkOnPath place := first.isLinkOnPath place || second.isLinkOnPath place

theorem Marks.union_comm (first second : Marks) : first.union second = second.union first := by
  simp only [union, Bool.or_comm]

theorem Marks.union_self (marks : Marks) : marks.union marks = marks := by
  simp only [union, Bool.or_self]

def addAllMarks (graph : Graph) (marks : Marks) : Graph :=
  graph.addMarks marks.isOnPath marks.isLost marks.isLinkOnPath

/-- Gives every node and link the marks of its place, and takes all others away. -/
def setMarks (graph : Graph) (marks : Marks) : Graph :=
  { graph with
    nodes := graph.nodes.mapIdx fun place node =>
      { node with onPath := marks.isOnPath place, pathInvalid := marks.isLost place }
    links := graph.links.mapIdx fun place link =>
      { link with onPath := marks.isLinkOnPath place } }

theorem addAllMarks_addAllMarks (graph : Graph) (first second : Marks) :
    (graph.addAllMarks first).addAllMarks second = graph.addAllMarks (first.union second) :=
  graph.addMarks_addMarks _ _ _ _ _ _

theorem clearPath_addAllMarks (graph : Graph) (marks : Marks) :
    (graph.addAllMarks marks).clearPath = graph.clearPath := by
  unfold clearPath addAllMarks addMarks
  congr 1
  · exact map_mapIdx_of_eq _ _ _ fun _ _ => rfl
  · exact map_mapIdx_of_eq _ _ _ fun _ _ => rfl

theorem clearPath_setMarks (graph : Graph) (marks : Marks) :
    (graph.setMarks marks).clearPath = graph.clearPath := by
  unfold clearPath setMarks
  congr 1
  · exact map_mapIdx_of_eq _ _ _ fun _ _ => rfl
  · exact map_mapIdx_of_eq _ _ _ fun _ _ => rfl

/-- Ids of nodes and ends of links are found without a look at the marks. -/
theorem PathIndex.ofGraph_clearPath (graph : Graph) : ofGraph graph.clearPath = ofGraph graph := by
  have hids : graph.clearPath.nodes.toList.map Node.id = graph.nodes.toList.map Node.id := by
    simp [clearPath, Function.comp_def]
  have hends : graph.clearPath.links.toList.map Link.ends = graph.links.toList.map Link.ends := by
    simp [clearPath, Function.comp_def, Link.ends]
  have hnodes : (ofGraph graph.clearPath).nodes = (ofGraph graph).nodes := by
    rw [nodes_ofGraph, nodes_ofGraph, lastPlaces_eq, lastPlaces_eq Node.id graph.nodes.toList, hids]
  have hlinks : (ofGraph graph.clearPath).links = (ofGraph graph).links := by
    rw [links_ofGraph, links_ofGraph, firstPlaces_eq, firstPlaces_eq Link.ends graph.links.toList,
      hends]
  exact (PathIndex.mk.injEq ..).mpr ⟨hnodes, hlinks, rfl⟩

/-- The marks that a path leaves in a graph. -/
def marksOf (graph : Graph) (path : Document) : Marks :=
  let index := PathIndex.ofGraph graph
  let made := path.steps.takeWhile graph.hasStep
  { isOnPath := fun place => made.any fun step =>
      index.nodes[step.1]? = some place || index.nodes[step.2]? = some place
    isLost := fun place => lostPlace? index graph path.steps = some place
    isLinkOnPath := fun place => made.any fun step => index.link? step.1 step.2 = some place }

theorem graph_walk (graph : Graph) (path : Document) :
    (graph.walk path).graph = graph.addAllMarks (graph.marksOf path) :=
  walkSteps_graph (hasNode_eq graph) path.steps graph #[]

theorem check_walk (graph : Graph) (path : Document) :
    (graph.walk path).check = graph.plainCheck path.steps :=
  walkSteps_check (hasNode_eq graph) path.steps graph #[]

section

variable {first second : Graph} (h : first.clearPath = second.clearPath)
include h

theorem ofGraph_congr : PathIndex.ofGraph first = PathIndex.ofGraph second := by
  rw [← PathIndex.ofGraph_clearPath first, h, PathIndex.ofGraph_clearPath]

theorem hasNode_congr (id : String) : first.hasNode id = second.hasNode id := by
  rw [hasNode_eq, hasNode_eq, ofGraph_congr h]

theorem hasStep_congr : first.hasStep = second.hasStep := by
  funext step
  rw [hasStep, hasStep, hasNode_congr h, hasNode_congr h]

theorem lostStep?_congr (steps : List (String × String)) :
    first.lostStep? steps = second.lostStep? steps := by
  rw [lostStep?, lostStep?, hasStep_congr h]

theorem check_walk_congr (path : Document) :
    (first.walk path).check = (second.walk path).check := by
  rw [check_walk, check_walk, plainCheck, plainCheck, lostStep?_congr h]
  simp only [hasNode_congr h]

theorem marksOf_congr (path : Document) : first.marksOf path = second.marksOf path := by
  unfold marksOf lostPlace?
  rw [lostStep?_congr h, hasStep_congr h, ofGraph_congr h]

end

theorem clearPath_walk (graph : Graph) (path : Document) :
    (graph.walk path).graph.clearPath = graph.clearPath := by
  rw [graph_walk, clearPath_addAllMarks]

/-- A path leaves the marks that it leaves in any case, besides those of another path. -/
theorem graph_walk_walk (graph : Graph) (p q : Document) :
    ((graph.walk p).graph.walk q).graph =
      graph.addAllMarks ((graph.marksOf p).union (graph.marksOf q)) := by
  rw [graph_walk, marksOf_congr (graph.clearPath_walk p), graph_walk, addAllMarks_addAllMarks]

/-- The graph after one path and another. -/
def walkAll (graph : Graph) (paths : List Document) : Graph :=
  paths.foldl (fun graph path => (graph.walk path).graph) graph

theorem clearPath_walkAll (graph : Graph) (paths : List Document) :
    (graph.walkAll paths).clearPath = graph.clearPath := by
  induction paths generalizing graph with
  | nil => rfl
  | cons path paths ih => exact (ih (graph.walk path).graph).trans (graph.clearPath_walk path)

/-- Paths leave each other alone: neither their order nor the marks from before count for what they
come to, a path that is walked again does nothing more, and what they marked can be cleared. -/
theorem walk_order_irrelevant (graph : Graph) (p q : Document) :
    ((graph.walk p).graph.walk q).graph = ((graph.walk q).graph.walk p).graph ∧
      ((graph.walk p).graph.walk q).check = (graph.walk q).check ∧
      ((graph.walk q).graph.walk p).check = (graph.walk p).check ∧
      (∀ marks, ((graph.setMarks marks).walk p).check = (graph.walk p).check) ∧
      ((graph.walk p).graph.walk p).graph = (graph.walk p).graph ∧
      ((graph.walk p).graph.walk p).check = (graph.walk p).check ∧
      (∀ paths, (graph.walkAll paths).clearPath = graph.clearPath) ∧
      ∀ paths, (graph.walkAll paths).clearPath.walk q = graph.clearPath.walk q := by
  refine ⟨?_, check_walk_congr (graph.clearPath_walk p) q,
    check_walk_congr (graph.clearPath_walk q) p,
    fun marks => check_walk_congr (graph.clearPath_setMarks marks) p, ?_,
    check_walk_congr (graph.clearPath_walk p) p, graph.clearPath_walkAll, fun paths => ?_⟩
  · rw [graph_walk_walk, graph_walk_walk, Marks.union_comm]
  · rw [graph_walk_walk, Marks.union_self, graph_walk]
  · rw [clearPath_walkAll]

/-- The same node but for its marks, of which it keeps all that it had. -/
structure Node.Gains (old new : Node) : Prop where
  same : { new with onPath := old.onPath, pathInvalid := old.pathInvalid } = old
  onPath : old.onPath → new.onPath
  pathInvalid : old.pathInvalid → new.pathInvalid

/-- The same link but for its mark, which it keeps if it had it. -/
structure Link.Gains (old new : Link) : Prop where
  same : { new with onPath := old.onPath } = old
  onPath : old.onPath → new.onPath

/-- The same graph, with the same nodes and links in the same order, but for marks that are new. -/
structure Gains (old new : Graph) : Prop where
  nodes : List.Forall₂ Node.Gains old.nodes.toList new.nodes.toList
  links : List.Forall₂ Link.Gains old.links.toList new.links.toList
  rest : { new with nodes := old.nodes, links := old.links } = old

/-- The node at a place is marked as the last one of a path that is lost, and was not before. -/
def BecomesLost (old new : Graph) (place : Nat) : Prop :=
  old.nodes[place]?.any (!·.pathInvalid) ∧ new.nodes[place]?.any Node.pathInvalid

theorem Node.gains_mark (node : Node) (isOnPath isLost : Bool) :
    node.Gains (node.mark isOnPath isLost) where
  same := rfl
  onPath h := by rw [mark, h, Bool.true_or]
  pathInvalid h := by rw [mark, h, Bool.true_or]

theorem Link.gains_mark (link : Link) (isOnPath : Bool) : link.Gains (link.mark isOnPath) where
  same := rfl
  onPath h := by rw [mark, h, Bool.true_or]

theorem forall₂_mapIdx {α β : Type} {related : α → β → Prop} (xs : List α) (change : Nat → α → β)
    (h : ∀ place x, related x (change place x)) : List.Forall₂ related xs (xs.mapIdx change) := by
  induction xs generalizing change with
  | nil => exact .nil
  | cons x xs ih =>
      rw [List.mapIdx_cons]
      exact .cons (h 0 x) (ih _ fun place x => h (place + 1) x)

theorem gains_addAllMarks (graph : Graph) (marks : Marks) :
    graph.Gains (graph.addAllMarks marks) where
  nodes := by
    rw [addAllMarks, addMarks, Array.toList_mapIdx]
    exact forall₂_mapIdx _ _ fun _ node => node.gains_mark _ _
  links := by
    rw [addAllMarks, addMarks, Array.toList_mapIdx]
    exact forall₂_mapIdx _ _ fun _ link => link.gains_mark _
  rest := rfl

theorem isLost_of_becomesLost {graph : Graph} {marks : Marks} {place : Nat}
    (h : graph.BecomesLost (graph.addAllMarks marks) place) : marks.isLost place := by
  obtain ⟨hold, hnew⟩ := h
  rw [addAllMarks, addMarks, Array.getElem?_mapIdx] at hnew
  cases hnode : graph.nodes[place]? with
  | none => simp [hnode] at hold
  | some node =>
      have hbefore : node.pathInvalid = false := by simpa [hnode] using hold
      have hafter : (node.pathInvalid || marks.isLost place) = true := by
        simpa [hnode, Node.mark] using hnew
      rwa [hbefore, Bool.false_or] at hafter

theorem plainCheck_valid (graph : Graph) (steps : List (String × String)) :
    ((graph.plainCheck steps).valid ↔ graph.lostStep? steps = none) ∧
      ((graph.plainCheck steps).valid ↔ (graph.plainCheck steps).error = none) ∧
      ((graph.plainCheck steps).valid ↔ (graph.plainCheck steps).lostEdge = none) := by
  unfold plainCheck
  cases graph.lostStep? steps with
  | none => simp
  | some step => simp

/-- A path with something wrong in its source leaves no mark, and any other one leaves nothing but
marks: at most one of them says where the path was lost, and none if it was not. -/
theorem highlight_gains (graph : Graph) (filename : String) (bytes : ByteArray) :
    ((parse filename bytes).diagnostics ≠ [] →
      (highlight filename bytes).run.run graph =
        (.error (parse filename bytes).diagnostics, graph)) ∧
    ((parse filename bytes).diagnostics = [] →
      ∃ walk, (highlight filename bytes).run.run graph = (.ok walk, walk.graph) ∧
        graph.Gains walk.graph ∧
        (walk.check.valid → ∀ place, ¬ graph.BecomesLost walk.graph place) ∧
        (∀ first second, graph.BecomesLost walk.graph first →
          graph.BecomesLost walk.graph second → first = second) ∧
        (walk.check.valid ↔ walk.check.error = none) ∧
        (walk.check.valid ↔ walk.check.lostEdge = none)) := by
  refine ⟨fun h => highlight_of_checked_error graph (Parsed.checked_eq_error h), fun h => ?_⟩
  refine ⟨_, highlight_of_checked_ok graph (Parsed.checked_eq_ok h), ?_⟩
  obtain ⟨hvalid, herror, hedge⟩ :=
    graph.plainCheck_valid (parse filename bytes).document.steps
  rw [check_walk, graph_walk]
  refine ⟨graph.gains_addAllMarks _, fun hgood place hlost => ?_, fun first second h k => ?_,
    herror, hedge⟩
  · have hplace := isLost_of_becomesLost hlost
    simp [marksOf, lostPlace?, hvalid.mp hgood] at hplace
  · -- only one place is that of the node that was reached last
    have hfirst := of_decide_eq_true (isLost_of_becomesLost h)
    have hsecond := of_decide_eq_true (isLost_of_becomesLost k)
    exact Option.some.inj (hfirst.symm.trans hsecond)

/-- Two nodes have one id, and a link has an end that is no node. -/
private def twins : Graph where
  nodes := #[.named "a", .named "b", .named "a"]
  links := #[⟨"a", "z", "", "", "", .empty, false⟩, ⟨"b", "a", "", "", "", .empty, false⟩]

theorem highlight_gains_twins :
    ((parse "" "graph\x7ba--\x7d".toUTF8).diagnostics ≠ [] ∧
      ((highlight "" "graph\x7ba--\x7d".toUTF8).run.run twins).2 = twins) ∧
    (parse "" "graph\x7ba--b--z\x7d".toUTF8).diagnostics = [] ∧
      ∃ walk, (highlight "" "graph\x7ba--b--z\x7d".toUTF8).run.run twins = (.ok walk, walk.graph) ∧
        twins.Gains walk.graph ∧ (walk.check.valid ↔ walk.check.error = none) := by
  have hfaulty : (parse "" "graph\x7ba--\x7d".toUTF8).diagnostics ≠ [] := by decide +kernel
  have hclean : (parse "" "graph\x7ba--b--z\x7d".toUTF8).diagnostics = [] := by decide +kernel
  obtain ⟨walk, hwalk, hgains, -, -, herror, -⟩ := (highlight_gains twins "" _).2 hclean
  have hkept := (highlight_gains twins "" _).1 hfaulty
  exact ⟨⟨hfaulty, congrArg Prod.snd hkept⟩, hclean, walk, hwalk, hgains, herror⟩

end Graph

end DotGraph
