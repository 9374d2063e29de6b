import DotGraph.Proofs.Graph.PathIndex
import DotGraph.Proofs.Tree.Occurrences

namespace DotGraph

/-! Walking a path marks what a plain search finds: steps are looked up one by one in the graph, and
the first that leaves it ends the walk. -/

open DotGraph.Tree

namespace Parsed

variable {parsed : Parsed}

theorem checked_eq_ok (h : parsed.diagnostics = []) : parsed.checked = .ok parsed.document :=
  if_pos (List.isEmpty_iff.mpr h)

theorem checked_eq_error (h : parsed.diagnostics ≠ []) :
    parsed.checked = .error parsed.diagnostics :=
  if_neg fun hclean => h (List.isEmpty_iff.mp hclean)

end Parsed

namespace Tree

/-- For each two neighbours among the endpoints of an edge, all pairs of the ids that occur in them. -/
def Statement.plainSteps : Statement → List (String × String)
  | .edge _ left hops _ =>
      let ids := (left :: hops.map Hop.endpoint).map fun endpoint => endpoint.occurrences.eraseDups
      (ids.zip ids.tail).flatMap fun ends => pairs ends.1 ends.2
  | _ => []

def Document.plainSteps (path : Document) : List (String × String) :=
  path.statements.flatMap Statement.plainSteps

theorem Statement.steps_eq (statement : Statement) : statement.steps = statement.plainSteps := by
  cases statement with
  | edge _ left hops _ =>
      rw [Statement.steps, Statement.plainSteps, Endpoint.ids_eq]
      induction hops generalizing left with
      | nil => rfl
      | cons hop hops ih =>
          rw [stepsOfHops, Endpoint.ids_eq, ih]
          rfl
  | _ => rfl

theorem Document.steps_eq (path : Document) : path.steps = path.plainSteps := by
  rw [Document.steps, Document.plainSteps, funext Statement.steps_eq]

end Tree

namespace Graph

/-- Whether both ends of a step are in the graph. -/
def hasStep (graph : Graph) (step : String × String) : Bool :=
  graph.hasNode step.1 && graph.hasNode step.2

/-- The first step that leaves the graph. -/
def lostStep? (graph : Graph) (steps : List (String × String)) : Option (String × String) :=
  steps.find? fun step => !graph.hasStep step

/-- The first step that leaves the graph is told, with the end that is known. -/
def plainCheck (graph : Graph) (steps : List (String × String)) : PathCheck :=
  match graph.lostStep? steps with
  | none => { valid := true }
  | some (source, target) =>
      let unknown := if graph.hasNode source then target else source
      { valid := false
        error := some ("edge '" ++ source ++ " -> " ++ target ++ "' references unknown node '" ++
          unknown ++ "'")
        lostEdge := some ⟨source, target, unknown⟩
        lastNode :=
          if graph.hasNode source then some source
          else if graph.hasNode target then some target
          else none }

/-- Adds marks to a node, and takes none away. -/
def Node.mark (node : Node) (isOnPath isLost : Bool) : Node :=
  { node with onPath := node.onPath || isOnPath, pathInvalid := node.pathInvalid || isLost }

def Link.mark (link : Link) (isOnPath : Bool) : Link :=
  { link with onPath := link.onPath || isOnPath }

/-- Marks the nodes at the ends of all steps before the first that leaves the graph, the link that is
found first for each of these steps, and the node that was reached last. -/
def plainMarks (graph : Graph) (steps : List (String × String)) : Graph :=
  let made := steps.takeWhile graph.hasStep
  { graph with
    nodes := graph.nodes.map fun node => node.mark
      (made.any fun step => graph.node? step.1 = some node || graph.node? step.2 = some node)
      ((graph.plainCheck steps).lastNode.any fun id => graph.node? id = some node)
    links := graph.links.mapIdx fun place link => link.mark
      (made.any fun step => graph.linkPlace? step.1 step.2 = some place) }

@[simp] theorem Node.mark_false (node : Node) : node.mark false false = node := by
  simp [mark]

@[simp] theorem Node.mark_mark (node : Node) (isOnPath isLost isOnPath' isLost' : Bool) :
    (node.mark isOnPath isLost).mark isOnPath' isLost' =
      node.mark (isOnPath || isOnPath') (isLost || isLost') := by
  simp [mark, Bool.or_assoc]

@[simp] theorem Link.mark_false (link : Link) : link.mark false = link := by
  simp [mark]

@[simp] theorem Link.mark_mark (link : Link) (isOnPath isOnPath' : Bool) :
    (link.mark isOnPath).mark isOnPath' = link.mark (isOnPath || isOnPath') := by
  simp [mark, Bool.or_assoc]

/-- Adds marks at places. -/
def addMarks (graph : Graph) (isOnPath isLost isLinkOnPath : Nat → Bool) : Graph :=
  { graph with
    nodes := graph.nodes.mapIdx fun place node => node.mark (isOnPath place) (isLost place)
    links := graph.links.mapIdx fun place link => link.mark (isLinkOnPath place) }

theorem addMarks_addMarks (graph : Graph)
    (isOnPath isLost isLinkOnPath isOnPath' isLost' isLinkOnPath' : Nat → Bool) :
    (graph.addMarks isOnPath isLost isLinkOnPath).addMarks isOnPath' isLost' isLinkOnPath' =
      graph.addMarks (fun place => isOnPath place || isOnPath' place)
        (fun place => isLost place || isLost' place)
        (fun place => isLinkOnPath place || isLinkOnPath' place) := by
  simp [addMarks, Array.mapIdx_mapIdx, Function.comp_def]

theorem mapIdx_eq_self {α : Type} (xs : Array α) : xs.mapIdx (fun _ x => x) = xs := by
  apply Array.ext_getElem?
  intro index
  simp

theorem map_mapIdx_of_eq {α β : Type} (xs : Array α) (change : Nat → α → α) (view : α → β)
    (h : ∀ place x, view (change place x) = view x) : (xs.mapIdx change).map view = xs.map view := by
  apply Array.ext_getElem?
  intro place
  simp [Function.comp_def, h]

theorem modify_eq_mapIdx {α : Type} (xs : Array α) (place : Nat) (change : α → α)
    (mark : Nat → α → α) (hplace : ∀ x, mark place x = change x)
    (hother : ∀ index x, index ≠ place → mark index x = x) :
    xs.modify place change = xs.mapIdx mark := by
  apply Array.ext_getElem?
  intro index
  rw [Array.getElem?_modify, Array.getElem?_mapIdx]
  split
  · rename_i h
    rw [← h, funext hplace]
  · rename_i h
    rw [funext fun x => hother index x (Ne.symm h), Option.map_id']

theorem markNode_eq (graph : Graph) (place : Nat) :
    graph.markNode place =
      graph.addMarks (fun index => index = place) (fun _ => false) (fun _ => false) := by
  rw [markNode, addMarks,
    modify_eq_mapIdx graph.nodes place _ (fun index node => node.mark (index = place) false)
      (fun node => by simp [Node.mark]) (fun index node h => by simp [h])]
  simp [mapIdx_eq_self]

theorem markLost_eq (graph : Graph) (place : Nat) :
    graph.markLost place =
      graph.addMarks (fun _ => false) (fun index => index = place) (fun _ => false) := by
  rw [markLost, addMarks,
    modify_eq_mapIdx graph.nodes place _ (fun index node => node.mark false (index = place))
      (fun node => by simp [Node.mark]) (fun index node h => by simp [h])]
  simp [mapIdx_eq_self]

theorem markLink_eq (graph : Graph) (place : Option Nat) :
    graph.markLink place =
      graph.addMarks (fun _ => false) (fun _ => false) (fun index => place = some index) := by
  cases place with
  | none => simp [markLink, addMarks, mapIdx_eq_self]
  | some place =>
      rw [markLink, addMarks,
        modify_eq_mapIdx graph.links place _ (fun index link => link.mark (some place = some index))
          (fun link => by simp [Link.mark]) (fun index link h => by simp [Ne.symm h])]
      simp [mapIdx_eq_self]

theorem lostStep?_of_hasStep {graph : Graph} {step : String × String} (h : graph.hasStep step)
    (steps : List (String × String)) : graph.lostStep? (step :: steps) = graph.lostStep? steps :=
  List.find?_cons_of_neg (by simp [h])

theorem lostStep?_of_not_hasStep {graph : Graph} {step : String × String}
    (h : graph.hasStep step = false) (steps : List (String × String)) :
    graph.lostStep? (step :: steps) = some step :=
  List.find?_cons_of_pos (by simp [h])

section
variable {index : PathIndex} {graph : Graph}
  (hknown : ∀ id, graph.hasNode id = index.nodes[id]?.isSome)
include hknown

theorem walkSteps_check (steps : List (String × String)) (marked : Graph)
    (made : Array (String × String)) :
    (walkSteps index steps marked made).check = graph.plainCheck steps := by
  induction steps generalizing marked made with
  | nil => rfl
  | cons step steps ih =>
      obtain ⟨source, target⟩ := step
      have hsource := hknown source
      have htarget := hknown target
      unfold walkSteps
      split
      · rename_i hs ht
        rw [hs] at hsource
        rw [ht] at htarget
        have hstep : graph.hasStep (source, target) := by simp [hasStep, hsource, htarget]
        rw [ih, plainCheck, plainCheck, lostStep?_of_hasStep hstep]
      all_goals
        rename_i hs ht
        rw [hs] at hsource
        rw [ht] at htarget
        have hlost : graph.lostStep? ((source, target) :: steps) = some (source, target) :=
          lostStep?_of_not_hasStep (by simp [hasStep, hsource, htarget]) steps
        simp [plainCheck, hlost, PathCheck.lost, hsource, htarget]

/-- Where the node stands that was reached last. -/
def lostPlace? (index : PathIndex) (graph : Graph) (steps : List (String × String)) : Option Nat :=
  (graph.lostStep? steps).bind fun step => index.nodes[step.1]?.or index.nodes[step.2]?

theorem walkSteps_graph (steps : List (String × String)) (marked : Graph)
    (made : Array (String × String)) :
    (walkSteps index steps marked made).graph =
      marked.addMarks
        (fun place => (steps.takeWhile graph.hasStep).any fun step =>
          index.nodes[step.1]? = some place || index.nodes[step.2]? = some place)
        (fun place => lostPlace? index graph steps = some place)
        (fun place => (steps.takeWhile graph.hasStep).any fun step =>
          index.link? step.1 step.2 = some place) := by
  induction steps generalizing marked made with
  | nil => simp [walkSteps, addMarks, mapIdx_eq_self, lostPlace?, lostStep?]
  | cons step steps ih =>
      obtain ⟨source, target⟩ := step
      have hsource := hknown source
      have htarget := hknown target
      unfold walkSteps lostPlace?
      split
      · rename_i hs ht
        rw [hs] at hsource
        rw [ht] at htarget
        have hstep : graph.hasStep (source, target) := by simp [hasStep, hsource, htarget]
        -- the marks of this step and those of the steps behind it add up
        rw [ih, lostStep?_of_hasStep hstep, List.takeWhile_cons_of_pos hstep, markNode_eq,
          markNode_eq, markLink_eq, addMarks_addMarks, addMarks_addMarks, addMarks_addMarks]
        simp [hs, ht, lostPlace?, eq_comm, Bool.or_assoc]
      all_goals
        rename_i hs ht
        rw [hs] at hsource
        rw [ht] at htarget
        have hstep : graph.hasStep (source, target) = false := by simp [hasStep, hsource, htarget]
        rw [lostStep?_of_not_hasStep hstep, List.takeWhile_cons_of_neg (by simp [hstep])]
        simp [hs, ht, markLost_eq, eq_comm]
      simp [addMarks, mapIdx_eq_self]

end

theorem node?_eq {graph : Graph} (h : (graph.nodes.toList.map Node.id).Nodup) (id : String) :
    graph.node? id = (PathIndex.ofGraph graph).nodes[id]?.bind (graph.nodes[·]?) :=
  (PathIndex.indexes_ofGraph h).find?_eq id

theorem hasNode_eq (graph : Graph) (id : String) :
    graph.hasNode id = (PathIndex.ofGraph graph).nodes[id]?.isSome := by
  rw [PathIndex.nodes_ofGraph, isSome_lastPlaces, Array.any_toList, hasNode, node?,
    Array.isSome_find?]

/-- The index knows a node by its place, the search by what it finds there. -/
theorem place_iff_node? {graph : Graph} (h : (graph.nodes.toList.map Node.id).Nodup) {place : Nat}
    {node : Node} (hplaced : graph.nodes[place]? = some node) (id : String) :
    (PathIndex.ofGraph graph).nodes[id]? = some place ↔ graph.node? id = some node := by
  constructor
  · intro hplace
    rw [node?_eq h, hplace, Option.bind_some, hplaced]
  · intro hnode
    have hid : node.id = id := by simpa using Array.find?_some hnode
    rw [PathIndex.indexes_ofGraph h, Array.getElem?_map, hplaced, Option.map_some, hid]

theorem lostPlace?_eq_iff {graph : Graph} (h : (graph.nodes.toList.map Node.id).Nodup)
    {place : Nat} {node : Node} (hplaced : graph.nodes[place]? = some node)
    (steps : List (String × String)) :
    lostPlace? (.ofGraph graph) graph steps = some place ↔
      (graph.plainCheck steps).lastNode.any fun id => graph.node? id = some node := by
  unfold lostPlace? plainCheck
  cases graph.lostStep? steps with
  | none => simp
  | some step =>
      obtain ⟨source, target⟩ := step
      simp only [Option.bind_some, hasNode_eq, ← place_iff_node? h hplaced]
      cases hsource : (PathIndex.ofGraph graph).nodes[source]? with
      | some _ => simp [hsource]
      | none =>
          cases htarget : (PathIndex.ofGraph graph).nodes[target]? <;> simp [htarget]

/-- In a graph whose nodes differ in their ids, a walk with its index ends and marks as a plain search
through the graph does. -/
theorem walk_eq_plain {graph : Graph} (h : (graph.nodes.toList.map Node.id).Nodup)
    (path : Document) :
    (graph.walk path).check = graph.plainCheck path.plainSteps ∧
      (graph.walk path).graph = graph.plainMarks path.plainSteps := by
  rw [walk, path.steps_eq, walkSteps_check (hasNode_eq graph), walkSteps_graph (hasNode_eq graph)]
  refine ⟨rfl, ?_⟩
  -- the links are marked by their places on both sides, the nodes on one side only
  unfold addMarks plainMarks
  simp only [PathIndex.link?_ofGraph]
  congr 1
  apply Array.ext_getElem?
  intro place
  rw [Array.getElem?_mapIdx, Array.getElem?_map]
  cases hplaced : graph.nodes[place]? with
  | none => rfl
  | some node =>
      simp only [Option.map_some, place_iff_node? h hplaced, lostPlace?_eq_iff h hplaced,
        Bool.decide_eq_true]

section

variable {filename : String} {bytes : ByteArray} (graph : Graph)

theorem highlight_of_checked_error {diagnostics : List Diagnostic}
    (h : (parse filename bytes).checked = .error diagnostics) :
    (highlight filename bytes).run.run graph = (.error diagnostics, graph) := by
  unfold highlight
  rw [h]
  rfl

theorem highlight_of_checked_ok {path : Document}
    (h : (parse filename bytes).checked = .ok path) :
    (highlight filename bytes).run.run graph = (.ok (graph.walk path), (graph.walk path).graph) := by
  unfold highlight
  rw [h]
  rfl

end

/-- The second link joins the ends of the first, the other way round. -/
private def twoWays : Graph where
  nodes := #[.named "a", .named "b", .named "c"]
  links := #[⟨"b", "a", "", "", "", .empty, false⟩, ⟨"a", "b", "", "", "", .empty, false⟩,
    ⟨"b", "c", "", "", "", .empty, false⟩]

private def stop (name : String) : NodeId :=
  ⟨.nowhere, ⟨.nowhere, name, .bare⟩, none⟩

/-- From `a` to `b` and on to `c` and `d`. -/
private def leavingPath : Document :=
  ⟨.nowhere, false, false, none,
    [.edge .nowhere (.node (stop "a"))
      [⟨.nowhere, false, .node (stop "b")⟩,
        ⟨.nowhere, false, .group .nowhere [stop "c", stop "d", stop "c"]⟩] none]⟩

theorem walk_eq_plain_leavingPath :
    (twoWays.nodes.toList.map Node.id).Nodup ∧
      (twoWays.walk leavingPath).check.lostEdge = some ⟨"b", "d", "d"⟩ ∧
      (twoWays.walk leavingPath).check.lastNode = some "b" ∧
      (twoWays.walk leavingPath).graph.nodes.map (fun node => (node.onPath, node.pathInvalid)) =
        #[(true, false), (true, true), (true, false)] ∧
      (twoWays.walk leavingPath).graph.links.map Link.onPath = #[true, false, true] := by
  have hnodup : (twoWays.nodes.toList.map Node.id).Nodup := by decide
  obtain ⟨hcheck, hgraph⟩ := walk_eq_plain hnodup leavingPath
  rw [hcheck, hgraph]
  exact ⟨hnodup, by decide +kernel, by decide +kernel, by decide +kernel, by decide +kernel⟩

end Graph

end DotGraph
