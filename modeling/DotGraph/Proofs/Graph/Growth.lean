import DotGraph.Proofs.Graph.Groups
import DotGraph.Proofs.Graph.Strict

namespace DotGraph

/-! A graph in the making only grows: nodes, links and records stay where they are, and what is said
of their members and groups is not taken back. -/

open DotGraph.Tree

/-- What is in the old list is still at its place in the new one, as far as is kept of it. -/
def Continues {α : Type} (kept : α → α → Prop) (old new : Array α) : Prop :=
  ∀ (place : Nat) (x : α), old[place]? = some x → ∃ y, new[place]? = some y ∧ kept x y

namespace Continues

variable {α : Type} {kept : α → α → Prop} {first second third : Array α}

theorem refl (hkept : ∀ x, kept x x) (xs : Array α) : Continues kept xs xs :=
  fun _ x hx => ⟨x, hx, hkept x⟩

theorem trans (hkept : ∀ {x y z}, kept x y → kept y z → kept x z)
    (h : Continues kept first second) (k : Continues kept second third) :
    Continues kept first third := by
  intro place x hx
  obtain ⟨y, hy, hxy⟩ := h place x hx
  obtain ⟨z, hz, hyz⟩ := k place y hy
  exact ⟨z, hz, hkept hxy hyz⟩

theorem push (hkept : ∀ x, kept x x) (xs : Array α) (new : α) :
    Continues kept xs (xs.push new) := by
  intro place x hx
  obtain ⟨hlt, -⟩ := Array.getElem?_eq_some_iff.mp hx
  refine ⟨x, ?_, hkept x⟩
  rw [Array.getElem?_push, if_neg (Nat.ne_of_lt hlt), hx]

theorem modify (hkept : ∀ x, kept x x) (xs : Array α) (place : Nat) {change : α → α}
    (hchange : ∀ x, kept x (change x)) : Continues kept xs (xs.modify place change) := by
  intro other x hx
  rw [Array.getElem?_modify, hx]
  split
  · exact ⟨change x, rfl, hchange x⟩
  · exact ⟨x, rfl, hkept x⟩

theorem map_isPrefix {β : Type} {view : α → β} (h : Continues kept first second)
    (hview : ∀ {x y}, kept x y → view y = view x) :
    first.toList.map view <+: second.toList.map view := by
  rw [List.prefix_iff_getElem?]
  intro place hplace
  rw [List.length_map, Array.length_toList] at hplace
  obtain ⟨y, hy, hkept⟩ := h place _ (Array.getElem?_eq_getElem hplace)
  rw [List.getElem?_map, Array.getElem?_toList, hy, Option.map_some, hview hkept]
  simp

theorem isPrefix (h : Continues Eq first second) : first.toList <+: second.toList := by
  have hsame : ∀ {x y : α}, x = y → id y = id x := fun heq => heq.symm
  simpa using h.map_isPrefix hsame

end Continues

namespace Graph

/-- The same node, which does not leave its group. -/
structure Node.Keeps (old new : Node) : Prop where
  id : new.id = old.id
  group : ∀ name, old.group = some name → new.group = some name

/-- The same record, with members behind those that it had. -/
structure Subgraph.Keeps (old new : Subgraph) : Prop where
  id : new.id = old.id
  nodes : old.nodes.toList <+: new.nodes.toList

theorem Node.Keeps.refl (node : Node) : node.Keeps node :=
  ⟨rfl, fun _ h => h⟩

theorem Node.Keeps.trans {first second third : Node} (h : first.Keeps second)
    (k : second.Keeps third) : first.Keeps third :=
  ⟨k.id.trans h.id, fun name hname => k.group name (h.group name hname)⟩

theorem Node.Keeps.join {old new : Node} (h : old.Keeps new) (group : Option String) :
    old.Keeps (new.join group) where
  id := h.id
  group name hname := by
    rw [Node.join, h.group name hname, Option.some_or]

theorem Subgraph.Keeps.refl (record : Subgraph) : record.Keeps record :=
  ⟨rfl, List.prefix_rfl⟩

theorem Subgraph.Keeps.trans {first second third : Subgraph} (h : first.Keeps second)
    (k : second.Keeps third) : first.Keeps third :=
  ⟨k.id.trans h.id, h.nodes.trans k.nodes⟩

/-- Of the old graph the new one has every node, link and record at its place.  Links stay as they are,
nodes do not leave their groups, and members of records stay in front of those that come later. -/
structure Grows (old new : Graph) : Prop where
  nodeIds : old.nodes.toList.map Node.id <+: new.nodes.toList.map Node.id
  groups : ∀ (place : Nat) (node : Node) (name : String), old.nodes[place]? = some node →
    node.group = some name → ∃ later, new.nodes[place]? = some later ∧ later.group = some name
  links : old.links.toList <+: new.links.toList
  recordIds : old.subgraphs.toList.map Subgraph.id <+: new.subgraphs.toList.map Subgraph.id
  members : ∀ (place : Nat) (record : Subgraph), old.subgraphs[place]? = some record →
    ∃ later, new.subgraphs[place]? = some later ∧ record.nodes.toList <+: later.nodes.toList
  directed : new.directed = old.directed
  strict : new.strict = old.strict
  id : new.id = old.id

/-- Nothing is on a path. -/
structure Unmarked (graph : Graph) : Prop where
  nodes : ∀ node ∈ graph.nodes, node.onPath = false ∧ node.pathInvalid = false
  links : ∀ link ∈ graph.links, link.onPath = false

/-- What a step of the assembly may do to a graph, told place by place. -/
structure Enlarges (old new : Graph) : Prop where
  nodes : Continues Node.Keeps old.nodes new.nodes
  links : Continues Eq old.links new.links
  subgraphs : Continues Subgraph.Keeps old.subgraphs new.subgraphs
  directed : new.directed = old.directed
  strict : new.strict = old.strict
  id : new.id = old.id

namespace Enlarges

variable {first second third graph : Graph}

theorem refl (graph : Graph) : graph.Enlarges graph where
  nodes := .refl Node.Keeps.refl _
  links := .refl (fun _ => rfl) _
  subgraphs := .refl Subgraph.Keeps.refl _
  directed := rfl
  strict := rfl
  id := rfl

theorem trans (h : first.Enlarges second) (k : second.Enlarges third) : first.Enlarges third where
  nodes := .trans Node.Keeps.trans h.nodes k.nodes
  links := .trans Eq.trans h.links k.links
  subgraphs := .trans Subgraph.Keeps.trans h.subgraphs k.subgraphs
  directed := k.directed.trans h.directed
  strict := k.strict.trans h.strict
  id := k.id.trans h.id

theorem of_nodes {nodes : Array Node} (h : Continues Node.Keeps graph.nodes nodes) :
    graph.Enlarges { graph with nodes } :=
  { refl graph with nodes := h }

theorem of_links {links : Array Link} (h : Continues Eq graph.links links) :
    graph.Enlarges { graph with links } :=
  { refl graph with links := h }

theorem of_subgraphs {subgraphs : Array Subgraph}
    (h : Continues Subgraph.Keeps graph.subgraphs subgraphs) :
    graph.Enlarges { graph with subgraphs } :=
  { refl graph with subgraphs := h }

theorem grows (h : first.Enlarges second) : first.Grows second where
  nodeIds := h.nodes.map_isPrefix Node.Keeps.id
  groups place node name hnode hname := by
    obtain ⟨later, hlater, hkeeps⟩ := h.nodes place node hnode
    exact ⟨later, hlater, hkeeps.group name hname⟩
  links := h.links.isPrefix
  recordIds := h.subgraphs.map_isPrefix Subgraph.Keeps.id
  members place record hrecord := by
    obtain ⟨later, hlater, hkeeps⟩ := h.subgraphs place record hrecord
    exact ⟨later, hlater, hkeeps.nodes⟩
  directed := h.directed
  strict := h.strict
  id := h.id

end Enlarges

end Graph

namespace Assembly

variable (assembly : Assembly)

theorem enlarges_updateNode (id : String) {change : Graph.Node → Graph.Node}
    (hchange : ∀ node : Graph.Node, node.Keeps (change node)) :
    assembly.graph.Enlarges (assembly.updateNode id change).graph := by
  have hslot : assembly.graph.Enlarges (assembly.slot id).2.graph := by
    unfold slot
    split
    · exact .refl _
    · exact .of_nodes (.push Graph.Node.Keeps.refl _ _)
  exact hslot.trans (.of_nodes (.modify Graph.Node.Keeps.refl _ _ hchange))

theorem enlarges_setDefaults (subject : Subject) (attributes : Option AttributeList) :
    assembly.graph.Enlarges (assembly.setDefaults subject attributes).graph := by
  cases subject <;> exact .refl _

theorem enlarges_addLink (attributes : Option AttributeList) (source target : String) :
    assembly.graph.Enlarges (assembly.addLink attributes source target).graph := by
  have hpush : ∀ link, assembly.graph.Enlarges (assembly.pushLink link).graph :=
    fun link => .of_links (.push (fun _ => rfl) _ link)
  unfold addLink
  simp only
  split
  · split
    · exact .refl _
    · exact hpush _
  · exact hpush _

theorem enlarges_subgraphSlot (name : String) :
    assembly.graph.Enlarges (assembly.subgraphSlot name).2.graph := by
  unfold subgraphSlot
  split
  · exact .refl _
  · exact .of_subgraphs (.push Graph.Subgraph.Keeps.refl _ _)

theorem enlarges_addMember (place : Nat) (id : String) :
    assembly.graph.Enlarges (assembly.addMember place id).graph := by
  unfold addMember
  split
  · exact .refl _
  · refine .of_subgraphs (.modify Graph.Subgraph.Keeps.refl _ _ fun record => ⟨rfl, ?_⟩)
    rw [Array.toList_push]
    exact List.prefix_append _ _

theorem enlarges_setSubgraph (place : Nat) (key value : String) :
    assembly.graph.Enlarges (assembly.setSubgraph place key value).graph := by
  refine .of_subgraphs (.modify Graph.Subgraph.Keeps.refl _ _ fun record => ?_)
  exact ⟨record.id_set key value, (record.nodes_set key value).symm ▸ List.prefix_rfl⟩

theorem enlarges_foldl {α : Type} {step : Assembly → α → Assembly}
    (hstep : ∀ (assembly : Assembly) x, assembly.graph.Enlarges (step assembly x).graph)
    (xs : List α) :
    assembly.graph.Enlarges (xs.foldl step assembly).graph :=
  List.foldlRecOn (motive := fun new => assembly.graph.Enlarges new.graph) xs step (.refl _)
    fun new h x _ => h.trans (hstep new x)

theorem enlarges_recordSubgraph (name : String) (ids : List String)
    (statements : List Statement) :
    assembly.graph.Enlarges (assembly.recordSubgraph name ids statements).graph := by
  let place := (assembly.subgraphSlot name).1
  have hslot := assembly.enlarges_subgraphSlot name
  have hmembers := hslot.trans (enlarges_foldl _
    (fun assembly id => assembly.enlarges_addMember place id) ids)
  exact hmembers.trans (enlarges_foldl _ (fun assembly (entry : String × String) =>
    assembly.enlarges_setSubgraph place entry.1 entry.2) _)

theorem enlarges_perform (action : Action) :
    assembly.graph.Enlarges (assembly.perform action).graph := by
  have hset : ∀ (old new : Graph.Node) (key value : String), old.Keeps new →
      old.Keeps (new.set key value) := by
    intro old new key value h
    exact ⟨(new.id_set key value).trans h.id, fun name hname =>
      (new.group_set key value).trans (h.group name hname)⟩
  cases action with
  | describe id attributes group =>
      refine assembly.enlarges_updateNode id fun node => Graph.Node.Keeps.join ?_ group
      exact Graph.Node.forall_setAll (hset node)
        (Graph.Node.forall_setAll (hset node) (.refl node) _) _
  | mention id group =>
      refine assembly.enlarges_updateNode id fun node => Graph.Node.Keeps.join ?_ group
      exact Graph.Node.forall_fillIn (hset node) (.refl node) _
  | setDefaults subject attributes => exact assembly.enlarges_setDefaults subject attributes
  | link attributes source target => exact assembly.enlarges_addLink attributes source target
  | record name ids statements => exact assembly.enlarges_recordSubgraph name ids statements

theorem enlarges_process (statements : List Statement) (group : Option String) :
    assembly.graph.Enlarges (assembly.process statements group).2.graph := by
  rw [process_eq]
  exact assembly.enlarges_foldl enlarges_perform _

/-- No action marks a link. -/
theorem linksUnmarked_perform {assembly : Assembly}
    (h : ∀ link ∈ assembly.graph.links, link.onPath = false) (action : Action) :
    ∀ link ∈ (assembly.perform action).graph.links, link.onPath = false := by
  cases action with
  | describe _ _ _ | mention _ _ | setDefaults _ _ | record _ _ _ =>
      rw [show (assembly.perform _).graph.links = assembly.graph.links from
        congrArg LinkPart.links (linkPart_perform rfl)]
      exact h
  | link attributes source target =>
      have hnew : (assembly.newLink attributes source target).onPath = false := by
        rw [newLink, Graph.Link.onPath_setAll, Graph.Link.onPath_setAll]
      have hpush : ∀ link ∈ (assembly.pushLink (assembly.newLink attributes source target)).graph.links,
          link.onPath = false := by
        intro link hmem
        rcases Array.mem_push.mp hmem with hmem | rfl
        · exact h link hmem
        · exact hnew
      cases hstrict : assembly.graph.strict with
      | false =>
          rw [perform, addLink_of_loose hstrict]
          exact hpush
      | true =>
          rw [perform, addLink_of_strict hstrict]
          split
          · exact h
          · exact hpush

theorem unmarked_processAll (directed strict : Bool) (id : Option String)
    (calls : List (List Statement × Option String)) :
    ((start directed strict id).processAll calls).graph.Unmarked := by
  rw [processAll_eq]
  refine ⟨fun node hmem => unmarked_performAll directed strict id _ hmem, ?_⟩
  refine List.foldlRecOn
    (motive := fun new => ∀ link ∈ new.graph.links, link.onPath = false) _ perform ?_
    fun new h action _ => linksUnmarked_perform h action
  intro link hmem
  exact absurd hmem (Array.not_mem_empty link)

/-- Whatever has been taken before, taking statements makes a graph grow, and marks nothing in it. -/
theorem grows_process (directed strict : Bool) (id : Option String)
    (calls : List (List Statement × Option String)) (statements : List Statement)
    (group : Option String) :
    ((start directed strict id).processAll calls).graph.Grows
        (((start directed strict id).processAll calls).process statements group).2.graph ∧
      (((start directed strict id).processAll calls).process statements group).2.graph.Unmarked := by
  refine ⟨(enlarges_process _ statements group).grows, ?_⟩
  have h := unmarked_processAll directed strict id (calls ++ [(statements, group)])
  rw [processAll, List.foldl_append] at h
  exact h

end Assembly

end DotGraph
