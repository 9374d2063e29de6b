import DotGraph.Proofs.Graph.Actions

namespace DotGraph.Assembly

/-! The nodes of a graph in the making: each is found by its id, and a change of one leaves all others
as they are. -/

open DotGraph.Tree

variable {assembly : Assembly}

/-- The index knows the place of each node. -/
def Indexed (assembly : Assembly) : Prop :=
  Indexes assembly.nodeIndex assembly.nodeIds

/-- The node with an id, or the one that would be added for it. -/
def nodeOrNew (assembly : Assembly) (id : String) : Graph.Node :=
  (assembly.graph.node? id).getD (.named id)

theorem id_nodeOrNew (assembly : Assembly) (id : String) : (assembly.nodeOrNew id).id = id := by
  have hid : ∀ node, assembly.graph.node? id = some node → node.id = id := by
    intro node hnode
    simpa using Array.find?_some hnode
  unfold nodeOrNew
  cases hnode : assembly.graph.node? id with
  | none => rfl
  | some node => exact hid node hnode

theorem Indexed.node?_eq (h : assembly.Indexed) (id : String) :
    assembly.graph.node? id = assembly.nodeIndex[id]?.bind (assembly.graph.nodes[·]?) :=
  Indexes.find?_eq h id

theorem Indexed.slot (h : assembly.Indexed) (id : String) : (assembly.slot id).2.Indexed := by
  unfold Assembly.slot
  split
  · exact h
  · rename_i hnew
    exact Indexes.push_map h (x := .named id) hnew

theorem nodeIndex_slot (assembly : Assembly) (id : String) :
    (assembly.slot id).2.nodeIndex[id]? = some (assembly.slot id).1 := by
  unfold slot
  split
  · assumption
  · exact Std.HashMap.getElem?_insert_self

theorem nodeOrNew_slot (assembly : Assembly) (id other : String) :
    (assembly.slot id).2.nodeOrNew other = assembly.nodeOrNew other := by
  unfold slot
  split
  · rfl
  · simp only [nodeOrNew, Graph.node?, Array.find?_push]
    cases assembly.graph.nodes.find? fun node => node.id = other with
    | some node => rfl
    | none =>
        by_cases h : id = other
        · simp [Graph.Node.named, h]
        · simp [Graph.Node.named, h]

/-- The assembly with the node at a place changed. -/
def modifyNode (assembly : Assembly) (place : Nat) (change : Graph.Node → Graph.Node) : Assembly :=
  { assembly with
    graph := { assembly.graph with nodes := assembly.graph.nodes.modify place change } }

theorem updateNode_eq (assembly : Assembly) (id : String) (change : Graph.Node → Graph.Node) :
    assembly.updateNode id change =
      (assembly.slot id).2.modifyNode (assembly.slot id).1 change := rfl

section
variable {change : Graph.Node → Graph.Node} (hid : ∀ node, (change node).id = node.id)
include hid

theorem Indexed.modifyNode (h : assembly.Indexed) (place : Nat) :
    (assembly.modifyNode place change).Indexed := by
  have hids : (assembly.modifyNode place change).nodeIds = assembly.nodeIds :=
    map_modify_of_eq _ _ _ _ hid
  unfold Indexed
  rw [hids]
  exact h

theorem Indexed.updateNode (h : assembly.Indexed) (id : String) :
    (assembly.updateNode id change).Indexed :=
  (h.slot id).modifyNode hid _

theorem Indexed.nodeOrNew_modifyNode (h : assembly.Indexed) {id : String} {place : Nat}
    (hplace : assembly.nodeIndex[id]? = some place) (other : String) :
    (assembly.modifyNode place change).nodeOrNew other =
      if other = id then change (assembly.nodeOrNew id) else assembly.nodeOrNew other := by
  obtain ⟨node, hnode, _⟩ := Indexes.exists_of_getElem? h hplace
  have hfound : assembly.graph.node? id = some node := by
    rw [h.node?_eq, hplace, Option.bind_some, hnode]
  have hchanged : (assembly.modifyNode place change).graph.node? other =
      if other = id then (assembly.graph.node? id).map change else assembly.graph.node? other :=
    Indexes.find?_modify h hid hplace other
  rw [nodeOrNew, hchanged]
  split
  · rw [nodeOrNew, hfound]
    rfl
  · rfl

/-- A change of one node leaves all others as they are. -/
theorem Indexed.nodeOrNew_updateNode (h : assembly.Indexed) (id other : String) :
    (assembly.updateNode id change).nodeOrNew other =
      if other = id then change (assembly.nodeOrNew id) else assembly.nodeOrNew other := by
  rw [updateNode_eq, (h.slot id).nodeOrNew_modifyNode hid (nodeIndex_slot assembly id),
    nodeOrNew_slot, nodeOrNew_slot]

end

theorem Indexed.nodeOrNew_of_mem (h : assembly.Indexed) {node : Graph.Node}
    (hmem : node ∈ assembly.graph.nodes) : assembly.nodeOrNew node.id = node := by
  rw [nodeOrNew, Graph.node?, Indexes.find?_of_mem h hmem, Option.getD_some]

/-- The nodes stand in the order of their ids. -/
theorem Indexed.map_nodes {α : Type} (h : assembly.Indexed) (view : Graph.Node → α) :
    assembly.graph.nodes.map view =
      assembly.nodeIds.map fun id => view (assembly.nodeOrNew id) := by
  rw [nodeIds, Array.map_map]
  refine Array.map_congr_left fun node hmem => ?_
  exact congrArg view (h.nodeOrNew_of_mem hmem).symm

/-- What an assembly holds of its nodes. -/
structure NodePart where
  nodes : Array Graph.Node
  nodeIndex : Std.HashMap String Nat
  nodeDefaults : Attributes

def nodePart (assembly : Assembly) : NodePart :=
  ⟨assembly.graph.nodes, assembly.nodeIndex, assembly.nodeDefaults⟩

theorem nodePart_addLink (assembly : Assembly) (attributes : Option AttributeList)
    (source target : String) :
    (assembly.addLink attributes source target).nodePart = assembly.nodePart := by
  simp only [addLink]
  split
  · split <;> rfl
  · rfl

theorem nodePart_subgraphSlot (assembly : Assembly) (name : String) :
    (assembly.subgraphSlot name).2.nodePart = assembly.nodePart := by
  unfold subgraphSlot
  split <;> rfl

theorem nodePart_addMember (assembly : Assembly) (place : Nat) (id : String) :
    (assembly.addMember place id).nodePart = assembly.nodePart := by
  unfold addMember
  split <;> rfl

theorem nodePart_setSubgraph (assembly : Assembly) (place : Nat) (key value : String) :
    (assembly.setSubgraph place key value).nodePart = assembly.nodePart := rfl

theorem nodePart_foldl {α : Type} (xs : List α) {step : Assembly → α → Assembly}
    (hstep : ∀ assembly x, (step assembly x).nodePart = assembly.nodePart) (assembly : Assembly) :
    (xs.foldl step assembly).nodePart = assembly.nodePart :=
  List.foldlRecOn (motive := fun new => new.nodePart = assembly.nodePart) xs step rfl
    fun new h x _ => (hstep new x).trans h

theorem nodePart_recordSubgraph (assembly : Assembly) (name : String) (ids : List String)
    (statements : List Statement) :
    (assembly.recordSubgraph name ids statements).nodePart = assembly.nodePart := by
  let place := (assembly.subgraphSlot name).1
  have hentries := nodePart_foldl (assignments statements) fun assembly entry =>
    nodePart_setSubgraph assembly place entry.1 entry.2
  have hmembers := nodePart_foldl ids fun assembly id => nodePart_addMember assembly place id
  exact (hentries _).trans ((hmembers _).trans (nodePart_subgraphSlot assembly name))

theorem Indexed.congr {first second : Assembly} (h : first.Indexed)
    (k : second.nodePart = first.nodePart) : second.Indexed := by
  have hnodes : second.graph.nodes = first.graph.nodes := congrArg NodePart.nodes k
  have hindex : second.nodeIndex = first.nodeIndex := congrArg NodePart.nodeIndex k
  rw [Indexed, nodeIds, hnodes, hindex]
  exact h

theorem nodeOrNew_congr {first second : Assembly} (h : first.nodePart = second.nodePart)
    (id : String) : first.nodeOrNew id = second.nodeOrNew id := by
  have hnodes : first.graph.nodes = second.graph.nodes := congrArg NodePart.nodes h
  rw [nodeOrNew, Graph.node?, hnodes]
  rfl

theorem nodeDefaults_updateNode (assembly : Assembly) (id : String)
    (change : Graph.Node → Graph.Node) :
    (assembly.updateNode id change).nodeDefaults = assembly.nodeDefaults := by
  rw [updateNode_eq, modifyNode]
  unfold slot
  split <;> rfl

theorem Indexed.perform (h : assembly.Indexed) (action : Action) :
    (assembly.perform action).Indexed := by
  cases action with
  | describe id _ _ | mention id _ => exact h.updateNode (fun node => by simp) id
  | setDefaults subject _ => cases subject <;> exact h
  | link _ _ _ => exact h.congr (nodePart_addLink _ _ _ _)
  | record _ _ _ => exact h.congr (nodePart_recordSubgraph _ _ _ _)

theorem Indexed.performAll (h : assembly.Indexed) (actions : List Action) :
    (assembly.performAll actions).Indexed :=
  List.foldlRecOn (motive := Indexed) actions _ h fun _ h action _ => h.perform action

theorem indexed_start (directed strict : Bool) (name : Option String) :
    (start directed strict name).Indexed :=
  (consistent_start directed strict name).nodeIndex

section
variable {P : Graph.Node → Prop} (hset : ∀ node key value, P node → P (node.set key value))
include hset

/-- What is kept by setting a key and by joining a group is kept for all nodes. -/
theorem Indexed.forall_nodeOrNew_perform
    (hjoin : ∀ node group, P node → P (node.join group)) (h : assembly.Indexed)
    (hnodes : ∀ id, P (assembly.nodeOrNew id)) (action : Action) (id : String) :
    P ((assembly.perform action).nodeOrNew id) := by
  have hupdate : ∀ (other : String) (change : Graph.Node → Graph.Node),
      (∀ node, (change node).id = node.id) → (∀ node, P node → P (change node)) →
      P ((assembly.updateNode other change).nodeOrNew id) := by
    intro other change hid hchange
    rw [h.nodeOrNew_updateNode hid]
    split
    · exact hchange _ (hnodes other)
    · exact hnodes id
  cases action with
  | describe other attributes group =>
      refine hupdate other _ (fun node => by simp) fun node hnode => hjoin _ _ ?_
      exact Graph.Node.forall_setAll hset (Graph.Node.forall_setAll hset hnode _) _
  | mention other group =>
      refine hupdate other _ (fun node => by simp) fun node hnode => hjoin _ _ ?_
      exact Graph.Node.forall_fillIn hset hnode _
  | setDefaults subject _ => cases subject <;> exact hnodes id
  | link _ _ _ =>
      rw [Assembly.perform, nodeOrNew_congr (nodePart_addLink _ _ _ _)]
      exact hnodes id
  | record _ _ _ =>
      rw [Assembly.perform, nodeOrNew_congr (nodePart_recordSubgraph _ _ _ _)]
      exact hnodes id

theorem Indexed.forall_nodeOrNew_performAll
    (hjoin : ∀ node group, P node → P (node.join group)) (h : assembly.Indexed)
    (hnodes : ∀ id, P (assembly.nodeOrNew id)) (actions : List Action) :
    (assembly.performAll actions).Indexed ∧
      ∀ id, P ((assembly.performAll actions).nodeOrNew id) := by
  unfold Assembly.performAll
  induction actions generalizing assembly with
  | nil => exact ⟨h, hnodes⟩
  | cons action actions ih =>
      exact ih (h.perform action) (h.forall_nodeOrNew_perform hset hjoin hnodes action)

end

/-- No action marks a node. -/
theorem unmarked_performAll (directed strict : Bool) (name : Option String)
    (actions : List Action) {node : Graph.Node}
    (hmem : node ∈ ((start directed strict name).performAll actions).graph.nodes) :
    node.onPath = false ∧ node.pathInvalid = false := by
  have hset : ∀ (node : Graph.Node) (key value : String),
      node.onPath = false ∧ node.pathInvalid = false →
      (node.set key value).onPath = false ∧ (node.set key value).pathInvalid = false := by
    intro node key value hnode
    unfold Graph.Node.set
    split <;> exact hnode
  obtain ⟨hindexed, hnodes⟩ := (indexed_start directed strict name).forall_nodeOrNew_performAll
    hset (fun _ _ hnode => hnode) (fun _ => ⟨rfl, rfl⟩) actions
  rw [← hindexed.nodeOrNew_of_mem hmem]
  exact hnodes node.id

end DotGraph.Assembly
