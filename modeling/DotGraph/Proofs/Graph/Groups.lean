import DotGraph.Proofs.Graph.Merging
import DotGraph.Proofs.Graph.Nodes

namespace DotGraph

/-! The groups of nodes, told from the tree, and how they agree with the records. -/

open DotGraph.Tree

/-- The group that an action puts a node into. -/
def Action.group? (id : String) : Action → Option String
  | .describe other _ group | .mention other group => if other = id then group else none
  | .setDefaults _ _ | .link _ _ _ | .record _ _ _ => none

/-- The innermost name around a node that occurs. -/
def Tree.Event.group? (id : String) : Event → Option String
  | .node around other => if other = id then groupIn around else none
  | .assign _ _ _ | .close _ _ => none

theorem tells_group (id : String) : Tells (Action.group? id) (Event.group? id) where
  describe _ _ _ := rfl
  mention _ _ := rfl
  setDefaults _ _ := rfl
  link _ _ _ := rfl
  record _ _ _ _ := rfl
  assign _ _ _ := rfl
  close _ _ _ := rfl

namespace Graph

theorem Node.group_set (node : Node) (key value : String) :
    (node.set key value).group = node.group := by
  unfold Node.set
  split <;> rfl

theorem Node.group_setAll (node : Node) (entries : List (String × String)) :
    (node.setAll entries).group = node.group :=
  Node.forall_setAll (P := fun new => new.group = node.group)
    (fun new key value h => (new.group_set key value).trans h) rfl entries

theorem Node.group_fillIn (node : Node) (entries : List (String × String)) :
    (node.fillIn entries).group = node.group :=
  Node.forall_fillIn (P := fun new => new.group = node.group)
    (fun new key value h => (new.group_set key value).trans h) rfl entries

end Graph

namespace Assembly

variable {assembly : Assembly}

/-- A node stays in the first group that an action puts it into. -/
theorem Indexed.group_perform (h : assembly.Indexed) (action : Action) (id : String) :
    ((assembly.perform action).nodeOrNew id).group =
      (assembly.nodeOrNew id).group.or (action.group? id) := by
  have hkeep : ∀ {new : Assembly}, new.nodePart = assembly.nodePart →
      (new.nodeOrNew id).group = (assembly.nodeOrNew id).group.or none := by
    intro new hpart
    rw [nodeOrNew_congr hpart, Option.or_none]
  have hupdate : ∀ (other : String) (group : Option String)
      (change : Graph.Node → Graph.Node), (∀ node, (change node).id = node.id) →
      (∀ node, (change node).group = node.group.or group) →
      ((assembly.updateNode other change).nodeOrNew id).group =
        (assembly.nodeOrNew id).group.or (if other = id then group else none) := by
    intro other group change hid hgroup
    rw [h.nodeOrNew_updateNode hid]
    by_cases heq : id = other
    · rw [if_pos heq, if_pos heq.symm, hgroup, heq]
    · rw [if_neg heq, if_neg (Ne.symm heq), Option.or_none]
  cases action with
  | describe other attributes group =>
      refine hupdate other group _ (fun node => by simp) fun node => ?_
      rw [Graph.Node.join, Graph.Node.group_setAll, Graph.Node.group_setAll]
  | mention other group =>
      refine hupdate other group _ (fun node => by simp) fun node => ?_
      rw [Graph.Node.join, Graph.Node.group_fillIn]
  | setDefaults subject _ => cases subject <;> exact (Option.or_none).symm
  | link _ _ _ => exact hkeep (nodePart_addLink _ _ _ _)
  | record _ _ _ => exact hkeep (nodePart_recordSubgraph _ _ _ _)

theorem Indexed.group_performAll (h : assembly.Indexed) (actions : List Action) (id : String) :
    ((assembly.performAll actions).nodeOrNew id).group =
      (assembly.nodeOrNew id).group.or (actions.findSome? (Action.group? id)) := by
  induction actions generalizing assembly with
  | nil => exact (Option.or_none).symm
  | cons action actions ih =>
      refine (ih (h.perform action)).trans ?_
      rw [h.group_perform, List.findSome?_cons, Option.or_assoc]
      cases action.group? id <;> rfl

end Assembly

namespace Tree.Document

variable {document : Document}

theorem findSome?_group (document : Document) (id : String) :
    document.actions.findSome? (Action.group? id) =
      document.events.findSome? (Event.group? id) := by
  rw [← List.head?_filterMap, ← List.head?_filterMap, (tells_group id).filterMap_document]

theorem group_eq {node : Graph.Node} (h : node ∈ document.toGraph.nodes) :
    node.group = document.events.findSome? (Event.group? node.id) := by
  have hstart := Assembly.indexed_start document.directed document.strict
    (document.ident.map Ident.name)
  have hindexed := hstart.performAll document.actions
  rw [document.toGraph_eq] at h
  have hgroup := hstart.group_performAll document.actions node.id
  rw [hindexed.nodeOrNew_of_mem h, document.findSome?_group] at hgroup
  exact hgroup

theorem recordsConsistent (document : Document) :
    ((Assembly.start document.directed document.strict
      (document.ident.map Ident.name)).performAll document.actions).RecordsConsistent :=
  (Assembly.consistent_start document.directed document.strict
    (document.ident.map Ident.name)).records.performAll document.actions

theorem subgraph?_eq_some_iff {name : String} {record : Graph.Subgraph} :
    document.toGraph.subgraph? name = some record ↔
      record ∈ document.toGraph.subgraphs ∧ record.id = name := by
  rw [document.toGraph_eq]
  constructor
  · intro hfound
    exact ⟨Array.mem_of_find?_eq_some hfound, by simpa using Array.find?_some hfound⟩
  · rintro ⟨hmem, rfl⟩
    exact document.recordsConsistent.subgraphIndex.find?_of_mem hmem

/-- A record lists the nodes inside the subgraphs of its name, of which there is one at least. -/
theorem mem_nodes_iff {record : Graph.Subgraph} (h : record ∈ document.toGraph.subgraphs) :
    document.bodies record.id ≠ [] ∧
      ∀ id, id ∈ record.nodes ↔ id ∈ document.nodesIn record.id := by
  have hfound := subgraph?_eq_some_iff.mpr ⟨h, rfl⟩
  rw [document.subgraph?_eq_merged, Graph.Subgraph.merged_said] at hfound
  obtain ⟨hbodies, hrecord⟩ := Option.ite_none_left_eq_some.mp hfound
  refine ⟨by simpa using hbodies, fun id => ?_⟩
  rw [← document.mem_flatMap_bodies, ← Option.some.inj hrecord]
  simp only [Graph.Subgraph.recording, List.mem_toArray, List.mem_eraseDups]

theorem exists_record {name : String} {body : Subgraph} (h : body ∈ document.bodies name) :
    ∃ record ∈ document.toGraph.subgraphs, record.id = name := by
  have hfound := document.subgraph?_eq_merged name
  rw [Graph.Subgraph.merged_said, if_neg (by simpa using List.ne_nil_of_mem h)] at hfound
  exact ⟨_, subgraph?_eq_some_iff.mp hfound⟩

theorem groupIn_eq_none_iff {around : List Subgraph} :
    groupIn around = none ↔ ∀ name, ¬ Encloses name around := by
  rw [groupIn, List.findSome?_eq_none_iff]
  constructor
  · rintro hnone name ⟨body, hmem, hname⟩
    rw [hnone body hmem] at hname
    nomatch hname
  · intro hnone body hmem
    cases hname : body.name? with
    | none => rfl
    | some name => exact absurd ⟨body, hmem, hname⟩ (hnone name)

theorem mem_nodesIn_of_group?_eq_some {event : Event} (hmem : event ∈ document.events)
    {id name : String} (h : event.group? id = some name) : id ∈ document.nodesIn name := by
  cases event with
  | assign _ _ _ | close _ _ => nomatch h
  | node around other =>
      obtain ⟨rfl, hgroup⟩ := Option.ite_none_right_eq_some.mp h
      obtain ⟨body, hbody, hname⟩ := List.exists_of_findSome?_eq_some hgroup
      exact Event.mem_filterMap_nodeIn?.mpr ⟨around, hmem, body, hbody, hname⟩

theorem exists_group?_of_mem_nodesIn {id name : String} (h : id ∈ document.nodesIn name) :
    ∃ event ∈ document.events, event.group? id ≠ none := by
  obtain ⟨around, hmem, hname⟩ := Event.mem_filterMap_nodeIn?.mp h
  refine ⟨.node around id, hmem, fun hnone => ?_⟩
  rw [Event.group?, if_pos rfl, groupIn_eq_none_iff] at hnone
  exact hnone name hname

theorem group_eq_none_iff {node : Graph.Node} (h : node ∈ document.toGraph.nodes) :
    node.group = none ↔ ∀ name, node.id ∉ document.nodesIn name := by
  rw [group_eq h, List.findSome?_eq_none_iff]
  constructor
  · intro hnone name hmem
    obtain ⟨event, hevent, hsome⟩ := exists_group?_of_mem_nodesIn hmem
    exact hsome (hnone event hevent)
  · intro hnone event hevent
    cases hgroup : event.group? node.id with
    | none => rfl
    | some name => exact absurd (mem_nodesIn_of_group?_eq_some hevent hgroup) (hnone name)

theorem mem_nodesIn_of_group {node : Graph.Node} (h : node ∈ document.toGraph.nodes)
    {name : String} (hgroup : node.group = some name) : node.id ∈ document.nodesIn name := by
  rw [group_eq h] at hgroup
  obtain ⟨event, hevent, hname⟩ := List.exists_of_findSome?_eq_some hgroup
  exact mem_nodesIn_of_group?_eq_some hevent hname

theorem exists_record_of_mem_nodesIn {id name : String} (h : id ∈ document.nodesIn name) :
    ∃ record ∈ document.toGraph.subgraphs, record.id = name ∧ id ∈ record.nodes := by
  obtain ⟨body, hbody, -⟩ := List.mem_flatMap.mp ((document.mem_flatMap_bodies name id).mpr h)
  obtain ⟨record, hmem, rfl⟩ := exists_record hbody
  exact ⟨record, hmem, rfl, ((mem_nodes_iff hmem).2 id).mpr h⟩

theorem exists_node_of_mem_nodesIn {id name : String} (h : id ∈ document.nodesIn name) :
    ∃ node ∈ document.toGraph.nodes, node.id = id ∧ node.group ≠ none := by
  obtain ⟨around, hmem, -⟩ := Event.mem_filterMap_nodeIn?.mp h
  obtain ⟨node, hnode, rfl⟩ :=
    document.exists_node (document.recounts_events.mem_ids.mpr ⟨around, hmem⟩)
  exact ⟨node, hnode, rfl, fun hnone => (group_eq_none_iff hnode).mp hnone name h⟩

theorem recordIds_nodup (document : Document) :
    (document.toGraph.subgraphs.map Graph.Subgraph.id).toList.Nodup := by
  rw [document.toGraph_eq]
  exact document.recordsConsistent.subgraphIndex.nodup

theorem exists_record_iff {name : String} :
    (∃ record ∈ document.toGraph.subgraphs, record.id = name) ↔ document.bodies name ≠ [] := by
  constructor
  · rintro ⟨record, hmem, rfl⟩
    exact (mem_nodes_iff hmem).1
  · intro hbodies
    obtain ⟨body, hbody⟩ := List.exists_mem_of_ne_nil _ hbodies
    exact exists_record hbody

/-- Groups and records agree.  A node is in the innermost named subgraph around it where it first
occurs inside a named one. -/
theorem groups_agree (document : Document) :
    (∀ node ∈ document.toGraph.nodes,
      node.group = document.events.findSome? (Event.group? node.id) ∧
      (node.group = none ↔ ∀ name, node.id ∉ document.nodesIn name) ∧
      ∀ name, node.group = some name →
        ∃ record ∈ document.toGraph.subgraphs, record.id = name ∧ node.id ∈ record.nodes) ∧
    (∀ record ∈ document.toGraph.subgraphs, ∀ id ∈ record.nodes,
      ∃ node ∈ document.toGraph.nodes, node.id = id ∧ node.group ≠ none) ∧
    (document.toGraph.subgraphs.map Graph.Subgraph.id).toList.Nodup ∧
    (∀ name, (∃ record ∈ document.toGraph.subgraphs, record.id = name) ↔
      document.bodies name ≠ []) ∧
    ∀ around body, .close around body ∈ document.events →
      ∀ outer ∈ around, ∀ name, outer.name? = some name →
        ∃ record ∈ document.toGraph.subgraphs, record.id = name ∧
          ∀ id ∈ body.occurrences, id ∈ record.nodes := by
  refine ⟨fun node hnode => ⟨group_eq hnode, group_eq_none_iff hnode, fun name hgroup => ?_⟩,
    fun record hmem id hid => ?_, document.recordIds_nodup, fun name => exists_record_iff,
    fun around body hclose outer houter name hname => ?_⟩
  · exact exists_record_of_mem_nodesIn (mem_nodesIn_of_group hnode hgroup)
  · exact exists_node_of_mem_nodesIn (((mem_nodes_iff hmem).2 id).mp hid)
  · obtain ⟨record, hmem, rfl⟩ := exists_record (mem_bodies_of_around hclose houter hname)
    refine ⟨record, hmem, rfl, fun id hid => ((mem_nodes_iff hmem).2 id).mpr ?_⟩
    exact mem_nodesIn_of_close hclose houter hname hid

private def identOf (name : String) : Ident := ⟨.nowhere, name, .bare⟩

private def memberOf (name : String) : Statement :=
  .node .nowhere ⟨.nowhere, identOf name, none⟩ none

private def blockOf (name : Option String) (statements : List Statement) : Statement :=
  .subgraph ⟨.nowhere, name.map identOf, statements⟩

/-- A node that occurs outside before it occurs in braces without a name, and a body inside
another. -/
private def braced : Document :=
  ⟨.nowhere, false, true, none,
    [memberOf "a", blockOf (some "s") [blockOf none [memberOf "a"],
      blockOf (some "t") [memberOf "b"]]]⟩

theorem groups_agree_braced :
    ∃ a ∈ braced.toGraph.nodes, ∃ b ∈ braced.toGraph.nodes,
      a.id = "a" ∧ b.id = "b" ∧ a.group = some "s" ∧ b.group = some "t" ∧
      ∃ record ∈ braced.toGraph.subgraphs, record.id = "s" ∧ a.id ∈ record.nodes := by
  obtain ⟨a, ha, hidA⟩ :=
    braced.exists_node (show "a" ∈ occurrencesOfAll braced.statements by decide)
  obtain ⟨b, hb, hidB⟩ :=
    braced.exists_node (show "b" ∈ occurrencesOfAll braced.statements by decide)
  have hgroupA : a.group = some "s" :=
    ((groups_agree braced).1 a ha).1.trans (by rw [hidA]; decide)
  have hgroupB : b.group = some "t" :=
    ((groups_agree braced).1 b hb).1.trans (by rw [hidB]; decide)
  exact ⟨a, ha, b, hb, hidA, hidB, hgroupA, hgroupB,
    ((groups_agree braced).1 a ha).2.2 "s" hgroupA⟩

end Tree.Document

end DotGraph
