import DotGraph.Graph.Assembly
import DotGraph.Proofs.Graph.Fields
import DotGraph.Proofs.Graph.Index

namespace DotGraph

/-! What an assembly keeps twice stays in step, and no operation loses a node. -/

open DotGraph.Tree

namespace Assembly

def nodeIds (assembly : Assembly) : Array String :=
  assembly.graph.nodes.map Graph.Node.id

def linkEnds (assembly : Assembly) : Array (String × String) :=
  assembly.graph.links.map Graph.Link.ends

def recordIds (assembly : Assembly) : Array String :=
  assembly.graph.subgraphs.map Graph.Subgraph.id

def recordNodes (assembly : Assembly) : Array (Array String) :=
  assembly.graph.subgraphs.map Graph.Subgraph.nodes

structure Consistent (assembly : Assembly) : Prop where
  nodeIds_nodup : assembly.nodeIds.toList.Nodup
  nodeIndex : Indexes assembly.nodeIndex assembly.nodeIds
  linkEnds : ∀ ends ∈ assembly.linkEnds,
    ends.1 ∈ assembly.nodeIds ∧ ends.2 ∈ assembly.nodeIds
  recordIds_nodup : assembly.recordIds.toList.Nodup
  subgraphIndex : Indexes assembly.subgraphIndex assembly.recordIds
  size_members : assembly.members.size = assembly.recordNodes.size
  members : ∀ (place : Nat) (set : Std.HashSet String) (ids : Array String),
    assembly.members[place]? = some set → assembly.recordNodes[place]? = some ids →
    Mirrors set ids
  recordNodes : ∀ ids ∈ assembly.recordNodes, ∀ id ∈ ids, id ∈ assembly.nodeIds
  linkPairs : assembly.graph.strict → ∀ ends, ends ∈ assembly.linkPairs ↔ ends ∈ assembly.linkEnds

section
variable (directed strict : Bool) (id : Option String)

theorem nodeIds_start : (start directed strict id).nodeIds = #[] := Array.map_empty

theorem linkEnds_start : (start directed strict id).linkEnds = #[] := Array.map_empty

theorem recordIds_start : (start directed strict id).recordIds = #[] := Array.map_empty

theorem recordNodes_start : (start directed strict id).recordNodes = #[] := Array.map_empty

theorem consistent_start : (start directed strict id).Consistent := by
  constructor
  · rw [nodeIds_start]
    exact List.nodup_nil
  · rw [nodeIds_start]
    exact Indexes.empty
  · rw [linkEnds_start]
    intro ends hmem
    exact absurd hmem (Array.not_mem_empty _)
  · rw [recordIds_start]
    exact List.nodup_nil
  · rw [recordIds_start]
    exact Indexes.empty
  · rw [recordNodes_start]
    rfl
  · intro place set ids hset
    simp [start] at hset
  · rw [recordNodes_start]
    intro ids hmem
    exact absurd hmem (Array.not_mem_empty _)
  · rw [linkEnds_start]
    intro _ ends
    simp [start]

end

/-- The two assemblies differ in attributes at most. -/
structure Alike (first second : Assembly) : Prop where
  nodeIds : second.nodeIds = first.nodeIds
  nodeIndex : second.nodeIndex = first.nodeIndex
  linkEnds : second.linkEnds = first.linkEnds
  linkPairs : second.linkPairs = first.linkPairs
  recordIds : second.recordIds = first.recordIds
  subgraphIndex : second.subgraphIndex = first.subgraphIndex
  recordNodes : second.recordNodes = first.recordNodes
  members : second.members = first.members
  strict : second.graph.strict = first.graph.strict

theorem Consistent.of_alike {first second : Assembly} (h : first.Consistent)
    (k : first.Alike second) : second.Consistent where
  nodeIds_nodup := by
    rw [k.nodeIds]
    exact h.nodeIds_nodup
  nodeIndex := by
    rw [k.nodeIndex, k.nodeIds]
    exact h.nodeIndex
  linkEnds := by
    rw [k.linkEnds, k.nodeIds]
    exact h.linkEnds
  recordIds_nodup := by
    rw [k.recordIds]
    exact h.recordIds_nodup
  subgraphIndex := by
    rw [k.subgraphIndex, k.recordIds]
    exact h.subgraphIndex
  size_members := by
    rw [k.members, k.recordNodes]
    exact h.size_members
  members := by
    rw [k.members, k.recordNodes]
    exact h.members
  recordNodes := by
    rw [k.recordNodes, k.nodeIds]
    exact h.recordNodes
  linkPairs := by
    rw [k.strict, k.linkPairs, k.linkEnds]
    exact h.linkPairs

/-- What a step leads to: a consistent assembly that has lost no node. -/
structure Extends (old new : Assembly) : Prop where
  consistent : new.Consistent
  nodeIds : ∀ id ∈ old.nodeIds, id ∈ new.nodeIds

namespace Extends

variable {first second third : Assembly}

theorem refl (h : first.Consistent) : first.Extends first :=
  ⟨h, fun _ hmem => hmem⟩

theorem trans (h : first.Extends second) (k : second.Extends third) : first.Extends third :=
  ⟨k.consistent, fun id hmem => k.nodeIds id (h.nodeIds id hmem)⟩

theorem of_alike (h : first.Consistent) (k : first.Alike second) : first.Extends second where
  consistent := h.of_alike k
  nodeIds := by
    rw [k.nodeIds]
    exact fun _ hmem => hmem

end Extends

variable {assembly : Assembly}

theorem extends_setDefaults (h : assembly.Consistent) (subject : Subject)
    (attributes : Option AttributeList) :
    assembly.Extends (assembly.setDefaults subject attributes) := by
  apply Extends.of_alike h
  cases subject <;> exact ⟨rfl, rfl, rfl, rfl, rfl, rfl, rfl, rfl, rfl⟩

theorem extends_slot (h : assembly.Consistent) (id : String) :
    assembly.Extends (assembly.slot id).2 ∧ id ∈ (assembly.slot id).2.nodeIds := by
  unfold slot
  split
  · rename_i place hplace
    exact ⟨.refl h, (h.nodeIndex.mem_iff id).mpr ⟨place, hplace⟩⟩
  · rename_i hnew
    have hindexes := h.nodeIndex.push_map (x := .named id) hnew
    have hpush : (assembly.graph.nodes.push (.named id)).map Graph.Node.id =
        assembly.nodeIds.push id := Array.map_push
    have hold : ∀ other ∈ assembly.nodeIds, other ∈ assembly.nodeIds.push id :=
      fun other hmem => Array.mem_push.mpr (.inl hmem)
    rw [← hpush] at hold
    refine ⟨⟨{ h with
      nodeIds_nodup := hindexes.nodup
      nodeIndex := hindexes
      linkEnds := ?_
      recordNodes := ?_ }, hold⟩, ?_⟩
    · intro ends hmem
      exact ⟨hold _ (h.linkEnds ends hmem).1, hold _ (h.linkEnds ends hmem).2⟩
    · intro ids hids other hother
      exact hold other (h.recordNodes ids hids other hother)
    · simp only [nodeIds, hpush]
      exact Array.mem_push_self

theorem alike_modifyNode (place : Nat) (change : Graph.Node → Graph.Node)
    (hid : ∀ node, (change node).id = node.id) :
    assembly.Alike { assembly with
      graph := { assembly.graph with nodes := assembly.graph.nodes.modify place change } } :=
  ⟨map_modify_of_eq _ _ _ _ hid, rfl, rfl, rfl, rfl, rfl, rfl, rfl, rfl⟩

theorem extends_updateNode (h : assembly.Consistent) (id : String)
    (change : Graph.Node → Graph.Node) (hid : ∀ node, (change node).id = node.id) :
    assembly.Extends (assembly.updateNode id change) ∧
      id ∈ (assembly.updateNode id change).nodeIds := by
  obtain ⟨hslot, hmem⟩ := extends_slot h id
  have hchange := Extends.of_alike hslot.consistent
    (alike_modifyNode (assembly.slot id).1 change hid)
  exact ⟨hslot.trans hchange, hchange.nodeIds id hmem⟩

theorem extends_describeNode (h : assembly.Consistent) (id : String)
    (attributes : Option AttributeList) (group : Option String) :
    assembly.Extends (assembly.describeNode id attributes group) ∧
      id ∈ (assembly.describeNode id attributes group).nodeIds := by
  apply extends_updateNode h
  intro node
  simp

theorem extends_mentionNode (h : assembly.Consistent) (id : String) (group : Option String) :
    assembly.Extends (assembly.mentionNode id group) ∧
      id ∈ (assembly.mentionNode id group).nodeIds := by
  apply extends_updateNode h
  intro node
  simp

theorem extends_mentionNodes (h : assembly.Consistent) (ids : List String)
    (group : Option String) :
    assembly.Extends (assembly.mentionNodes ids group) ∧
      ∀ id ∈ ids, id ∈ (assembly.mentionNodes ids group).nodeIds := by
  unfold mentionNodes
  induction ids generalizing assembly with
  | nil => exact ⟨.refl h, by simp⟩
  | cons id ids ih =>
      obtain ⟨hmention, hmem⟩ := extends_mentionNode h id group
      obtain ⟨hmore, hmems⟩ := ih hmention.consistent
      refine ⟨hmention.trans hmore, ?_⟩
      intro other hother
      cases hother with
      | head => exact hmore.nodeIds id hmem
      | tail _ hother => exact hmems other hother

theorem extends_pushLink (h : assembly.Consistent) {link : Graph.Link}
    {pairs : Std.HashSet (String × String)} (hsource : link.ends.1 ∈ assembly.nodeIds)
    (htarget : link.ends.2 ∈ assembly.nodeIds)
    (hpairs : assembly.graph.strict → pairs = assembly.linkPairs.insert link.ends) :
    assembly.Extends { assembly.pushLink link with linkPairs := pairs } := by
  have hpush : (assembly.graph.links.push link).map Graph.Link.ends =
      assembly.linkEnds.push link.ends := Array.map_push
  refine ⟨{ h with linkEnds := ?_, linkPairs := ?_ }, fun _ hmem => hmem⟩
  · intro ends hmem
    rw [Assembly.linkEnds, pushLink, hpush, Array.mem_push] at hmem
    cases hmem with
    | inl hmem => exact h.linkEnds ends hmem
    | inr heq =>
        rw [heq]
        exact ⟨hsource, htarget⟩
  · intro hstrict ends
    rw [Assembly.linkEnds, pushLink, hpush, hpairs hstrict]
    exact mem_insert_iff_mem_push (h.linkPairs hstrict) link.ends ends

theorem extends_addLink (h : assembly.Consistent) (attributes : Option AttributeList)
    {source target : String} (hsource : source ∈ assembly.nodeIds)
    (htarget : target ∈ assembly.nodeIds) :
    assembly.Extends (assembly.addLink attributes source target) := by
  have hends : (((({ source, target } : Graph.Link).setAll assembly.linkDefaults.entries).setAll
      (pairsOf attributes)).ends) = (source, target) := by
    rw [Graph.Link.ends_setAll, Graph.Link.ends_setAll]
    rfl
  unfold addLink
  simp only
  split
  · split
    · exact .of_alike h ⟨rfl, rfl, rfl, rfl, rfl, rfl, rfl, rfl, rfl⟩
    · apply extends_pushLink h
      · rwa [hends]
      · rwa [hends]
      · intro _
        rw [hends]
  · rename_i hstrict
    apply extends_pushLink h
    · rwa [hends]
    · rwa [hends]
    · exact fun h => absurd h hstrict

theorem extends_addLinks (h : assembly.Consistent) (attributes : Option AttributeList)
    {left right : List String} (hleft : ∀ id ∈ left, id ∈ assembly.nodeIds)
    (hright : ∀ id ∈ right, id ∈ assembly.nodeIds) :
    assembly.Extends (assembly.addLinks attributes left right) := by
  have hinner : ∀ (source : String) (right : List String) (assembly : Assembly),
      assembly.Consistent → source ∈ assembly.nodeIds →
      (∀ id ∈ right, id ∈ assembly.nodeIds) →
      assembly.Extends (right.foldl
        (fun assembly target => assembly.addLink attributes source target) assembly) := by
    intro source right
    induction right with
    | nil => exact fun _ h _ _ => .refl h
    | cons target right ih =>
        intro assembly h hsource hright
        have hlink := extends_addLink h attributes hsource (hright target List.mem_cons_self)
        refine hlink.trans (ih _ hlink.consistent (hlink.nodeIds source hsource) ?_)
        intro id hmem
        exact hlink.nodeIds id (hright id (List.mem_cons_of_mem _ hmem))
  unfold addLinks
  induction left generalizing assembly with
  | nil => exact .refl h
  | cons source left ih =>
      have hlinks := hinner source right assembly h (hleft source List.mem_cons_self) hright
      refine hlinks.trans (ih hlinks.consistent ?_ ?_)
      · intro id hmem
        exact hlinks.nodeIds id (hleft id (List.mem_cons_of_mem _ hmem))
      · intro id hmem
        exact hlinks.nodeIds id (hright id hmem)

/-- The part of consistency that is about the records alone. -/
structure RecordsConsistent (assembly : Assembly) : Prop where
  subgraphIndex : Indexes assembly.subgraphIndex assembly.recordIds
  size_members : assembly.members.size = assembly.recordNodes.size
  members : ∀ (place : Nat) (set : Std.HashSet String) (ids : Array String),
    assembly.members[place]? = some set → assembly.recordNodes[place]? = some ids →
    Mirrors set ids

theorem Consistent.records (h : assembly.Consistent) : assembly.RecordsConsistent :=
  ⟨h.subgraphIndex, h.size_members, h.members⟩

namespace RecordsConsistent

theorem subgraphSlot (h : assembly.RecordsConsistent) (name : String) :
    (assembly.subgraphSlot name).2.RecordsConsistent := by
  unfold Assembly.subgraphSlot
  split
  · exact h
  · rename_i hnew
    have hnodes : (assembly.graph.subgraphs.push { id := name }).map Graph.Subgraph.nodes =
        assembly.recordNodes.push #[] := Array.map_push
    refine ⟨h.subgraphIndex.push_map (x := { id := name }) hnew, ?_, ?_⟩
    · rw [recordNodes, hnodes, Array.size_push, Array.size_push, h.size_members]
    · intro place set ids hset hrecord
      rw [recordNodes, hnodes, Array.getElem?_push] at hrecord
      rw [Array.getElem?_push, h.size_members] at hset
      split at hrecord
      · rename_i hplace
        rw [if_pos hplace] at hset
        obtain rfl := Option.some.inj hset
        obtain rfl := Option.some.inj hrecord
        exact Mirrors.empty
      · rename_i hplace
        rw [if_neg hplace] at hset
        exact h.members place set ids hset hrecord

theorem addMember (h : assembly.RecordsConsistent) (place : Nat) (id : String) :
    (assembly.addMember place id).RecordsConsistent := by
  unfold Assembly.addMember
  split
  · exact h
  · rename_i hnew
    have hids : (assembly.graph.subgraphs.modify place fun subgraph =>
        { subgraph with nodes := subgraph.nodes.push id }).map Graph.Subgraph.id =
        assembly.recordIds := map_modify_of_eq _ _ _ _ fun _ => rfl
    have hnodes : (assembly.graph.subgraphs.modify place fun subgraph =>
        { subgraph with nodes := subgraph.nodes.push id }).map Graph.Subgraph.nodes =
        assembly.recordNodes.modify place (·.push id) :=
      map_modify_of_comm _ _ _ _ _ fun _ => rfl
    refine ⟨?_, ?_, ?_⟩
    · rw [recordIds, hids]
      exact h.subgraphIndex
    · rw [recordNodes, hnodes, Array.size_modify, Array.size_modify]
      exact h.size_members
    · rw [recordNodes, hnodes]
      intro other set ids hset hrecord
      rw [Array.getElem?_modify] at hset hrecord
      by_cases hplace : place = other
      · subst hplace
        rw [if_pos rfl, Option.map_eq_some_iff] at hset hrecord
        obtain ⟨oldSet, hold, rfl⟩ := hset
        obtain ⟨oldIds, holdIds, rfl⟩ := hrecord
        apply (h.members place oldSet oldIds hold holdIds).insert
        simpa [hold] using hnew
      · rw [if_neg hplace] at hset hrecord
        exact h.members other set ids hset hrecord

end RecordsConsistent

theorem extends_subgraphSlot (h : assembly.Consistent) (name : String) :
    assembly.Extends (assembly.subgraphSlot name).2 := by
  have hrecords := h.records.subgraphSlot name
  unfold subgraphSlot at hrecords ⊢
  split
  · exact .refl h
  · rename_i hnew
    simp only [hnew] at hrecords
    have hnodes : (assembly.graph.subgraphs.push { id := name }).map Graph.Subgraph.nodes =
        assembly.recordNodes.push #[] := Array.map_push
    refine ⟨{ h with
      recordIds_nodup := hrecords.subgraphIndex.nodup
      subgraphIndex := hrecords.subgraphIndex
      size_members := hrecords.size_members
      members := hrecords.members
      recordNodes := ?_ }, fun _ hmem => hmem⟩
    intro ids hmem
    rw [Assembly.recordNodes, hnodes, Array.mem_push] at hmem
    cases hmem with
    | inl hmem => exact h.recordNodes ids hmem
    | inr heq =>
        rw [heq]
        intro id hmem
        exact absurd hmem (Array.not_mem_empty _)

theorem extends_addMember (h : assembly.Consistent) (place : Nat) {id : String}
    (hid : id ∈ assembly.nodeIds) : assembly.Extends (assembly.addMember place id) := by
  have hrecords := h.records.addMember place id
  unfold addMember at hrecords ⊢
  split
  · exact .refl h
  · rename_i hnew
    simp only [hnew] at hrecords
    have hnodes : (assembly.graph.subgraphs.modify place fun subgraph =>
        { subgraph with nodes := subgraph.nodes.push id }).map Graph.Subgraph.nodes =
        assembly.recordNodes.modify place (·.push id) :=
      map_modify_of_comm _ _ _ _ _ fun _ => rfl
    refine ⟨{ h with
      recordIds_nodup := hrecords.subgraphIndex.nodup
      subgraphIndex := hrecords.subgraphIndex
      size_members := hrecords.size_members
      members := hrecords.members
      recordNodes := ?_ }, fun _ hmem => hmem⟩
    rw [Assembly.recordNodes, hnodes]
    intro ids hmem other hother
    obtain ⟨index, hindex⟩ := Array.mem_iff_getElem?.mp hmem
    rw [Array.getElem?_modify] at hindex
    split at hindex
    · obtain ⟨old, hold, rfl⟩ := Option.map_eq_some_iff.mp hindex
      cases Array.mem_push.mp hother with
      | inl hother => exact h.recordNodes old (Array.mem_of_getElem? hold) other hother
      | inr heq => exact heq ▸ hid
    · exact h.recordNodes ids (Array.mem_of_getElem? hindex) other hother

theorem extends_addMembers (h : assembly.Consistent) (place : Nat) {ids : List String}
    (hids : ∀ id ∈ ids, id ∈ assembly.nodeIds) :
    assembly.Extends (ids.foldl (fun assembly id => assembly.addMember place id) assembly) := by
  induction ids generalizing assembly with
  | nil => exact .refl h
  | cons id ids ih =>
      have hmember := extends_addMember h place (hids id List.mem_cons_self)
      refine hmember.trans (ih hmember.consistent ?_)
      intro other hother
      exact hmember.nodeIds other (hids other (List.mem_cons_of_mem _ hother))

theorem extends_setSubgraph (h : assembly.Consistent) (place : Nat) (key value : String) :
    assembly.Extends (assembly.setSubgraph place key value) := by
  apply Extends.of_alike h
  exact ⟨rfl, rfl, rfl, rfl, map_modify_of_eq _ _ _ _ fun _ => Graph.Subgraph.id_set _ _ _, rfl,
    map_modify_of_eq _ _ _ _ fun _ => Graph.Subgraph.nodes_set _ _ _, rfl, rfl⟩

theorem extends_recordSubgraph (h : assembly.Consistent) (name : String) {ids : List String}
    (hids : ∀ id ∈ ids, id ∈ assembly.nodeIds) (statements : List Statement) :
    assembly.Extends (assembly.recordSubgraph name ids statements) := by
  have hset : ∀ (entries : List (String × String)) (place : Nat) (assembly : Assembly),
      assembly.Consistent → assembly.Extends (entries.foldl
        (fun assembly entry => assembly.setSubgraph place entry.1 entry.2) assembly) := by
    intro entries place
    induction entries with
    | nil => exact fun _ h => .refl h
    | cons entry entries ih =>
        intro assembly h
        have hentry := extends_setSubgraph h place entry.1 entry.2
        exact hentry.trans (ih _ hentry.consistent)
  have hslot := extends_subgraphSlot h name
  have hmembers := extends_addMembers hslot.consistent (assembly.subgraphSlot name).1
    fun id hmem => hslot.nodeIds id (hids id hmem)
  exact (hslot.trans hmembers).trans (hset _ _ _ hmembers.consistent)

end Assembly

end DotGraph
