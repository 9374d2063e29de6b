import DotGraph.Proofs.Graph.Consistent

namespace DotGraph

/-! Whole runs of an assembly: statements at any depth keep it consistent, since every node that they
touch is there before a link or a record names it. -/

open DotGraph.Tree

namespace FirstSeen

theorem mem_insert {ids : FirstSeen} {id other : String} (h : other ∈ (ids.insert id).toList) :
    other ∈ ids.toList ∨ other = id := by
  unfold insert at h
  split at h
  · exact .inl h
  · simpa [toList] using h

theorem mem_insertAll {ids : FirstSeen} {more : List String} {other : String}
    (h : other ∈ (ids.insertAll more).toList) : other ∈ ids.toList ∨ other ∈ more := by
  unfold insertAll at h
  induction more generalizing ids with
  | nil => exact .inl h
  | cons id more ih =>
      rcases ih h with h | h
      · rcases mem_insert h with h | h
        · exact .inl h
        · exact .inr (h ▸ List.mem_cons_self)
      · exact .inr (List.mem_cons_of_mem _ h)

end FirstSeen

namespace Assembly

/-- A step leads to a consistent assembly that has the nodes it has touched. -/
structure Touches (old new : Assembly) (ids : List String) : Prop where
  extends_old : old.Extends new
  touched : ∀ id ∈ ids, id ∈ new.nodeIds

theorem Touches.insertAll {old new : Assembly} {ids : FirstSeen} {more : List String}
    (h : old.Touches new more) (hids : ∀ id ∈ ids.toList, id ∈ old.nodeIds) :
    old.Touches new (ids.insertAll more).toList where
  extends_old := h.extends_old
  touched := by
    intro id hmem
    rcases FirstSeen.mem_insertAll hmem with hmem | hmem
    · exact h.extends_old.nodeIds id (hids id hmem)
    · exact h.touched id hmem

theorem Touches.trans {first second third : Assembly} {front back : List String}
    (h : first.Touches second front) (k : second.Touches third back) :
    first.Touches third back :=
  ⟨h.extends_old.trans k.extends_old, k.touched⟩

mutual
theorem touches_addStatements (group : Option String) :
    (statements : List Statement) → (assembly : Assembly) → (ids : FirstSeen) →
    assembly.Consistent → (∀ id ∈ ids.toList, id ∈ assembly.nodeIds) →
    assembly.Touches (addStatements group statements assembly ids).1
      (addStatements group statements assembly ids).2.toList
  | [], assembly, ids, h, hids => by
      rw [addStatements]
      exact ⟨.refl h, hids⟩
  | statement :: statements, assembly, ids, h, hids => by
      rw [addStatements]
      have hfirst := touches_addStatement group statement assembly ids h hids
      have hmore := touches_addStatements group statements _ _ hfirst.extends_old.consistent
        hfirst.touched
      exact hfirst.trans hmore

theorem touches_addStatement (group : Option String) :
    (statement : Statement) → (assembly : Assembly) → (ids : FirstSeen) →
    assembly.Consistent → (∀ id ∈ ids.toList, id ∈ assembly.nodeIds) →
    assembly.Touches (addStatement group statement assembly ids).1
      (addStatement group statement assembly ids).2.toList
  | .node _ node attributes, assembly, ids, h, hids => by
      rw [addStatement]
      obtain ⟨hdescribe, hmem⟩ := extends_describeNode h node.name attributes group
      refine ⟨hdescribe, ?_⟩
      intro id hid
      rcases FirstSeen.mem_insert hid with hid | hid
      · exact hdescribe.nodeIds id (hids id hid)
      · exact hid ▸ hmem
  | .edge _ left hops attributes, assembly, ids, h, hids => by
      rw [addStatement]
      have hleft := touches_addEndpoint group left assembly h
      have hhops := touches_addHops group attributes hops _ _ _ hleft.extends_old.consistent
        hleft.touched (hleft.insertAll hids).touched
      exact hleft.trans hhops
  | .defaults _ subject attributes, assembly, ids, h, hids => by
      rw [addStatement]
      have hdefaults := extends_setDefaults h subject attributes
      exact ⟨hdefaults, fun id hmem => hdefaults.nodeIds id (hids id hmem)⟩
  | .assign _ _ _, assembly, ids, h, hids => by
      rw [addStatement]
      exact ⟨.refl h, hids⟩
  | .subgraph body, assembly, ids, h, hids => by
      rw [addStatement]
      exact (touches_addSubgraph group body assembly h).insertAll hids

theorem touches_addHops (group : Option String) (attributes : Option AttributeList) :
    (hops : List Hop) → (left : List String) → (assembly : Assembly) → (ids : FirstSeen) →
    assembly.Consistent → (∀ id ∈ left, id ∈ assembly.nodeIds) →
    (∀ id ∈ ids.toList, id ∈ assembly.nodeIds) →
    assembly.Touches (addHops group attributes left hops assembly ids).1
      (addHops group attributes left hops assembly ids).2.toList
  | [], left, assembly, ids, h, _, hids => by
      rw [addHops]
      exact ⟨.refl h, hids⟩
  | ⟨_, _, endpoint⟩ :: hops, left, assembly, ids, h, hleft, hids => by
      rw [addHops]
      have hright := touches_addEndpoint group endpoint assembly h
      -- the nodes on the left were there before the right end, and no step loses a node
      have hlinks := extends_addLinks hright.extends_old.consistent attributes
        (fun id hmem => hright.extends_old.nodeIds id (hleft id hmem)) hright.touched
      have hmore := touches_addHops group attributes hops _ _ _ hlinks.consistent
        (fun id hmem => hlinks.nodeIds id (hright.touched id hmem))
        (fun id hmem => hlinks.nodeIds id ((hright.insertAll hids).touched id hmem))
      exact ⟨(hright.extends_old.trans hlinks).trans hmore.extends_old, hmore.touched⟩

theorem touches_addEndpoint (group : Option String) :
    (endpoint : Endpoint) → (assembly : Assembly) → assembly.Consistent →
    assembly.Touches (addEndpoint group endpoint assembly).2
      (addEndpoint group endpoint assembly).1
  | .node node, assembly, h => by
      rw [addEndpoint]
      obtain ⟨hmention, hmem⟩ := extends_mentionNode h node.name group
      refine ⟨hmention, ?_⟩
      intro id hid
      exact List.mem_singleton.mp hid ▸ hmem
  | .group _ nodes, assembly, h => by
      rw [addEndpoint]
      obtain ⟨hmention, hmem⟩ := extends_mentionNodes h (nodes.map NodeId.name) group
      exact ⟨hmention, hmem⟩
  | .subgraph body, assembly, h => by
      rw [addEndpoint]
      exact touches_addSubgraph group body assembly h

theorem touches_addSubgraph (group : Option String) :
    (body : Subgraph) → (assembly : Assembly) → assembly.Consistent →
    assembly.Touches (addSubgraph group body assembly).2 (addSubgraph group body assembly).1
  | ⟨_, ident, statements⟩, assembly, h => by
      rw [addSubgraph]
      have hbody := touches_addStatements ((ident.map Ident.name).or group) statements assembly
        .empty h (by simp [FirstSeen.empty, FirstSeen.toList])
      cases hname : ident.map Ident.name with
      | none =>
          rw [hname] at hbody
          exact hbody
      | some name =>
          rw [hname] at hbody
          have hrecord :=
            extends_recordSubgraph hbody.extends_old.consistent name hbody.touched statements
          exact ⟨hbody.extends_old.trans hrecord,
            fun id hmem => hrecord.nodeIds id (hbody.touched id hmem)⟩
end

variable {assembly : Assembly}

theorem extends_process (h : assembly.Consistent) (statements : List Statement)
    (group : Option String) : assembly.Extends (assembly.process statements group).2 :=
  (touches_addStatements group statements assembly .empty h
    (by simp [FirstSeen.empty, FirstSeen.toList])).extends_old

/-- One call after the other. -/
def processAll (assembly : Assembly) (calls : List (List Statement × Option String)) : Assembly :=
  calls.foldl (fun assembly call => (assembly.process call.1 call.2).2) assembly

theorem Consistent.processAll (h : assembly.Consistent)
    (calls : List (List Statement × Option String)) : (assembly.processAll calls).Consistent := by
  unfold Assembly.processAll
  induction calls generalizing assembly with
  | nil => exact h
  | cons call calls ih => exact ih (extends_process h call.1 call.2).consistent

/-- Whatever is processed from the start, the assembly stays consistent. -/
theorem consistent_processAll (directed strict : Bool) (id : Option String)
    (calls : List (List Statement × Option String)) :
    ((start directed strict id).processAll calls).Consistent :=
  (consistent_start directed strict id).processAll calls

end Assembly

end DotGraph
