import DotGraph.Proofs.Graph.Actions
import DotGraph.Proofs.Graph.Values

namespace DotGraph

/-! The records of named subgraphs.  There is one for each name, and every body of that name adds to
it. -/

open DotGraph.Tree

theorem lastValue_concat (key : String) (entries : List (String × String))
    (entry : String × String) :
    lastValue key (entries ++ [entry]) =
      if key = entry.1 then some entry.2 else lastValue key entries := by
  rw [lastValue, List.reverse_concat, lookup_cons_eq, lastValue]

namespace Graph.Subgraph

/-- The record of a subgraph with these nodes in it, and these assignments about it. -/
def recording (name : String) (ids : List String) (entries : List (String × String)) :
    Subgraph where
  id := name
  label := (lastValue "label" entries).getD ""
  color := (lastValue "color" entries).getD ""
  style := (lastValue "style" entries).getD ""
  nodes := ids.eraseDups.toArray

def addNode (subgraph : Subgraph) (id : String) : Subgraph :=
  if id ∈ subgraph.nodes then subgraph else { subgraph with nodes := subgraph.nodes.push id }

theorem id_addNode (subgraph : Subgraph) (id : String) :
    (subgraph.addNode id).id = subgraph.id := by
  unfold addNode
  split <;> rfl

theorem addNode_recording (name : String) (ids : List String) (entries : List (String × String))
    (id : String) :
    (recording name ids entries).addNode id = recording name (ids ++ [id]) entries := by
  unfold addNode recording
  rw [FirstSeen.eraseDups_concat]
  split <;> simp_all

theorem set_recording (name : String) (ids : List String) (entries : List (String × String))
    (key value : String) :
    (recording name ids entries).set key value =
      recording name ids (entries ++ [(key, value)]) := by
  unfold set
  split <;> simp_all [recording, lastValue_concat, eq_comm]

theorem foldl_addNode_recording (name : String) (ids : List String)
    (entries : List (String × String)) (more : List String) :
    more.foldl addNode (recording name ids entries) = recording name (ids ++ more) entries := by
  induction more generalizing ids with
  | nil => rw [List.append_nil]; rfl
  | cons id more ih => rw [List.foldl_cons, addNode_recording, ih, List.append_assoc]; rfl

theorem foldl_set_recording (name : String) (ids : List String)
    (entries more : List (String × String)) :
    more.foldl (fun subgraph entry => subgraph.set entry.1 entry.2) (recording name ids entries) =
      recording name ids (entries ++ more) := by
  induction more generalizing entries with
  | nil => rw [List.append_nil]; rfl
  | cons entry more ih => rw [List.foldl_cons, set_recording, ih, List.append_assoc]; rfl

/-- The record that some bodies of one name make, each with its nodes and its assignments. -/
def merged (name : String) (bodies : List (List String × List (String × String))) :
    Option Subgraph :=
  if bodies.isEmpty then none
  else some (recording name (bodies.flatMap Prod.fst) (bodies.flatMap Prod.snd))

theorem merged_getD (name : String) (bodies : List (List String × List (String × String))) :
    (merged name bodies).getD { id := name } =
      recording name (bodies.flatMap Prod.fst) (bodies.flatMap Prod.snd) := by
  cases bodies <;> rfl

end Graph.Subgraph

namespace Assembly

variable {assembly : Assembly}

/-- From one assembly to the next the record of a name changes, and no other does. -/
structure Changes (name : String) (change : Graph.Subgraph → Graph.Subgraph)
    (old new : Assembly) : Prop where
  consistent : new.RecordsConsistent
  subgraphIndex : new.subgraphIndex = old.subgraphIndex
  subgraph? : ∀ other, new.graph.subgraph? other =
    if other = name then (old.graph.subgraph? name).map change else old.graph.subgraph? other

theorem changes_modify (h : assembly.RecordsConsistent) {name : String} {place : Nat}
    (hplace : assembly.subgraphIndex[name]? = some place)
    {change : Graph.Subgraph → Graph.Subgraph} (hid : ∀ record, (change record).id = record.id)
    {new : Assembly} (hnew : new.RecordsConsistent)
    (hindex : new.subgraphIndex = assembly.subgraphIndex)
    (hsubgraphs : new.graph.subgraphs = assembly.graph.subgraphs.modify place change) :
    Changes name change assembly new where
  consistent := hnew
  subgraphIndex := hindex
  subgraph? other := by
    rw [Graph.subgraph?, hsubgraphs]
    exact Indexes.find?_modify h.subgraphIndex hid hplace other

theorem RecordsConsistent.congr {old new : Assembly} (h : old.RecordsConsistent)
    (hids : new.recordIds = old.recordIds) (hnodes : new.recordNodes = old.recordNodes)
    (hindex : new.subgraphIndex = old.subgraphIndex) (hmembers : new.members = old.members) :
    new.RecordsConsistent where
  subgraphIndex := by
    rw [hids, hindex]
    exact h.subgraphIndex
  size_members := by
    rw [hnodes, hmembers]
    exact h.size_members
  members := by
    rw [hnodes, hmembers]
    exact h.members

theorem changes_setSubgraph (h : assembly.RecordsConsistent) {name : String} {place : Nat}
    (hplace : assembly.subgraphIndex[name]? = some place) (key value : String) :
    Changes name (·.set key value) assembly (assembly.setSubgraph place key value) := by
  have hids : (assembly.setSubgraph place key value).recordIds = assembly.recordIds :=
    map_modify_of_eq _ _ _ _ fun _ => Graph.Subgraph.id_set _ _ _
  have hnodes : (assembly.setSubgraph place key value).recordNodes = assembly.recordNodes :=
    map_modify_of_eq _ _ _ _ fun _ => Graph.Subgraph.nodes_set _ _ _
  exact changes_modify h hplace (fun record => record.id_set key value)
    (h.congr hids hnodes rfl rfl) rfl rfl

theorem subgraphs_addMember (h : assembly.RecordsConsistent) (place : Nat) (id : String) :
    (assembly.addMember place id).graph.subgraphs =
      assembly.graph.subgraphs.modify place (·.addNode id) := by
  -- the set of the members knows which ids the record has
  have hknown : ∀ record, assembly.graph.subgraphs[place]? = some record →
      ((assembly.members[place]?.getD ∅).contains id = true ↔ id ∈ record.nodes) := by
    intro record hrecord
    have hnodes : assembly.recordNodes[place]? = some record.nodes := by
      rw [recordNodes, Array.getElem?_map, hrecord, Option.map_some]
    obtain ⟨hlt, -⟩ := Array.getElem?_eq_some_iff.mp hnodes
    have hset := Array.getElem?_eq_getElem (h.size_members ▸ hlt)
    rw [hset, Option.getD_some]
    exact (h.members place _ record.nodes hset hnodes).2 id
  apply Array.ext_getElem?
  intro index
  unfold addMember
  by_cases hindex : place = index
  · subst hindex
    cases hrecord : assembly.graph.subgraphs[place]? with
    | none => split <;> simp [Array.getElem?_modify, hrecord]
    | some record =>
        have hknown := hknown record hrecord
        split <;> simp_all [Array.getElem?_modify, Graph.Subgraph.addNode]
  · split <;> simp [Array.getElem?_modify, hindex]

theorem changes_addMember (h : assembly.RecordsConsistent) {name : String} {place : Nat}
    (hplace : assembly.subgraphIndex[name]? = some place) (id : String) :
    Changes name (·.addNode id) assembly (assembly.addMember place id) := by
  have hindex : (assembly.addMember place id).subgraphIndex = assembly.subgraphIndex := by
    unfold addMember
    split <;> rfl
  exact changes_modify h hplace (fun record => record.id_addNode id) (h.addMember place id) hindex
    (subgraphs_addMember h place id)

theorem changes_foldl {α : Type} {name : String} {place : Nat}
    {step : Assembly → α → Assembly} {change : Graph.Subgraph → α → Graph.Subgraph}
    (hstep : ∀ {assembly : Assembly}, assembly.RecordsConsistent →
      assembly.subgraphIndex[name]? = some place →
      ∀ x, Changes name (change · x) assembly (step assembly x))
    (h : assembly.RecordsConsistent) (hplace : assembly.subgraphIndex[name]? = some place)
    (xs : List α) :
    Changes name (fun record => xs.foldl change record) assembly (xs.foldl step assembly) := by
  induction xs generalizing assembly with
  | nil => exact ⟨h, rfl, fun other => by split <;> simp_all⟩
  | cons x xs ih =>
      have hfirst := hstep h hplace x
      have hmore := ih hfirst.consistent (hfirst.subgraphIndex ▸ hplace)
      refine ⟨hmore.consistent, hmore.subgraphIndex.trans hfirst.subgraphIndex, fun other => ?_⟩
      rw [List.foldl_cons, hmore.subgraph?, hfirst.subgraph?, hfirst.subgraph?, if_pos rfl,
        Option.map_map]
      split <;> rfl

theorem subgraphIndex_subgraphSlot (assembly : Assembly) (name : String) :
    (assembly.subgraphSlot name).2.subgraphIndex[name]? = some (assembly.subgraphSlot name).1 := by
  unfold subgraphSlot
  split
  · assumption
  · exact Std.HashMap.getElem?_insert_self

theorem subgraph?_subgraphSlot (h : assembly.RecordsConsistent) (name other : String) :
    (assembly.subgraphSlot name).2.graph.subgraph? other =
      if other = name then some ((assembly.graph.subgraph? name).getD { id := name })
      else assembly.graph.subgraph? other := by
  unfold subgraphSlot
  split
  · rename_i place hplace
    obtain ⟨record, hrecord, hid⟩ := h.subgraphIndex.exists_of_getElem? hplace
    have hfound : assembly.graph.subgraph? name = some record := by
      rw [Graph.subgraph?, h.subgraphIndex.find?_eq, hplace, Option.bind_some, hrecord]
    rw [hfound]
    split <;> simp_all
  · rename_i hnew
    have hnone : assembly.graph.subgraph? name = none := by
      rw [Graph.subgraph?, h.subgraphIndex.find?_eq, hnew, Option.bind_none]
    rw [hnone]
    exact h.subgraphIndex.find?_push (x := { id := name }) hnew other

/-- The record of a name changes where it stands once it is there. -/
theorem changes_recordSubgraph (h : assembly.RecordsConsistent) (name : String)
    (ids : List String) (statements : List Statement) :
    Changes name
      (fun record => (assignments statements).foldl (fun record entry => record.set entry.1 entry.2)
        (ids.foldl Graph.Subgraph.addNode record))
      (assembly.subgraphSlot name).2 (assembly.recordSubgraph name ids statements) := by
  have hplace := subgraphIndex_subgraphSlot assembly name
  have hmembers := changes_foldl (fun h hplace id => changes_addMember h hplace id)
    (h.subgraphSlot name) hplace ids
  have hentries := changes_foldl (fun h hplace (entry : String × String) =>
    changes_setSubgraph h hplace entry.1 entry.2) hmembers.consistent
    (hmembers.subgraphIndex ▸ hplace) (assignments statements)
  refine ⟨hentries.consistent, hentries.subgraphIndex.trans hmembers.subgraphIndex,
    fun other => (hentries.subgraph? other).trans ?_⟩
  rw [hmembers.subgraph?, hmembers.subgraph?, if_pos rfl, Option.map_map]
  split <;> rfl

/-- Recording a body adds its nodes and its assignments to the record of its name. -/
theorem subgraph?_recordSubgraph (h : assembly.RecordsConsistent) (name : String)
    (ids : List String) (statements : List Statement) :
    (assembly.recordSubgraph name ids statements).RecordsConsistent ∧
      ∀ other, (assembly.recordSubgraph name ids statements).graph.subgraph? other =
        if other = name then
          some ((assignments statements).foldl (fun record entry => record.set entry.1 entry.2)
            (ids.foldl Graph.Subgraph.addNode
              ((assembly.graph.subgraph? name).getD { id := name })))
        else assembly.graph.subgraph? other := by
  have hchanges := changes_recordSubgraph h name ids statements
  refine ⟨hchanges.consistent, fun other => (hchanges.subgraph? other).trans ?_⟩
  rw [subgraph?_subgraphSlot h, subgraph?_subgraphSlot h, if_pos rfl]
  split <;> rfl

/-- What an assembly holds of its records. -/
structure RecordPart where
  subgraphs : Array Graph.Subgraph
  subgraphIndex : Std.HashMap String Nat
  members : Array (Std.HashSet String)

def recordPart (assembly : Assembly) : RecordPart :=
  ⟨assembly.graph.subgraphs, assembly.subgraphIndex, assembly.members⟩

theorem recordPart_updateNode (assembly : Assembly) (id : String)
    (change : Graph.Node → Graph.Node) :
    (assembly.updateNode id change).recordPart = assembly.recordPart := by
  have hslot : (assembly.slot id).2.recordPart = assembly.recordPart := by
    unfold slot
    split <;> rfl
  exact hslot

theorem recordPart_setDefaults (assembly : Assembly) (subject : Subject)
    (attributes : Option AttributeList) :
    (assembly.setDefaults subject attributes).recordPart = assembly.recordPart := by
  cases subject <;> rfl

theorem recordPart_addLink (assembly : Assembly) (attributes : Option AttributeList)
    (source target : String) :
    (assembly.addLink attributes source target).recordPart = assembly.recordPart := by
  simp only [addLink]
  split
  · split <;> rfl
  · rfl

theorem RecordsConsistent.of_recordPart {old new : Assembly} (h : old.RecordsConsistent)
    (hpart : new.recordPart = old.recordPart) : new.RecordsConsistent := by
  have hsubgraphs : new.graph.subgraphs = old.graph.subgraphs := congrArg RecordPart.subgraphs hpart
  refine h.congr ?_ ?_ (congrArg RecordPart.subgraphIndex hpart)
    (congrArg RecordPart.members hpart)
  · rw [recordIds, hsubgraphs, recordIds]
  · rw [recordNodes, hsubgraphs, recordNodes]

theorem subgraph?_congr {old new : Assembly} (hpart : new.recordPart = old.recordPart)
    (name : String) : new.graph.subgraph? name = old.graph.subgraph? name := by
  have hsubgraphs : new.graph.subgraphs = old.graph.subgraphs := congrArg RecordPart.subgraphs hpart
  rw [Graph.subgraph?, hsubgraphs, Graph.subgraph?]

end Assembly

/-- The name that an action records a body under. -/
def Action.name? : Action → Option String
  | .record name _ _ => some name
  | .describe _ _ _ | .mention _ _ | .setDefaults _ _ | .link _ _ _ => none

/-- The nodes and the assignments that an action records under a name. -/
def Action.body? (name : String) : Action → Option (List String × List (String × String))
  | .record other ids statements =>
      if other = name then some (ids, Assembly.assignments statements) else none
  | .describe _ _ _ | .mention _ _ | .setDefaults _ _ | .link _ _ _ => none

namespace Assembly

variable {assembly : Assembly}

theorem subgraph?_perform (h : assembly.RecordsConsistent)
    {name : String} {bodies : List (List String × List (String × String))}
    (hrecord : assembly.graph.subgraph? name = Graph.Subgraph.merged name bodies)
    (action : Action) :
    (assembly.perform action).graph.subgraph? name =
      Graph.Subgraph.merged name (bodies ++ (action.body? name).toList) := by
  have hother : ∀ new : Assembly, new.recordPart = assembly.recordPart →
      new.graph.subgraph? name = Graph.Subgraph.merged name (bodies ++ []) := by
    intro new hpart
    rw [subgraph?_congr hpart, hrecord, List.append_nil]
  cases action with
  | describe _ _ _ => exact hother _ (recordPart_updateNode _ _ _)
  | mention _ _ => exact hother _ (recordPart_updateNode _ _ _)
  | setDefaults _ _ => exact hother _ (recordPart_setDefaults _ _ _)
  | link _ _ _ => exact hother _ (recordPart_addLink _ _ _ _)
  | record other ids statements =>
      rw [perform, (subgraph?_recordSubgraph h other ids statements).2]
      by_cases hname : name = other
      · subst hname
        rw [if_pos rfl, hrecord, Graph.Subgraph.merged_getD,
          Graph.Subgraph.foldl_addNode_recording, Graph.Subgraph.foldl_set_recording]
        simp [Action.body?, Graph.Subgraph.merged]
      · rw [if_neg hname, hrecord]
        simp [Action.body?, Ne.symm hname]

theorem RecordsConsistent.perform (h : assembly.RecordsConsistent) (action : Action) :
    (assembly.perform action).RecordsConsistent := by
  cases action with
  | describe _ _ _ => exact h.of_recordPart (recordPart_updateNode _ _ _)
  | mention _ _ => exact h.of_recordPart (recordPart_updateNode _ _ _)
  | setDefaults _ _ => exact h.of_recordPart (recordPart_setDefaults _ _ _)
  | link _ _ _ => exact h.of_recordPart (recordPart_addLink _ _ _ _)
  | record name ids statements => exact (subgraph?_recordSubgraph h name ids statements).1

theorem RecordsConsistent.performAll (h : assembly.RecordsConsistent) (actions : List Action) :
    (assembly.performAll actions).RecordsConsistent :=
  List.foldlRecOn (motive := RecordsConsistent) actions _ h fun _ h action _ => h.perform action

/-- After some actions the record of a name holds what all of them say under it. -/
theorem subgraph?_performAll (h : assembly.RecordsConsistent) {name : String}
    (bodies : List (List String × List (String × String)))
    (hrecord : assembly.graph.subgraph? name = Graph.Subgraph.merged name bodies)
    (actions : List Action) :
    (assembly.performAll actions).graph.subgraph? name =
      Graph.Subgraph.merged name (bodies ++ actions.filterMap (Action.body? name)) := by
  induction actions generalizing assembly bodies with
  | nil =>
      rw [List.filterMap_nil, List.append_nil]
      exact hrecord
  | cons action actions ih =>
      have hfirst := subgraph?_perform h hrecord action
      refine (ih (h.perform action) _ hfirst).trans ?_
      rw [List.append_assoc, List.filterMap_cons]
      cases action.body? name <;> rfl

/-- The records are listed in the order in which their names are first recorded. -/
theorem RecordsConsistent.recordIds_perform (h : assembly.RecordsConsistent) {seen : List String}
    (hseen : assembly.recordIds.toList = seen.eraseDups) (action : Action) :
    (assembly.perform action).recordIds.toList = (seen ++ action.name?.toList).eraseDups := by
  have hkeep : ∀ new : Assembly, new.recordPart = assembly.recordPart →
      new.recordIds.toList = (seen ++ []).eraseDups := by
    intro new hpart
    have hsubgraphs : new.graph.subgraphs = assembly.graph.subgraphs :=
      congrArg RecordPart.subgraphs hpart
    rw [recordIds, hsubgraphs, List.append_nil, ← hseen, recordIds]
  cases action with
  | describe _ _ _ | mention _ _ => exact hkeep _ (recordPart_updateNode _ _ _)
  | setDefaults _ _ => exact hkeep _ (recordPart_setDefaults _ _ _)
  | link _ _ _ => exact hkeep _ (recordPart_addLink _ _ _ _)
  | record name ids statements =>
      have hchanges := changes_recordSubgraph h name ids statements
      have hindexes := hchanges.consistent.subgraphIndex
      rw [hchanges.subgraphIndex] at hindexes
      have hslot := (h.subgraphSlot name).subgraphIndex.unique hindexes
      rw [Assembly.perform, ← hslot, Action.name?, Option.toList_some,
        h.subgraphIndex.eraseDups_concat hseen]
      unfold Assembly.subgraphSlot
      cases assembly.subgraphIndex[name]? with
      | some place => rfl
      | none =>
          rw [recordIds, Array.map_push]
          rfl

theorem RecordsConsistent.recordIds_performAll (h : assembly.RecordsConsistent)
    {seen : List String} (hseen : assembly.recordIds.toList = seen.eraseDups)
    (actions : List Action) :
    (assembly.performAll actions).recordIds.toList =
      (seen ++ actions.filterMap Action.name?).eraseDups := by
  induction actions generalizing assembly seen with
  | nil => exact hseen.trans (congrArg _ (List.append_nil seen).symm)
  | cons action actions ih =>
      refine (ih (h.perform action) (h.recordIds_perform hseen action)).trans ?_
      rw [List.append_assoc, List.filterMap_cons]
      cases action.name? <;> rfl

theorem recordIds_performAll_start (directed strict : Bool) (id : Option String)
    (actions : List Action) :
    ((start directed strict id).performAll actions).recordIds.toList =
      (actions.filterMap Action.name?).eraseDups := by
  have hnone : (start directed strict id).recordIds.toList = [].eraseDups := by
    rw [recordIds_start]
    rfl
  rw [(consistent_start directed strict id).records.recordIds_performAll hnone, List.nil_append]

/-- The records stand in the order of their names. -/
theorem RecordsConsistent.subgraphs_eq (h : assembly.RecordsConsistent) :
    assembly.graph.subgraphs =
      assembly.recordIds.map fun name => (assembly.graph.subgraph? name).getD { id := name } := by
  rw [recordIds, Array.map_map, ← Array.map_id assembly.graph.subgraphs, Array.map_map]
  refine Array.map_congr_left fun record hmem => ?_
  have hfound : assembly.graph.subgraph? record.id = some record :=
    h.subgraphIndex.find?_of_mem hmem
  simp [hfound]

end Assembly

end DotGraph
