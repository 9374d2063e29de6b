import DotGraph.Proofs.Graph.Shorthand

namespace DotGraph

/-! The same statements taken again.  What they tell of nodes, of groups and of records is known, and a
strict graph has their links already.  Only the defaults are others than before, so that nodes may get
other values. -/

open DotGraph.Tree

/-- The graph without the values of the attributes of its nodes. -/
def Graph.withoutValues (graph : Graph) : Graph :=
  { graph with nodes := graph.nodes.map Node.withoutValues }

theorem lastValue_append_again (key : String) (front back : List (String × String)) :
    lastValue key (front ++ back ++ back) = lastValue key (front ++ back) := by
  rw [lastValue_append, lastValue_append]
  cases lastValue key back <;> rfl

/-- Bodies that are merged again change nothing. -/
theorem Graph.Subgraph.merged_append_again (name : String)
    (front back : List (List String × List (String × String))) :
    merged name (front ++ back ++ back) = merged name (front ++ back) := by
  have hempty : (front ++ back ++ back).isEmpty = (front ++ back).isEmpty := by
    cases front <;> cases back <;> rfl
  have hnodes : (front ++ back ++ back).flatMap Prod.fst =
      (front ++ back).flatMap Prod.fst ++ back.flatMap Prod.fst := List.flatMap_append
  have hentries : (front ++ back ++ back).flatMap Prod.snd =
      front.flatMap Prod.snd ++ back.flatMap Prod.snd ++ back.flatMap Prod.snd := by
    rw [List.flatMap_append, List.flatMap_append]
  have hknown : back.flatMap Prod.fst ⊆ (front ++ back).flatMap Prod.fst := by
    rw [List.flatMap_append]
    exact List.subset_append_right _ _
  rw [merged, merged, hempty, recording, recording, hnodes, hentries,
    FirstSeen.eraseDups_append_of_subset hknown]
  simp only [lastValue_append_again, List.flatMap_append]

namespace Assembly

variable (directed strict : Bool) (name : Option String)

/-- The actions tell what there is of the nodes apart from their values. -/
theorem nodes_withoutValues (actions : List Action) :
    ((start directed strict name).performAll actions).graph.nodes.toList.map
        Graph.Node.withoutValues =
      (actions.filterMap Action.id?).eraseDups.map fun id =>
        { id, group := actions.findSome? (Action.group? id) } := by
  let told : Graph.Node → Graph.Node := fun node => { id := node.id, group := node.group }
  have hstart := indexed_start directed strict name
  have hunmarked : ((start directed strict name).performAll actions).graph.nodes.map
      Graph.Node.withoutValues =
      ((start directed strict name).performAll actions).graph.nodes.map told := by
    refine Array.map_congr_left fun node hmem => ?_
    obtain ⟨hpath, hinvalid⟩ := unmarked_performAll directed strict name actions hmem
    rw [Graph.Node.withoutValues, hpath, hinvalid]
  rw [← Array.toList_map, hunmarked, (hstart.performAll actions).map_nodes, Array.toList_map,
    nodeIds_performAll_start]
  refine List.map_congr_left fun id _ => ?_
  simp only [told, id_nodeOrNew, hstart.group_performAll]
  rfl

/-- The actions tell the records, in the order in which their names are first recorded. -/
theorem subgraphs_performAll_start (actions : List Action) :
    ((start directed strict name).performAll actions).graph.subgraphs.toList =
      (actions.filterMap Action.name?).eraseDups.map fun id =>
        (Graph.Subgraph.merged id (actions.filterMap (Action.body? id))).getD { id } := by
  have hstart := (consistent_start directed strict name).records
  rw [(hstart.performAll actions).subgraphs_eq, Array.toList_map, recordIds_performAll_start]
  refine List.map_congr_left fun id _ => ?_
  rw [subgraph?_performAll hstart [] rfl]
  rfl

variable (front back : List Action)

theorem nodes_performAll_again :
    ((start directed strict name).performAll (front ++ back ++ back)).graph.nodes.map
        Graph.Node.withoutValues =
      ((start directed strict name).performAll (front ++ back)).graph.nodes.map
        Graph.Node.withoutValues := by
  have hknown : back.filterMap Action.id? ⊆ (front ++ back).filterMap Action.id? :=
    List.filterMap_subset _ (List.subset_append_right front back)
  have hgroup : ∀ id, (front ++ back ++ back).findSome? (Action.group? id) =
      (front ++ back).findSome? (Action.group? id) := by
    intro id
    rw [List.findSome?_append, List.findSome?_append]
    cases front.findSome? (Action.group? id) <;> cases back.findSome? (Action.group? id) <;> rfl
  rw [← Array.toList_inj, Array.toList_map, Array.toList_map, nodes_withoutValues,
    nodes_withoutValues, List.filterMap_append, FirstSeen.eraseDups_append_of_subset hknown]
  simp only [hgroup]

theorem subgraphs_performAll_again :
    ((start directed strict name).performAll (front ++ back ++ back)).graph.subgraphs =
      ((start directed strict name).performAll (front ++ back)).graph.subgraphs := by
  have hknown : back.filterMap Action.name? ⊆ (front ++ back).filterMap Action.name? :=
    List.filterMap_subset _ (List.subset_append_right front back)
  rw [← Array.toList_inj, subgraphs_performAll_start, subgraphs_performAll_start,
    List.filterMap_append, FirstSeen.eraseDups_append_of_subset hknown]
  simp only [List.filterMap_append, Graph.Subgraph.merged_append_again]

/-- A strict graph has the links of actions that it has taken. -/
theorem links_performAll_again :
    ((start directed true name).performAll (front ++ back ++ back)).graph.links =
      ((start directed true name).performAll (front ++ back)).graph.links := by
  rw [← Array.toList_inj, links_performAll_start, links_performAll_start, if_pos rfl, if_pos rfl,
    List.filterMap_append, linkingsAfter_append, List.map_append]
  refine ((Graph.Repeats.refl _).append_again fun link hlink => ?_).firstLinks_eq directed
  obtain ⟨linking, hmem, rfl⟩ := List.mem_map.mp hlink
  rw [List.filterMap_append, linkingsAfter_append]
  obtain ⟨earlier, hearlier, hends⟩ := exists_linking_of_mem _ _ hmem
  refine ⟨earlier.link, List.mem_map_of_mem (List.mem_append_right _ hearlier), ?_⟩
  rw [earlier.describes_link.ends, linking.describes_link.ends, hends]

/-- Statements that a strict graph takes again, with whatever before them, touch the same nodes and
change nothing but values of attributes of nodes. -/
theorem process_again (calls : List (List Statement × Option String))
    (statements : List Statement) (group : Option String) :
    let once := ((start directed true name).processAll calls).process statements group
    let again := once.2.process statements group
    again.1 = once.1 ∧ again.2.graph.withoutValues = once.2.graph.withoutValues := by
  let before := calls.flatMap fun call => actionsOfAll call.2 call.1
  let own := actionsOfAll group statements
  intro once again
  have honce : once.2 = (start directed true name).performAll (before ++ own) := by
    rw [performAll_append, ← processAll_eq]
    exact congrArg Prod.snd (process_eq _ statements group)
  have hagain : again.2 = (start directed true name).performAll (before ++ own ++ own) := by
    rw [performAll_append, ← honce]
    exact congrArg Prod.snd (process_eq _ statements group)
  have hgrows : once.2.graph.Enlarges again.2.graph := enlarges_process _ statements group
  have hids : ∀ assembly : Assembly,
      (assembly.process statements group).1 = (occurrencesOfAll statements).eraseDups :=
    fun assembly => congrArg Prod.fst (process_eq assembly statements group)
  refine ⟨(hids once.2).trans (hids _).symm, ?_⟩
  have hnodes := nodes_performAll_again directed true name before own
  have hsubgraphs := subgraphs_performAll_again directed true name before own
  have hlinks := links_performAll_again directed name before own
  rw [← hagain, ← honce] at hnodes hsubgraphs hlinks
  simp only [Graph.withoutValues, hnodes, hsubgraphs, hlinks, hgrows.directed, hgrows.strict,
    hgrows.id]

end Assembly

end DotGraph
