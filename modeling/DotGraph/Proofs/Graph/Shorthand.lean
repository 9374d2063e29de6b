import DotGraph.Proofs.Graph.Skeleton
import DotGraph.Proofs.Graph.Snapshots
import DotGraph.Proofs.Tree.Place

namespace DotGraph

/-! A group of node ids against the anonymous subgraph of their statements, at the same place of the
same edge.  They make the same nodes, groups and records.  They make the same links unless a loose
graph gets a group that repeats an id, of which it links every repeat. -/

open DotGraph.Tree

namespace Graph

/-- The longer list has more links, each behind one with the same ends. -/
inductive Repeats : List Link → List Link → Prop
  | nil : Repeats [] []
  | both {longer shorter : List Link} (h : Repeats longer shorter) (link : Link) :
      Repeats (longer ++ [link]) (shorter ++ [link])
  | again {longer shorter : List Link} {earlier link : Link} (h : Repeats longer shorter)
      (hmem : earlier ∈ shorter) (hends : earlier.ends = link.ends) :
      Repeats (longer ++ [link]) shorter

namespace Repeats

variable {longer shorter : List Link}

theorem append (h : Repeats longer shorter) (more : List Link) :
    Repeats (longer ++ more) (shorter ++ more) := by
  induction more using List.reverseRecOn with
  | nil => rwa [List.append_nil, List.append_nil]
  | append_singleton more link ih =>
      rw [← List.append_assoc, ← List.append_assoc]
      exact ih.both link

theorem append_again (h : Repeats longer shorter) {more : List Link}
    (hmore : ∀ link ∈ more, ∃ earlier ∈ shorter, earlier.ends = link.ends) :
    Repeats (longer ++ more) shorter := by
  induction more using List.reverseRecOn with
  | nil => rwa [List.append_nil]
  | append_singleton more link ih =>
      rw [← List.append_assoc]
      obtain ⟨earlier, hmem, hends⟩ := hmore link (List.mem_append_right _ List.mem_cons_self)
      exact (ih fun link hlink => hmore link (List.mem_append_left _ hlink)).again hmem hends

theorem refl (links : List Link) : Repeats links links :=
  Repeats.nil.append links

/-- What is made of repeated ids repeats what is made of the ids. -/
theorem flatMap_eraseDups (h : Repeats longer shorter) (f : String → List Link)
    (ids : List String) :
    Repeats (longer ++ ids.flatMap f) (shorter ++ ids.eraseDups.flatMap f) := by
  induction ids using List.reverseRecOn with
  | nil => exact h.append _
  | append_singleton ids id ih =>
      rw [FirstSeen.eraseDups_concat, List.flatMap_append, List.flatMap_singleton,
        ← List.append_assoc]
      split
      · rename_i hmem
        refine ih.append_again fun link hlink => ⟨link, List.mem_append_right _ ?_, rfl⟩
        exact List.mem_flatMap.mpr ⟨id, List.mem_eraseDups.mpr hmem, hlink⟩
      · rw [List.flatMap_append, List.flatMap_singleton, ← List.append_assoc]
        exact ih.append (f id)

theorem any_joins (h : Repeats longer shorter) (source target : String) (directed : Bool) :
    (longer.any fun link => link.joins source target directed) =
      shorter.any fun link => link.joins source target directed := by
  induction h with
  | nil => rfl
  | both _ link ih => rw [List.any_append, List.any_append, ih]
  | @again _ _ earlier link _ hmem hends ih =>
      have hsame : earlier.joins source target directed = link.joins source target directed := by
        rw [Link.joins_eq, Link.joins_eq, hends]
      rw [List.any_append, ih, List.any_cons, List.any_nil, Bool.or_false, ← hsame]
      refine Bool.or_eq_left_iff_imp.mpr fun hjoins => ?_
      exact List.any_eq_true.mpr ⟨earlier, hmem, hjoins⟩

/-- A strict graph has nothing of what is repeated. -/
theorem firstLinks_eq (h : Repeats longer shorter) (directed : Bool) :
    firstLinks directed longer = firstLinks directed shorter := by
  induction h with
  | nil => rfl
  | both h link ih => rw [firstLinks_concat, firstLinks_concat, ih, h.any_joins]
  | @again longer shorter earlier link h hmem hends ih =>
      have hjoined :
          (longer.any fun other => other.joins link.source link.target directed) = true := by
        rw [h.any_joins, List.any_eq_true]
        exact ⟨earlier, hmem, (earlier.joins_iff _ _ _).mpr (.inl hends)⟩
      rw [firstLinks_concat, if_pos hjoined, ih]

end Repeats

end Graph

namespace Tree

/-- The ids that the hop behind some hops starts from. -/
def endsBehind (left : List String) : List Hop → List String
  | [] => left
  | ⟨_, _, endpoint⟩ :: hops => endsBehind endpoint.ends hops

/-- The ids that the first of some hops leads to. -/
def endsOfNext : List Hop → List String
  | [] => []
  | ⟨_, _, endpoint⟩ :: _ => endpoint.ends

namespace EdgeHole

/-- The ids from which links lead to the open endpoint. -/
def sources : EdgeHole → List String
  | .first _ _ _ => []
  | .later _ left front _ _ _ _ => endsBehind left.ends front

/-- The ids to which links lead from the open endpoint. -/
def targets : EdgeHole → List String
  | .first _ hops _ => endsOfNext hops
  | .later _ _ _ _ _ back _ => endsOfNext back

end EdgeHole

/-- The anonymous subgraph with a plain statement for each of some nodes. -/
def spelledOut (position : Position) (nodes : List NodeId) : Endpoint :=
  .subgraph ⟨position, none, nodes.map TokenReader.bareStatement⟩

theorem occurrencesOfAll_bareStatement (nodes : List NodeId) :
    occurrencesOfAll (nodes.map TokenReader.bareStatement) = nodes.map NodeId.name := by
  induction nodes with
  | nil => rw [List.map_nil, occurrencesOfAll]; rfl
  | cons node nodes ih =>
      rw [List.map_cons, occurrencesOfAll, ih, TokenReader.bareStatement, Statement.occurrences]
      rfl

theorem actionsOfAll_bareStatement (group : Option String) (nodes : List NodeId) :
    actionsOfAll group (nodes.map TokenReader.bareStatement) =
      nodes.map fun node => .describe node.name none group := by
  induction nodes with
  | nil => rw [List.map_nil, actionsOfAll]; rfl
  | cons node nodes ih =>
      rw [List.map_cons, actionsOfAll, ih, TokenReader.bareStatement, Statement.actions]
      rfl

theorem edgeEventsOfAll_bareStatement (nodes : List NodeId) :
    edgeEventsOfAll (nodes.map TokenReader.bareStatement) = [] := by
  induction nodes with
  | nil => rw [List.map_nil, edgeEventsOfAll]
  | cons node nodes ih =>
      rw [List.map_cons, edgeEventsOfAll, ih, TokenReader.bareStatement, Statement.edgeEvents]
      rfl

theorem ends_spelledOut (position : Position) (nodes : List NodeId) :
    (spelledOut position nodes).ends = (nodes.map NodeId.name).eraseDups := by
  rw [spelledOut, Endpoint.ends, occurrencesOfAll_bareStatement]

theorem occurrences_spelledOut (position : Position) (nodes : List NodeId) :
    (spelledOut position nodes).occurrences = nodes.map NodeId.name := by
  rw [spelledOut, Endpoint.occurrences, occurrencesOfAll_bareStatement]

theorem edgeEvents_spelledOut (position : Position) (nodes : List NodeId) :
    (spelledOut position nodes).edgeEvents = [] := by
  rw [spelledOut, Endpoint.edgeEvents, Subgraph.edgeEvents, edgeEventsOfAll_bareStatement]

/-- What is read alike off a node that is described and one that is mentioned is read alike off both
endpoints. -/
theorem filterMap_spelledOut {α : Type} {view : Action → Option α} (group : Option String)
    (hview : ∀ id, view (.describe id none group) = view (.mention id group))
    (position : Position) (nodes : List NodeId) :
    ((spelledOut position nodes).actions group).filterMap view =
      ((Endpoint.group position nodes).actions group).filterMap view := by
  rw [spelledOut, Endpoint.actions, Endpoint.actions, Subgraph.actions,
    actionsOfAll_bareStatement, List.filterMap_map, List.filterMap_map]
  exact congrArg (List.filterMap · nodes) (funext fun node => hview node.name)

/-- Where links are not looked at, each endpoint of a hop stands for itself. -/
theorem filterMap_actionsOfHops {α : Type} {view : Action → Option α}
    (hlink : ∀ attributes source target, view (.link attributes source target) = none)
    (group : Option String) (attributes : Option AttributeList) (left : List String)
    (hops : List Hop) :
    (actionsOfHops group attributes left hops).filterMap view =
      hops.flatMap fun hop => (hop.endpoint.actions group).filterMap view := by
  induction hops generalizing left with
  | nil => rw [actionsOfHops, List.filterMap_nil, List.flatMap_nil]
  | cons hop hops ih =>
      obtain ⟨_, _, endpoint⟩ := hop
      have hlinks : (linkActions attributes left endpoint.ends).filterMap view = [] := by
        rw [linkActions, List.filterMap_map]
        exact List.filterMap_eq_nil_iff.mpr fun ends _ => hlink attributes ends.1 ends.2
      rw [actionsOfHops, List.filterMap_append, List.filterMap_append, hlinks, ih,
        List.flatMap_cons, List.append_nil]

theorem EdgeHole.filterMap_fill {α : Type} {view : Action → Option α}
    (hlink : ∀ attributes source target, view (.link attributes source target) = none)
    {group : Option String} {first second : Endpoint}
    (h : (first.actions group).filterMap view = (second.actions group).filterMap view)
    (hole : EdgeHole) :
    ((hole.fill first).actions group).filterMap view =
      ((hole.fill second).actions group).filterMap view := by
  cases hole with
  | first position hops attributes =>
      rw [fill, fill, Statement.actions, Statement.actions, List.filterMap_append,
        List.filterMap_append, h, filterMap_actionsOfHops hlink, filterMap_actionsOfHops hlink]
  | later position left front opened directed back attributes =>
      rw [fill, fill, Statement.actions, Statement.actions, List.filterMap_append,
        List.filterMap_append, filterMap_actionsOfHops hlink, filterMap_actionsOfHops hlink,
        List.flatMap_append, List.flatMap_append, List.flatMap_cons, List.flatMap_cons, h]

theorem EdgeHole.occurrences_fill {first second : Endpoint}
    (h : first.occurrences = second.occurrences) (hole : EdgeHole) :
    (hole.fill first).occurrences = (hole.fill second).occurrences := by
  obtain ⟨front, back, hoccurrences⟩ := hole.exists_occurrences
  rw [hoccurrences, hoccurrences, h]

theorem edgeEventsOfHops_append (own : List (String × String)) (left : List String)
    (front back : List Hop) :
    edgeEventsOfHops own left (front ++ back) =
      edgeEventsOfHops own left front ++ edgeEventsOfHops own (endsBehind left front) back := by
  induction front generalizing left with
  | nil => rw [List.nil_append, edgeEventsOfHops, endsBehind, List.nil_append]
  | cons hop front ih =>
      obtain ⟨_, _, endpoint⟩ := hop
      rw [List.cons_append, edgeEventsOfHops, edgeEventsOfHops, endsBehind, ih]
      simp only [List.append_assoc]

theorem exists_edgeEventsOfHops (own : List (String × String)) (hops : List Hop) :
    ∃ before behind, ∀ left, edgeEventsOfHops own left hops =
      before ++ (pairs left (endsOfNext hops)).map (.link own) ++ behind := by
  cases hops with
  | nil =>
      refine ⟨[], [], fun left => ?_⟩
      rw [edgeEventsOfHops, endsOfNext, pairs]
      simp
  | cons hop hops =>
      obtain ⟨_, _, endpoint⟩ := hop
      refine ⟨endpoint.edgeEvents, edgeEventsOfHops own endpoint.ends hops, fun left => ?_⟩
      rw [edgeEventsOfHops, endsOfNext]

/-- An endpoint in which no edges are decides two runs of links: those that lead to it and those that
lead away. -/
theorem EdgeHole.exists_edgeEvents (hole : EdgeHole) :
    ∃ front middle back own, ∀ endpoint : Endpoint, endpoint.edgeEvents = [] →
      (hole.fill endpoint).edgeEvents =
        front ++ (pairs hole.sources endpoint.ends).map (.link own) ++ middle ++
          (pairs endpoint.ends hole.targets).map (.link own) ++ back := by
  cases hole with
  | first position hops attributes =>
      obtain ⟨before, behind, hhops⟩ :=
        exists_edgeEventsOfHops (Assembly.pairsOf attributes) hops
      refine ⟨[], before, behind, Assembly.pairsOf attributes, fun endpoint h => ?_⟩
      rw [fill, Statement.edgeEvents, h, hhops]
      rfl
  | later position left front opened directed back attributes =>
      let own := Assembly.pairsOf attributes
      obtain ⟨before, behind, hhops⟩ := exists_edgeEventsOfHops own back
      refine ⟨left.edgeEvents ++ edgeEventsOfHops own left.ends front, before, behind, own,
        fun endpoint h => ?_⟩
      rw [fill, Statement.edgeEvents, edgeEventsOfHops_append, edgeEventsOfHops, h, hhops]
      simp only [List.nil_append, List.append_assoc]
      rfl

theorem linkingsAfter_append (given : List (String × String)) (front back : List EdgeEvent) :
    linkingsAfter given (front ++ back) = linkingsAfter given front ++
      linkingsAfter (given ++ front.flatMap EdgeEvent.entries) back := by
  induction front generalizing given with
  | nil => rw [List.flatMap_nil, List.append_nil]; rfl
  | cons event front ih =>
      cases event with
      | defaults entries =>
          rw [List.cons_append, linkingsAfter, ih, List.append_assoc]
          rfl
      | link own ends =>
          rw [List.cons_append, linkingsAfter, ih]
          rfl

theorem linkingsAfter_links (given own : List (String × String)) (ends : List (String × String))
    (back : List EdgeEvent) :
    linkingsAfter given (ends.map (.link own) ++ back) =
      ends.map (⟨·, own, given⟩) ++ linkingsAfter given back := by
  induction ends with
  | nil => rfl
  | cons first ends ih => rw [List.map_cons, List.cons_append, linkingsAfter, ih]; rfl

theorem exists_linkingsAfter (front middle back : List EdgeEvent) (own : List (String × String)) :
    ∃ (first second third : List Linking) (toward away : String × String → Linking),
      ∀ left right : List (String × String),
        linkingsAfter [] (front ++ left.map (.link own) ++ middle ++ right.map (.link own) ++ back) =
          first ++ left.map toward ++ second ++ right.map away ++ third := by
  let given := [] ++ front.flatMap EdgeEvent.entries
  let later := given ++ middle.flatMap EdgeEvent.entries
  refine ⟨linkingsAfter [] front, linkingsAfter given middle, linkingsAfter later back,
    (⟨·, own, given⟩), (⟨·, own, later⟩), fun left right => ?_⟩
  simp only [List.append_assoc]
  rw [linkingsAfter_append [] front, linkingsAfter_links, linkingsAfter_append _ middle,
    linkingsAfter_links]

theorem pairs_nil_left (right : List String) : pairs [] right = [] :=
  List.flatMap_nil

theorem pairs_nil_right (left : List String) : pairs left [] = [] :=
  List.flatMap_eq_nil_iff.mpr fun _ _ => List.map_nil

theorem length_pairs (left right : List String) :
    (pairs left right).length = left.length * right.length := by
  simp [pairs, List.length_flatMap]

end Tree

namespace Graph

variable {longer shorter : List Link}

theorem Repeats.pairs_right (h : Repeats longer shorter) (f : String × String → Link)
    (left right : List String) :
    Repeats (longer ++ (pairs left right).map f)
      (shorter ++ (pairs left right.eraseDups).map f) := by
  induction left generalizing longer shorter with
  | nil => exact h.append []
  | cons source left ih =>
      have hsource := h.flatMap_eraseDups (fun target => [f (source, target)]) right
      have hleft := ih hsource
      simpa [pairs, List.flatMap_cons, Function.comp_def, ← List.map_eq_flatMap] using hleft

theorem Repeats.pairs_left (h : Repeats longer shorter) (f : String × String → Link)
    (left right : List String) :
    Repeats (longer ++ (pairs left right).map f)
      (shorter ++ (pairs left.eraseDups right).map f) := by
  have hleft := h.flatMap_eraseDups (fun source => right.map fun target => f (source, target)) left
  simpa [pairs, List.map_flatMap, Function.comp_def] using hleft

end Graph

namespace Assembly

/-- Two assemblies that have the same nodes, in the same groups, and the same records. -/
structure AgreeOnNodes (first second : Assembly) : Prop where
  nodeIds : first.nodeIds = second.nodeIds
  groups : first.graph.nodes.map Graph.Node.group = second.graph.nodes.map Graph.Node.group
  subgraph? : ∀ name, first.graph.subgraph? name = second.graph.subgraph? name

variable (directed strict : Bool) (name : Option String)

/-- Actions that tell the same of nodes and of records lead to the same nodes, groups and records. -/
theorem agreeOnNodes_performAll {front back : List Action}
    (hids : front.filterMap Action.id? = back.filterMap Action.id?)
    (hgroups : ∀ id, front.filterMap (Action.group? id) = back.filterMap (Action.group? id))
    (hbodies : ∀ id, front.filterMap (Action.body? id) = back.filterMap (Action.body? id)) :
    AgreeOnNodes ((start directed strict name).performAll front)
      ((start directed strict name).performAll back) := by
  have hstart := indexed_start directed strict name
  have hnodeIds : ((start directed strict name).performAll front).nodeIds =
      ((start directed strict name).performAll back).nodeIds := by
    rw [← Array.toList_inj, nodeIds_performAll_start, nodeIds_performAll_start, hids]
  refine ⟨hnodeIds, ?_, fun record => ?_⟩
  · rw [(hstart.performAll front).map_nodes, (hstart.performAll back).map_nodes, hnodeIds]
    refine Array.map_congr_left fun id _ => ?_
    rw [hstart.group_performAll, hstart.group_performAll, ← List.head?_filterMap,
      ← List.head?_filterMap, hgroups]
  · have hrecords := (consistent_start directed strict name).records
    rw [subgraph?_performAll hrecords [] rfl, subgraph?_performAll hrecords [] rfl, hbodies]

variable (calls : List (List Statement × Option String)) (group : Option String)

/-- An edge behind some calls: its actions come behind theirs. -/
theorem process_edge_eq (statement : Statement) :
    ((start directed strict name).processAll calls).process [statement] group =
      (statement.occurrences.eraseDups,
        (start directed strict name).performAll
          ((calls.flatMap fun call => actionsOfAll call.2 call.1) ++ statement.actions group)) := by
  rw [process_eq, processAll_eq, performAll_append, actionsOfAll_singleton,
    occurrencesOfAll_singleton]

/-- The links after an edge: those to the open endpoint and those from it, among others that do not
depend on the endpoint. -/
theorem exists_links_fill (hole : EdgeHole) :
    ∃ (front middle back : List Graph.Link) (toward away : String × String → Graph.Link),
      ∀ (strict : Bool) (endpoint : Endpoint), endpoint.edgeEvents = [] →
        let links := front ++ (pairs hole.sources endpoint.ends).map toward ++ middle ++
          (pairs endpoint.ends hole.targets).map away ++ back
        (((start directed strict name).processAll calls).process
            [hole.fill endpoint] group).2.graph.links.toList =
          if strict then Graph.firstLinks directed links else links := by
  obtain ⟨front, middle, back, own, hevents⟩ := hole.exists_edgeEvents
  let before := (calls.flatMap fun call => actionsOfAll call.2 call.1).filterMap Action.edgeEvent?
  obtain ⟨first, second, third, toward, away, hlinkings⟩ :=
    exists_linkingsAfter (before ++ front) middle back own
  refine ⟨first.map Linking.link, second.map Linking.link, third.map Linking.link,
    Linking.link ∘ toward, Linking.link ∘ away, fun strict endpoint h => ?_⟩
  have hall : linkingsAfter [] (before ++ (hole.fill endpoint).edgeEvents) =
      first ++ (pairs hole.sources endpoint.ends).map toward ++ second ++
        (pairs endpoint.ends hole.targets).map away ++ third := by
    rw [hevents endpoint h, ← hlinkings]
    simp only [List.append_assoc]
  rw [process_edge_eq, links_performAll_start, List.filterMap_append,
    filterMap_edgeEvent?_actions group (hole.fill endpoint), hall]
  simp only [List.map_append, List.map_map]

/-- The links are the same unless the graph is loose and the group repeats an id that is linked. -/
theorem links_fill_eq_iff (hole : EdgeHole) (position : Position) (nodes : List NodeId) :
    (((start directed strict name).processAll calls).process
        [hole.fill (.group position nodes)] group).2.graph.links =
      (((start directed strict name).processAll calls).process
        [hole.fill (spelledOut position nodes)] group).2.graph.links ↔
      strict ∨ (nodes.map NodeId.name).Nodup ∨ hole.sources = [] ∧ hole.targets = [] := by
  obtain ⟨front, middle, back, toward, away, hlinks⟩ :=
    exists_links_fill directed name calls group hole
  have hgroup := hlinks strict (.group position nodes) (by rw [Endpoint.edgeEvents])
  have hspelled := hlinks strict (spelledOut position nodes) (edgeEvents_spelledOut position nodes)
  rw [← Array.toList_inj, hgroup, hspelled, ends_spelledOut, Endpoint.ends]
  generalize nodes.map NodeId.name = ids
  constructor
  · intro heq
    cases strict with
    | true => exact .inl rfl
    | false =>
        have hlength := congrArg List.length heq
        simp only [Bool.false_eq_true, if_false, List.length_append, List.length_map,
          length_pairs] at hlength
        have hle := FirstSeen.length_eraseDups_le ids
        have hsources := Nat.mul_le_mul_left hole.sources.length hle
        have htargets := Nat.mul_le_mul_right hole.targets.length hle
        refine .inr (or_iff_not_imp_left.mpr fun hrepeat => ?_)
        have hne : ids.length ≠ ids.eraseDups.length := fun heq =>
          hrepeat (FirstSeen.nodup_of_length_eraseDups heq.symm)
        constructor
        · refine List.length_eq_zero_iff.mp (Nat.eq_zero_of_not_pos fun hpos => ?_)
          exact hne (Nat.eq_of_mul_eq_mul_left hpos (by omega))
        · refine List.length_eq_zero_iff.mp (Nat.eq_zero_of_not_pos fun hpos => ?_)
          exact hne (Nat.eq_of_mul_eq_mul_right hpos (by omega))
  · rintro (rfl | hnodup | ⟨hsources, htargets⟩)
    · simp only [if_true]
      refine Graph.Repeats.firstLinks_eq ?_ directed
      exact ((((Graph.Repeats.refl front).pairs_right toward _ _).append middle).pairs_left
        away _ _).append back
    · rw [FirstSeen.eraseDups_of_nodup hnodup]
    · rw [hsources, htargets, pairs_nil_left, pairs_nil_left, pairs_nil_right, pairs_nil_right]

theorem linkEnds_process_edge (statement : Statement) :
    (((start directed false name).processAll calls).process [statement] group).2.linkEnds.toList =
      ((start directed false name).processAll calls).linkEnds.toList ++ statement.edges := by
  have hloose : (start directed false name).graph.strict = false := rfl
  rw [process_edge_eq, processAll_eq, linkEnds_performAll hloose, linkEnds_performAll hloose,
    List.filterMap_append, filterMap_ends?_actions group statement, List.append_assoc]

theorem agreeOnNodes_fill (hole : EdgeHole) (position : Position) (nodes : List NodeId) :
    AgreeOnNodes
      (((start directed strict name).processAll calls).process
        [hole.fill (.group position nodes)] group).2
      (((start directed strict name).processAll calls).process
        [hole.fill (spelledOut position nodes)] group).2 := by
  have hview : ∀ {α : Type} (view : Action → Option α),
      (∀ attributes source target, view (.link attributes source target) = none) →
      (∀ id, view (.describe id none group) = view (.mention id group)) →
      ((hole.fill (.group position nodes)).actions group).filterMap view =
        ((hole.fill (spelledOut position nodes)).actions group).filterMap view :=
    fun _ hlink hnode =>
      hole.filterMap_fill hlink (filterMap_spelledOut group hnode position nodes).symm
  rw [process_edge_eq, process_edge_eq]
  refine agreeOnNodes_performAll directed strict name ?_ (fun id => ?_) fun record => ?_
  · rw [List.filterMap_append, List.filterMap_append,
      hview Action.id? (fun _ _ _ => rfl) fun _ => rfl]
  · rw [List.filterMap_append, List.filterMap_append,
      hview (Action.group? id) (fun _ _ _ => rfl) fun _ => rfl]
  · rw [List.filterMap_append, List.filterMap_append,
      hview (Action.body? record) (fun _ _ _ => rfl) fun _ => rfl]

/-- Whatever has been taken before, an edge touches the same nodes and leads to the same nodes, groups
and records with a group of node ids as with the subgraph of their statements.  It leads to the same
links if the graph is strict, if no id is repeated, or if there is nothing on either side to link the
ids with.  Otherwise each repeat of the group is linked again, where the subgraph has each id once. -/
theorem process_group_spelledOut (hole : EdgeHole) (position : Position) (nodes : List NodeId) :
    let assembly := (start directed strict name).processAll calls
    let short := assembly.process [hole.fill (.group position nodes)] group
    let spelled := assembly.process [hole.fill (spelledOut position nodes)] group
    short.1 = spelled.1 ∧ AgreeOnNodes short.2 spelled.2 ∧
      (short.2.graph.links = spelled.2.graph.links ↔
        strict ∨ (nodes.map NodeId.name).Nodup ∨ hole.sources = [] ∧ hole.targets = []) ∧
      (strict = false →
        short.2.linkEnds.toList =
            assembly.linkEnds.toList ++ (hole.fill (.group position nodes)).edges ∧
          spelled.2.linkEnds.toList =
            assembly.linkEnds.toList ++ (hole.fill (spelledOut position nodes)).edges) := by
  refine ⟨?_, agreeOnNodes_fill directed strict name calls group hole position nodes,
    links_fill_eq_iff directed strict name calls group hole position nodes, ?_⟩
  · have hoccurrences : (Endpoint.group position nodes).occurrences =
        (spelledOut position nodes).occurrences := by
      rw [occurrences_spelledOut, Endpoint.occurrences]
    rw [process_edge_eq, process_edge_eq, hole.occurrences_fill hoccurrences]
  · rintro rfl
    exact ⟨linkEnds_process_edge directed name calls group _,
      linkEnds_process_edge directed name calls group _⟩

private def tip (name : String) : NodeId :=
  ⟨.nowhere, ⟨.nowhere, name, .bare⟩, none⟩

/-- An edge from a node to the open endpoint. -/
private def fromA : EdgeHole :=
  .later .nowhere (.node (tip "a")) [] .nowhere true [] none

/-- A loose graph links a repeated id of a group twice, and that of a subgraph once. -/
theorem repeated_id_linked_twice :
    (((start true false none).processAll []).process
          [fromA.fill (.group .nowhere [tip "b", tip "b"])] none).2.linkEnds.toList =
        [("a", "b"), ("a", "b")] ∧
      (((start true false none).processAll []).process
          [fromA.fill (spelledOut .nowhere [tip "b", tip "b"])] none).2.linkEnds.toList =
        [("a", "b")] := by
  have hstart : ((start true false none).processAll []).linkEnds.toList = [] := by
    rw [linkEnds]
    exact congrArg Array.toList Array.map_empty
  rw [linkEnds_process_edge, linkEnds_process_edge, hstart]
  decide

end Assembly

end DotGraph
