import DotGraph.Proofs.Graph.Nodes
import DotGraph.Proofs.Graph.Strict
import DotGraph.Proofs.Graph.Walk
import Mathlib.Data.List.TakeWhile

namespace DotGraph

/-! A graph has every step of the description that it is built from.  A strict graph refuses a link
only where it has one between the same ends already. -/

open DotGraph.Tree

/-- Some link of the graph joins the two nodes. -/
def Graph.Joins (graph : Graph) (source target : String) : Prop :=
  ∃ link ∈ graph.links, link.joins source target graph.directed

namespace Assembly

variable {assembly : Assembly} {source target : String}

/-- The ends that are remembered are those of links. -/
def LinksRemembered (assembly : Assembly) : Prop :=
  ∀ ends ∈ assembly.linkPairs, ends ∈ assembly.linkEnds

theorem linksRemembered_start (directed strict : Bool) (id : Option String) :
    (start directed strict id).LinksRemembered := by
  intro ends hmem
  simp [start] at hmem

theorem LinksRemembered.joins (h : assembly.LinksRemembered)
    (hlinked : assembly.isLinked source target) : assembly.graph.Joins source target := by
  have hends : ∀ ends ∈ assembly.linkPairs, ∃ link ∈ assembly.graph.links, link.ends = ends :=
    fun ends hmem => Array.mem_map.mp (h ends hmem)
  simp only [isLinked, Bool.or_eq_true, Bool.and_eq_true, Bool.not_eq_true',
    Std.HashSet.contains_iff_mem] at hlinked
  rcases hlinked with hforward | ⟨hdirected, hbackward⟩
  · obtain ⟨link, hmem, heq⟩ := hends _ hforward
    exact ⟨link, hmem, (link.joins_iff source target _).mpr (.inl heq)⟩
  · obtain ⟨link, hmem, heq⟩ := hends _ hbackward
    exact ⟨link, hmem, (link.joins_iff source target _).mpr (.inr ⟨hdirected, heq⟩)⟩

theorem joins_pushLink {link : Graph.Link} (hends : link.ends = (source, target)) :
    (assembly.pushLink link).graph.Joins source target :=
  ⟨link, Array.mem_push_self, (link.joins_iff source target _).mpr (.inl hends)⟩

/-- Between the ends of an edge there is a link, a new one or one that was there before. -/
theorem LinksRemembered.joins_addLink (h : assembly.LinksRemembered)
    (attributes : Option AttributeList) (source target : String) :
    (assembly.addLink attributes source target).graph.Joins source target := by
  have hends := ends_newLink assembly attributes source target
  cases hstrict : assembly.graph.strict with
  | false =>
      rw [addLink_of_loose hstrict]
      exact joins_pushLink hends
  | true =>
      rw [addLink_of_strict hstrict]
      split
      · rename_i hlinked
        exact h.joins hlinked
      · exact @joins_pushLink assembly source target _ hends

/-- No link is lost, and what is remembered of links stays true. -/
structure KeepsLinks (old new : Assembly) : Prop where
  directed : new.graph.directed = old.graph.directed
  links : ∀ link ∈ old.graph.links, link ∈ new.graph.links
  remembered : old.LinksRemembered → new.LinksRemembered

namespace KeepsLinks

variable {first second third : Assembly}

theorem refl (assembly : Assembly) : assembly.KeepsLinks assembly :=
  ⟨rfl, fun _ hmem => hmem, id⟩

theorem trans (h : first.KeepsLinks second) (k : second.KeepsLinks third) :
    first.KeepsLinks third where
  directed := k.directed.trans h.directed
  links := fun link hmem => k.links link (h.links link hmem)
  remembered := k.remembered ∘ h.remembered

theorem of_linkPart (h : second.linkPart = first.linkPart) : first.KeepsLinks second := by
  have hlinks : second.graph.links = first.graph.links := congrArg LinkPart.links h
  refine ⟨congrArg LinkPart.directed h, fun link hmem => hlinks ▸ hmem, fun hold => ?_⟩
  have hpairs : second.linkPairs = first.linkPairs := congrArg LinkPart.linkPairs h
  rw [LinksRemembered, linkEnds, hlinks, hpairs]
  exact hold

theorem pushLink (assembly : Assembly) (link : Graph.Link)
    {pairs : Std.HashSet (String × String)}
    (hpairs : ∀ ends ∈ pairs, ends ∈ assembly.linkPairs ∨ ends = link.ends) :
    assembly.KeepsLinks { assembly.pushLink link with linkPairs := pairs } where
  directed := rfl
  links _ hmem := Array.mem_push.mpr (.inl hmem)
  remembered hold ends hmem := by
    have hpush : (assembly.graph.links.push link).map Graph.Link.ends =
        assembly.linkEnds.push link.ends := Array.map_push
    rw [linkEnds, Assembly.pushLink, hpush, Array.mem_push]
    exact (hpairs ends hmem).imp_left (hold ends)

theorem addLink (assembly : Assembly) (attributes : Option AttributeList)
    (source target : String) :
    assembly.KeepsLinks (assembly.addLink attributes source target) := by
  have hends := ends_newLink assembly attributes source target
  cases hstrict : assembly.graph.strict with
  | false =>
      rw [addLink_of_loose hstrict]
      exact pushLink assembly _ fun _ hmem => .inl hmem
  | true =>
      rw [addLink_of_strict hstrict]
      split
      · exact ⟨rfl, fun _ hmem => hmem, id⟩
      · refine pushLink assembly _ fun ends hmem => ?_
        rw [hends]
        rw [Std.HashSet.mem_insert, beq_iff_eq] at hmem
        exact hmem.symm.imp_right Eq.symm

theorem perform (assembly : Assembly) (action : Action) :
    assembly.KeepsLinks (assembly.perform action) := by
  cases action with
  | link attributes source target => exact addLink assembly attributes source target
  | describe _ _ _ | mention _ _ | setDefaults _ _ | record _ _ _ =>
      exact of_linkPart (linkPart_perform rfl)

theorem performAll (assembly : Assembly) (actions : List Action) :
    assembly.KeepsLinks (assembly.performAll actions) :=
  List.foldlRecOn (motive := assembly.KeepsLinks) actions _ (refl assembly)
    fun new h action _ => h.trans (perform new action)

theorem joins (h : first.KeepsLinks second) (hjoins : first.graph.Joins source target) :
    second.graph.Joins source target := by
  obtain ⟨link, hmem, hlink⟩ := hjoins
  exact ⟨link, h.links link hmem, h.directed ▸ hlink⟩

end KeepsLinks

/-- What is linked on the way is joined in the end. -/
theorem LinksRemembered.joins_performAll (h : assembly.LinksRemembered) {actions : List Action}
    {attributes : Option AttributeList} (hmem : .link attributes source target ∈ actions) :
    (assembly.performAll actions).graph.Joins source target := by
  obtain ⟨front, back, rfl⟩ := List.append_of_mem hmem
  have hfront := (KeepsLinks.performAll assembly front).remembered h
  rw [performAll_append]
  exact (KeepsLinks.performAll _ back).joins (hfront.joins_addLink attributes source target)

end Assembly

namespace Tree

theorem Endpoint.mem_ends {endpoint : Endpoint} {id : String} :
    id ∈ endpoint.ends ↔ id ∈ endpoint.occurrences := by
  cases endpoint with
  | node _ | group _ _ => rw [Endpoint.ends, Endpoint.occurrences]
  | subgraph body =>
      obtain ⟨_, _, statements⟩ := body
      rw [Endpoint.ends, Endpoint.occurrences, List.mem_eraseDups]

theorem mem_linkActions {attributes : Option AttributeList} {left right : List String}
    {source target : String} (hsource : source ∈ left) (htarget : target ∈ right) :
    .link attributes source target ∈ linkActions attributes left right := by
  refine List.mem_map.mpr ⟨(source, target), ?_, rfl⟩
  exact List.mem_flatMap.mpr ⟨source, hsource, List.mem_map_of_mem htarget⟩

theorem mem_pairs {left right : List String} {source target : String} :
    (source, target) ∈ pairs left right ↔ source ∈ left ∧ target ∈ right := by
  simp [pairs]

/-- The steps of an edge are linked by its statement. -/
theorem mem_actionsOfHops (group : Option String) (attributes : Option AttributeList)
    {source target : String} {ids ends : List String} (hids : ∀ id ∈ ids, id ∈ ends)
    {hops : List Hop} (h : (source, target) ∈ stepsOfHops ids hops) :
    .link attributes source target ∈ actionsOfHops group attributes ends hops := by
  induction hops generalizing ids ends with
  | nil => nomatch h
  | cons hop hops ih =>
      obtain ⟨_, _, endpoint⟩ := hop
      have hright : ∀ id ∈ endpoint.ids, id ∈ endpoint.ends := by
        intro id hmem
        rw [Endpoint.ids_eq, List.mem_eraseDups] at hmem
        exact Endpoint.mem_ends.mpr hmem
      rw [stepsOfHops, List.mem_append, mem_pairs] at h
      rw [actionsOfHops, List.mem_append, List.mem_append]
      rcases h with ⟨hsource, htarget⟩ | hmore
      · exact .inl (.inr (mem_linkActions (hids source hsource) (hright target htarget)))
      · exact .inr (ih hright hmore)

theorem actionsOfAll_eq_flatMap (group : Option String) (statements : List Statement) :
    actionsOfAll group statements = statements.flatMap (Statement.actions group) := by
  induction statements with
  | nil => rw [actionsOfAll, List.flatMap_nil]
  | cons statement statements ih => rw [actionsOfAll, List.flatMap_cons, ih]

namespace Document

variable {document : Document} {source target : String}

theorem exists_link_action (h : (source, target) ∈ document.steps) :
    ∃ attributes, .link attributes source target ∈ document.actions := by
  obtain ⟨statement, hmem, hstep⟩ := List.mem_flatMap.mp h
  cases statement with
  | node _ _ _ | defaults _ _ _ | assign _ _ _ | subgraph _ => nomatch hstep
  | edge position left hops attributes =>
      refine ⟨attributes, ?_⟩
      rw [Document.actions, actionsOfAll_eq_flatMap]
      refine List.mem_flatMap.mpr ⟨_, hmem, ?_⟩
      rw [Statement.actions, List.mem_append]
      refine .inr (mem_actionsOfHops none attributes (fun id hid => ?_) hstep)
      rw [Endpoint.ids_eq, List.mem_eraseDups] at hid
      exact Endpoint.mem_ends.mpr hid

/-- The graph of a tree has a link for each step of the tree. -/
theorem joins_of_mem_steps (h : (source, target) ∈ document.steps) :
    document.toGraph.Joins source target := by
  obtain ⟨attributes, hmem⟩ := exists_link_action h
  rw [document.toGraph_eq]
  exact (Assembly.linksRemembered_start _ _ _).joins_performAll hmem

theorem consistent_ofDocument (document : Document) :
    (Assembly.ofDocument document).Consistent :=
  (Assembly.extends_process (Assembly.consistent_start _ _ _) _ _).consistent

theorem nodeIds_nodup (document : Document) :
    (document.toGraph.nodes.toList.map Graph.Node.id).Nodup := by
  have h := document.consistent_ofDocument.nodeIds_nodup
  rwa [Assembly.nodeIds, Array.toList_map] at h

theorem hasStep_of_mem_steps (h : (source, target) ∈ document.steps) :
    document.toGraph.hasStep (source, target) := by
  obtain ⟨link, hmem, hlink⟩ := joins_of_mem_steps h
  have hends : link.ends ∈ (Assembly.ofDocument document).linkEnds := Array.mem_map_of_mem hmem
  have hknown : ∀ id ∈ (Assembly.ofDocument document).nodeIds, document.toGraph.hasNode id := by
    intro id hid
    obtain ⟨node, hnode, rfl⟩ := Array.mem_map.mp hid
    exact Array.find?_isSome.mpr ⟨node, hnode, decide_eq_true rfl⟩
  -- a link has its ends in the graph, whichever way round it joins them
  obtain ⟨hfirst, hsecond⟩ := document.consistent_ofDocument.linkEnds _ hends
  rw [Graph.hasStep, Bool.and_eq_true]
  rcases (link.joins_iff source target _).mp hlink with heq | ⟨_, heq⟩
  · rw [heq] at hfirst hsecond
    exact ⟨hknown _ hfirst, hknown _ hsecond⟩
  · rw [heq] at hfirst hsecond
    exact ⟨hknown _ hsecond, hknown _ hfirst⟩

theorem pathInvalid_eq_false {node : Graph.Node} (h : node ∈ document.toGraph.nodes) :
    node.pathInvalid = false := by
  rw [document.toGraph_eq] at h
  exact (Assembly.unmarked_performAll _ _ _ _ h).2

end Document
end Tree

namespace Graph

/-- Where the first link stands that joins two nodes is a matter of the ends of the links. -/
theorem linkPlace?_eq (graph : Graph) (source target : String) :
    graph.linkPlace? source target = (graph.links.map Link.ends).findIdx? fun ends =>
      ends = (source, target) || (!graph.directed && ends = (target, source)) := by
  rw [Array.findIdx?_map, linkPlace?]
  simp only [Link.joins_eq, Function.comp_def]

theorem link?_addMarks (graph : Graph) (isOnPath isLost isLinkOnPath : Nat → Bool)
    (source target : String) :
    (graph.addMarks isOnPath isLost isLinkOnPath).link? source target =
      (graph.linkPlace? source target).bind fun place =>
        graph.links[place]?.map fun link => link.mark (isLinkOnPath place) := by
  have hends : (graph.addMarks isOnPath isLost isLinkOnPath).links.map Link.ends =
      graph.links.map Link.ends := map_mapIdx_of_eq _ _ _ fun _ _ => rfl
  have hplace : (graph.addMarks isOnPath isLost isLinkOnPath).linkPlace? source target =
      graph.linkPlace? source target := by
    rw [linkPlace?_eq, linkPlace?_eq, hends]
    rfl
  rw [link?_eq, hplace]
  simp [addMarks]

/-- A path whose steps are all in the graph is made to its end. -/
theorem walk_of_hasStep {graph : Graph} {path : Document}
    (hsteps : ∀ step ∈ path.steps, graph.hasStep step) :
    (graph.walk path).check = .success ∧
      (graph.walk path).graph = graph.addMarks
        (fun place => path.steps.any fun step =>
          (PathIndex.ofGraph graph).nodes[step.1]? = some place ||
            (PathIndex.ofGraph graph).nodes[step.2]? = some place)
        (fun _ => false)
        (fun place => path.steps.any fun step => graph.linkPlace? step.1 step.2 = some place) := by
  have hnone : graph.lostStep? path.steps = none := by
    simpa [lostStep?] using hsteps
  have hall : path.steps.takeWhile graph.hasStep = path.steps :=
    List.takeWhile_eq_self_iff.mpr hsteps
  rw [walk, walkSteps_check (hasNode_eq graph), walkSteps_graph (hasNode_eq graph), plainCheck,
    lostPlace?, hnone, hall]
  simp only [PathIndex.link?_ofGraph]
  exact ⟨rfl, rfl⟩

theorem linkOnPath_of_mem_steps {graph : Graph} {path : Document}
    (hsteps : ∀ step ∈ path.steps, graph.hasStep step) {source target : String}
    (hmem : (source, target) ∈ path.steps) (hjoins : graph.Joins source target) :
    ((graph.walk path).graph.link? source target).any Link.onPath := by
  have hfound : (graph.link? source target).isSome := Array.find?_isSome.mpr hjoins
  rw [link?_eq, Option.isSome_iff_exists] at hfound
  obtain ⟨link, hlink⟩ := hfound
  obtain ⟨place, hplace, hlink⟩ := Option.bind_eq_some_iff.mp hlink
  have hmark : path.steps.any fun step => graph.linkPlace? step.1 step.2 = some place :=
    List.any_eq_true.mpr ⟨_, hmem, decide_eq_true hplace⟩
  rw [(walk_of_hasStep hsteps).2, link?_addMarks, hplace, Option.bind_some, hlink]
  simp [Link.mark, hmark]

variable {graph : Graph} (h : (graph.nodes.toList.map Node.id).Nodup)
include h

theorem node?_addMarks (isOnPath isLost isLinkOnPath : Nat → Bool) (id : String) :
    (graph.addMarks isOnPath isLost isLinkOnPath).node? id =
      (PathIndex.ofGraph graph).nodes[id]?.bind fun place =>
        graph.nodes[place]?.map fun node => node.mark (isOnPath place) (isLost place) := by
  have hids : (graph.addMarks isOnPath isLost isLinkOnPath).nodes.map Node.id =
      graph.nodes.map Node.id := map_mapIdx_of_eq _ _ _ fun _ _ => rfl
  have hindexes := PathIndex.indexes_ofGraph h
  rw [← hids] at hindexes
  rw [node?, hindexes.find?_eq]
  simp [addMarks]

theorem onPath_of_mem_steps {path : Document} (hsteps : ∀ step ∈ path.steps, graph.hasStep step)
    {source target : String} (hmem : (source, target) ∈ path.steps) :
    ((graph.walk path).graph.node? source).any Node.onPath ∧
      ((graph.walk path).graph.node? target).any Node.onPath := by
  have hfound : ∀ id, graph.hasNode id → (id = source ∨ id = target) →
      ((graph.walk path).graph.node? id).any Node.onPath := by
    intro id hid hend
    rw [hasNode_eq, Option.isSome_iff_exists] at hid
    obtain ⟨place, hplace⟩ := hid
    obtain ⟨node, hnode, _⟩ := (PathIndex.indexes_ofGraph h).exists_of_getElem? hplace
    rw [(walk_of_hasStep hsteps).2, node?_addMarks h, hplace, Option.bind_some, hnode]
    have hmark : path.steps.any fun step =>
        (PathIndex.ofGraph graph).nodes[step.1]? = some place ||
          (PathIndex.ofGraph graph).nodes[step.2]? = some place := by
      refine List.any_eq_true.mpr ⟨_, hmem, ?_⟩
      rcases hend with rfl | rfl <;> simp [hplace]
    simp [Node.mark, hmark]
  have hstep := hsteps _ hmem
  rw [hasStep, Bool.and_eq_true] at hstep
  exact ⟨hfound source hstep.1 (.inl rfl), hfound target hstep.2 (.inr rfl)⟩

end Graph

namespace Tree.Document

theorem walk_toGraph_check (document : Document) :
    (document.toGraph.walk document).check = .success :=
  (Graph.walk_of_hasStep fun _ hmem => hasStep_of_mem_steps hmem).1

theorem pathInvalid_walk_toGraph {document : Document} {node : Graph.Node}
    (h : node ∈ (document.toGraph.walk document).graph.nodes) : node.pathInvalid = false := by
  rw [(Graph.walk_of_hasStep fun _ hmem => hasStep_of_mem_steps hmem).2,
    Graph.addMarks, Array.mem_mapIdx] at h
  obtain ⟨place, hplace, rfl⟩ := h
  simp [Graph.Node.mark, pathInvalid_eq_false (Array.getElem_mem hplace)]

end Tree.Document

/-- Every tree is a path through its own graph: no step is lost, and the nodes and links on the way
are there and marked.  So is every source in which nothing is wrong. -/
theorem Graph.walk_own_source :
    (∀ document : Document,
      (document.toGraph.walk document).check = .success ∧
      (∀ node ∈ (document.toGraph.walk document).graph.nodes, node.pathInvalid = false) ∧
      ∀ source target, (source, target) ∈ document.plainSteps →
        ((document.toGraph.walk document).graph.node? source).any Node.onPath ∧
        ((document.toGraph.walk document).graph.node? target).any Node.onPath ∧
        ((document.toGraph.walk document).graph.link? source target).any Link.onPath) ∧
    ∀ filename bytes, (parse filename bytes).isClean →
      ∃ graph walk, Graph.ofSource filename bytes = .ok graph ∧
        graph.walkSource filename bytes = .ok walk ∧ walk.check = .success := by
  refine ⟨fun document => ?_, fun filename bytes hclean => ?_⟩
  · refine ⟨document.walk_toGraph_check, fun node => document.pathInvalid_walk_toGraph, ?_⟩
    intro source target hmem
    rw [← document.steps_eq] at hmem
    have hsteps : ∀ step ∈ document.steps, document.toGraph.hasStep step :=
      fun _ hmem => document.hasStep_of_mem_steps hmem
    obtain ⟨hsource, htarget⟩ := onPath_of_mem_steps document.nodeIds_nodup hsteps hmem
    exact ⟨hsource, htarget, linkOnPath_of_mem_steps hsteps hmem
      (document.joins_of_mem_steps hmem)⟩
  · have hchecked : (parse filename bytes).checked = .ok (parse filename bytes).document :=
      if_pos hclean
    refine ⟨(parse filename bytes).document.toGraph, _, ?_, ?_,
      (parse filename bytes).document.walk_toGraph_check⟩
    · rw [Graph.ofSource, hchecked]
      rfl
    · rw [Graph.walkSource, Graph.highlight_of_checked_ok _ hchecked]

/-- Links that a strict graph refuses, one of them the other way round. -/
theorem Graph.walk_own_source_refused :
    (parse "" "strict graph\x7ba--\x7bb c\x7d--a; subgraph\x7bb--b\x7d--a\x7d".toUTF8).isClean ∧
      ∃ graph walk,
        Graph.ofSource ""
          "strict graph\x7ba--\x7bb c\x7d--a; subgraph\x7bb--b\x7d--a\x7d".toUTF8 = .ok graph ∧
        graph.walkSource ""
          "strict graph\x7ba--\x7bb c\x7d--a; subgraph\x7bb--b\x7d--a\x7d".toUTF8 = .ok walk ∧
        walk.check = .success :=
  have hclean : (parse ""
      "strict graph\x7ba--\x7bb c\x7d--a; subgraph\x7bb--b\x7d--a\x7d".toUTF8).isClean := by
    decide +kernel
  ⟨hclean, walk_own_source.2 "" _ hclean⟩

end DotGraph
