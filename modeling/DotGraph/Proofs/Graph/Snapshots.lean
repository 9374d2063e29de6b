import DotGraph.Proofs.Graph.Growth
import Mathlib.Data.List.Forall2

namespace DotGraph

/-! The attributes of links.  A link is made where the right endpoint of its hop ends, of what the
lists of edge defaults in front of that place give and of what its own statement says, and it does
not change any more. -/

open DotGraph.Tree

namespace Tree

/-- Something in a tree that decides the links of its graph. -/
inductive EdgeEvent where
  | defaults (entries : List (String × String))
  | link (own : List (String × String)) (ends : String × String)
deriving DecidableEq

/-- The defaults that an event gives. -/
def EdgeEvent.entries : EdgeEvent → List (String × String)
  | .defaults entries => entries
  | .link _ _ => []

mutual
/-- What decides the links, in the order of the source, in which a hop stands where its right endpoint
ends.  No subgraph limits what it is about. -/
def edgeEventsOfAll : List Statement → List EdgeEvent
  | [] => []
  | statement :: statements => statement.edgeEvents ++ edgeEventsOfAll statements

def Statement.edgeEvents : Statement → List EdgeEvent
  | .edge _ left hops attributes =>
      left.edgeEvents ++ edgeEventsOfHops (Assembly.pairsOf attributes) left.ends hops
  | .defaults _ .edge attributes => [.defaults (Assembly.pairsOf attributes)]
  | .defaults _ .graph _ | .defaults _ .node _ | .node _ _ _ | .assign _ _ _ => []
  | .subgraph body => body.edgeEvents

def edgeEventsOfHops (own : List (String × String)) (left : List String) :
    List Hop → List EdgeEvent
  | [] => []
  | ⟨_, _, endpoint⟩ :: hops =>
      endpoint.edgeEvents ++ (pairs left endpoint.ends).map (.link own) ++
        edgeEventsOfHops own endpoint.ends hops

def Endpoint.edgeEvents : Endpoint → List EdgeEvent
  | .node _ | .group _ _ => []
  | .subgraph body => body.edgeEvents

def Subgraph.edgeEvents : Subgraph → List EdgeEvent
  | ⟨_, _, statements⟩ => edgeEventsOfAll statements
end

def Document.edgeEvents (document : Document) : List EdgeEvent :=
  edgeEventsOfAll document.statements

/-- A link as a tree tells of it: what its own statement says, and what the lists of edge defaults in
front of the end of its right endpoint give. -/
structure Linking where
  ends : String × String
  own : List (String × String)
  given : List (String × String)
deriving DecidableEq

def linkingsAfter (given : List (String × String)) : List EdgeEvent → List Linking
  | [] => []
  | .defaults entries :: events => linkingsAfter (given ++ entries) events
  | .link own ends :: events => ⟨ends, own, given⟩ :: linkingsAfter given events

def Document.linkings (document : Document) : List Linking :=
  linkingsAfter [] document.edgeEvents

/-- The value of a key: the last one that the statement of the link gives it, or else the last one
among the defaults.  Fields that no one gives a value are empty. -/
def Linking.value? (linking : Linking) (key : String) : Option String :=
  (lastValue key linking.own).or
    ((lastValue key linking.given).or (if key ∈ Graph.Link.fieldKeys then some "" else none))

/-- A link is what the tree tells. -/
structure Linking.Describes (linking : Linking) (link : Graph.Link) : Prop where
  ends : link.ends = linking.ends
  value? : ∀ key, link.value? key = linking.value? key
  tidy : link.Tidy
  onPath : link.onPath = false

/-- No two links are told in the same way. -/
theorem Linking.Describes.unique {linking : Linking} {first second : Graph.Link}
    (h : linking.Describes first) (k : linking.Describes second) : first = second :=
  Graph.Link.eq_of_value? (h.ends.trans k.ends.symm) (h.onPath.trans k.onPath.symm) h.tidy k.tidy
    fun key => (h.value? key).trans (k.value? key).symm

/-- The link that is told of. -/
def Linking.link (linking : Linking) : Graph.Link :=
  Graph.Link.setAll { source := linking.ends.1, target := linking.ends.2 }
    (linking.given ++ linking.own)

theorem Linking.describes_link (linking : Linking) : linking.Describes linking.link where
  ends := Graph.Link.ends_setAll _ _
  value? key := by
    rw [Linking.link, Graph.Link.value?_setAll, Graph.Link.value?_plain, lastValue_append,
      Option.or_assoc]
    rfl
  tidy := .setAll (Graph.Link.tidy_plain _ _) _
  onPath := Graph.Link.onPath_setAll _ _

/-- The events in front of a link are what is given to it. -/
theorem exists_split_of_mem_linkingsAfter {given : List (String × String)}
    {events : List EdgeEvent} {linking : Linking} (h : linking ∈ linkingsAfter given events) :
    ∃ front back, events = front ++ .link linking.own linking.ends :: back ∧
      linking.given = given ++ front.flatMap EdgeEvent.entries := by
  induction events generalizing given with
  | nil => nomatch h
  | cons event events ih =>
      cases event with
      | defaults entries =>
          obtain ⟨front, back, rfl, hgiven⟩ := ih h
          refine ⟨.defaults entries :: front, back, rfl, ?_⟩
          rw [hgiven, List.flatMap_cons, List.append_assoc]
          rfl
      | link own ends =>
          rcases List.mem_cons.mp h with rfl | hmem
          · exact ⟨[], events, rfl, (List.append_nil given).symm⟩
          · obtain ⟨front, back, rfl, hgiven⟩ := ih hmem
            exact ⟨.link own ends :: front, back, rfl, hgiven⟩

/-- Which ends are linked does not depend on what is given. -/
theorem exists_linking_of_mem (given later : List (String × String)) {events : List EdgeEvent}
    {linking : Linking} (h : linking ∈ linkingsAfter later events) :
    ∃ other ∈ linkingsAfter given events, other.ends = linking.ends := by
  induction events generalizing given later with
  | nil => nomatch h
  | cons event events ih =>
      cases event with
      | defaults entries => exact ih _ _ h
      | link own ends =>
          rcases List.mem_cons.mp h with rfl | hmem
          · exact ⟨_, List.mem_cons_self, rfl⟩
          · obtain ⟨other, hother, hends⟩ := ih given later hmem
            exact ⟨other, List.mem_cons_of_mem _ hother, hends⟩

end Tree

def Action.edgeEvent? : Action → Option EdgeEvent
  | .setDefaults .edge attributes => some (.defaults (Assembly.pairsOf attributes))
  | .link attributes source target => some (.link (Assembly.pairsOf attributes) (source, target))
  | .setDefaults .graph _ | .setDefaults .node _ | .describe _ _ _ | .mention _ _
  | .record _ _ _ => none

namespace Tree

theorem filterMap_edgeEvent?_linkActions (attributes : Option AttributeList)
    (left right : List String) :
    (linkActions attributes left right).filterMap Action.edgeEvent? =
      (pairs left right).map (.link (Assembly.pairsOf attributes)) := by
  rw [linkActions, List.filterMap_map, ← List.filterMap_eq_map]
  rfl

theorem filterMap_edgeEvent?_mentions (group : Option String) (nodes : List NodeId) :
    (nodes.map fun node => Action.mention node.name group).filterMap Action.edgeEvent? = [] := by
  rw [List.filterMap_map]
  exact List.filterMap_eq_nil_iff.mpr fun _ _ => rfl

mutual
theorem filterMap_edgeEvent?_actionsOfAll :
    (group : Option String) → (statements : List Statement) →
    (actionsOfAll group statements).filterMap Action.edgeEvent? = edgeEventsOfAll statements
  | group, [] => by rw [actionsOfAll, edgeEventsOfAll, List.filterMap_nil]
  | group, statement :: statements => by
      rw [actionsOfAll, edgeEventsOfAll, List.filterMap_append,
        filterMap_edgeEvent?_actions group statement,
        filterMap_edgeEvent?_actionsOfAll group statements]

theorem filterMap_edgeEvent?_actions : (group : Option String) → (statement : Statement) →
    (statement.actions group).filterMap Action.edgeEvent? = statement.edgeEvents
  | group, .node _ _ _ => by
      rw [Statement.actions, Statement.edgeEvents]
      rfl
  | group, .edge _ left hops attributes => by
      rw [Statement.actions, Statement.edgeEvents, List.filterMap_append,
        filterMap_edgeEvent?_endpoint group left,
        filterMap_edgeEvent?_hops group attributes left.ends hops]
  | group, .defaults _ subject _ => by
      cases subject <;> rw [Statement.actions, Statement.edgeEvents] <;> rfl
  | group, .assign _ _ _ => by
      rw [Statement.actions, Statement.edgeEvents, List.filterMap_nil]
  | group, .subgraph body => by
      rw [Statement.actions, Statement.edgeEvents]
      exact filterMap_edgeEvent?_subgraph group body

theorem filterMap_edgeEvent?_hops :
    (group : Option String) → (attributes : Option AttributeList) →
    (left : List String) → (hops : List Hop) →
    (actionsOfHops group attributes left hops).filterMap Action.edgeEvent? =
      edgeEventsOfHops (Assembly.pairsOf attributes) left hops
  | group, attributes, left, [] => by
      rw [actionsOfHops, edgeEventsOfHops, List.filterMap_nil]
  | group, attributes, left, ⟨_, _, endpoint⟩ :: hops => by
      rw [actionsOfHops, edgeEventsOfHops, List.filterMap_append, List.filterMap_append,
        filterMap_edgeEvent?_endpoint group endpoint, filterMap_edgeEvent?_linkActions,
        filterMap_edgeEvent?_hops group attributes endpoint.ends hops]

theorem filterMap_edgeEvent?_endpoint : (group : Option String) → (endpoint : Endpoint) →
    (endpoint.actions group).filterMap Action.edgeEvent? = endpoint.edgeEvents
  | group, .node _ => by
      rw [Endpoint.actions, Endpoint.edgeEvents]
      rfl
  | group, .group _ nodes => by
      rw [Endpoint.actions, Endpoint.edgeEvents]
      exact filterMap_edgeEvent?_mentions group nodes
  | group, .subgraph body => by
      rw [Endpoint.actions, Endpoint.edgeEvents]
      exact filterMap_edgeEvent?_subgraph group body

theorem filterMap_edgeEvent?_subgraph : (group : Option String) → (body : Subgraph) →
    (body.actions group).filterMap Action.edgeEvent? = body.edgeEvents
  | group, ⟨_, none, statements⟩ => by
      rw [Subgraph.actions, Subgraph.edgeEvents]
      exact filterMap_edgeEvent?_actionsOfAll group statements
  | group, ⟨_, some ident, statements⟩ => by
      rw [Subgraph.actions, Subgraph.edgeEvents, List.filterMap_append,
        filterMap_edgeEvent?_actionsOfAll (some ident.name) statements]
      exact List.append_nil _
end

end Tree

namespace Assembly

variable {assembly : Assembly}

/-- The defaults of links are the last values that have been given. -/
def HasGiven (assembly : Assembly) (given : List (String × String)) : Prop :=
  ∀ key, assembly.linkDefaults.get? key = lastValue key given

theorem hasGiven_start (directed strict : Bool) (id : Option String) :
    (start directed strict id).HasGiven [] :=
  fun _ => rfl

theorem HasGiven.setDefaults_edge {given : List (String × String)} (h : assembly.HasGiven given)
    (attributes : Option AttributeList) :
    (assembly.setDefaults .edge attributes).HasGiven (given ++ pairsOf attributes) := by
  intro key
  rw [setDefaults, Attributes.get?_setAll, h key, lastValue_append]

theorem newLink_eq {given : List (String × String)} (h : assembly.HasGiven given)
    (attributes : Option AttributeList) (source target : String) :
    assembly.newLink attributes source target =
      Linking.link ⟨(source, target), pairsOf attributes, given⟩ := by
  have hdescribes : Linking.Describes ⟨(source, target), pairsOf attributes, given⟩
      (assembly.newLink attributes source target) := by
    refine ⟨ends_newLink assembly attributes source target, fun key => ?_, ?_, ?_⟩
    · rw [newLink, Graph.Link.value?_setAll, Graph.Link.value?_setAll, Graph.Link.value?_plain,
        Attributes.lastValue_entries, h key]
      rfl
    · exact .setAll (.setAll (Graph.Link.tidy_plain source target) _) _
    · rw [newLink, Graph.Link.onPath_setAll, Graph.Link.onPath_setAll]
  exact hdescribes.unique (Linking.describes_link _)

theorem linkDefaults_updateNode (assembly : Assembly) (id : String)
    (change : Graph.Node → Graph.Node) :
    (assembly.updateNode id change).linkDefaults = assembly.linkDefaults := by
  rw [updateNode_eq, modifyNode]
  unfold slot
  split <;> rfl

theorem linkDefaults_recordSubgraph (assembly : Assembly) (name : String) (ids : List String)
    (statements : List Statement) :
    (assembly.recordSubgraph name ids statements).linkDefaults = assembly.linkDefaults := by
  have hslot : (assembly.subgraphSlot name).2.linkDefaults = assembly.linkDefaults := by
    unfold subgraphSlot
    split <;> rfl
  have hmembers : ∀ place, (ids.foldl (fun assembly id => assembly.addMember place id)
      (assembly.subgraphSlot name).2).linkDefaults = assembly.linkDefaults := by
    intro place
    refine List.foldlRecOn (motive := fun new : Assembly => new.linkDefaults = assembly.linkDefaults)
      ids _ hslot fun new h id _ => ?_
    unfold addMember
    split <;> exact h
  exact List.foldlRecOn (motive := fun new : Assembly => new.linkDefaults = assembly.linkDefaults)
    (assignments statements) _ (hmembers _) fun new h entry _ => h

/-- An action without an event changes neither links nor their defaults. -/
theorem perform_of_no_edgeEvent (assembly : Assembly) {action : Action}
    (h : action.edgeEvent? = none) :
    (assembly.perform action).linkPart = assembly.linkPart ∧
      (assembly.perform action).linkDefaults = assembly.linkDefaults := by
  cases action with
  | describe id attributes group => exact ⟨linkPart_perform rfl, linkDefaults_updateNode _ _ _⟩
  | mention id group => exact ⟨linkPart_perform rfl, linkDefaults_updateNode _ _ _⟩
  | setDefaults subject attributes =>
      cases subject with
      | graph | node => exact ⟨rfl, rfl⟩
      | edge => nomatch h
  | link _ _ _ => nomatch h
  | record name ids statements =>
      exact ⟨linkPart_perform rfl, linkDefaults_recordSubgraph _ _ _ _⟩

/-- A loose assembly makes the links that its actions tell of, of what is given in front of each. -/
theorem links_performAll {given : List (String × String)}
    (hgiven : assembly.HasGiven given) (hstrict : assembly.graph.strict = false)
    (actions : List Action) :
    (assembly.performAll actions).graph.links.toList = assembly.graph.links.toList ++
      (linkingsAfter given (actions.filterMap Action.edgeEvent?)).map Linking.link := by
  induction actions generalizing assembly given with
  | nil => exact (List.append_nil _).symm
  | cons action actions ih =>
      rw [List.filterMap_cons]
      cases hevent : action.edgeEvent? with
      | none =>
          obtain ⟨hpart, hdefaults⟩ := perform_of_no_edgeEvent assembly hevent
          have hlinks : (assembly.perform action).graph.links = assembly.graph.links :=
            congrArg LinkPart.links hpart
          have hgiven : (assembly.perform action).HasGiven given := by
            rw [HasGiven, hdefaults]
            exact hgiven
          rw [← hlinks]
          exact ih hgiven ((congrArg LinkPart.strict hpart).trans hstrict)
      | some event =>
          cases action with
          | describe _ _ _ | mention _ _ | record _ _ _ => nomatch hevent
          | setDefaults subject attributes =>
              cases subject with
              | graph | node => nomatch hevent
              | edge =>
                  obtain rfl := Option.some.inj hevent
                  exact ih (hgiven.setDefaults_edge attributes) hstrict
          | link attributes source target =>
              obtain rfl := Option.some.inj hevent
              have hadd := addLink_of_loose hstrict attributes source target
              rw [newLink_eq hgiven] at hadd
              have hgiven : (assembly.addLink attributes source target).HasGiven given := by
                rw [hadd]
                exact hgiven
              refine (ih hgiven (by rw [hadd]; exact hstrict)).trans ?_
              rw [hadd, pushLink, Array.toList_push, ← List.append_cons]
              rfl

theorem links_performAll_start (directed strict : Bool) (name : Option String)
    (actions : List Action) :
    let links := (linkingsAfter [] (actions.filterMap Action.edgeEvent?)).map Linking.link
    ((start directed strict name).performAll actions).graph.links.toList =
      if strict then Graph.firstLinks directed links else links := by
  have hlinks := links_performAll (hasGiven_start directed false name) rfl actions
  cases strict with
  | false => exact hlinks
  | true => exact ((thinned_start directed name).performAll actions).links.trans (congrArg _ hlinks)

end Assembly

/-- A document with more statements behind those that it has. -/
def Tree.Document.followedBy (document : Document) (later : List Statement) : Document :=
  { document with statements := document.statements ++ later }

namespace Tree.Document

theorem links_isPrefix_followedBy (document : Document) (later : List Statement) :
    document.toGraph.links.toList <+: (document.followedBy later).toGraph.links.toList := by
  rw [toGraph_eq, toGraph_eq, actions, actions, followedBy, actionsOfAll_append,
    Assembly.performAll_append]
  exact (Assembly.enlarges_foldl _ Assembly.enlarges_perform _).links.isPrefix

/-- Links are snapshots.  The links of a graph are those of which its tree tells, in their order and in
a strict graph without those that an earlier one joins the ends of.  Each has the values that its own
statement gives, and else those of the edge defaults in front of the end of its hop, and statements
behind all others leave the links as they are. -/
theorem links_toGraph (document : Document) :
    (∃ links, document.linkings.Forall₂ Linking.Describes links ∧
      document.toGraph.links.toList =
        if document.strict then Graph.firstLinks document.directed links else links) ∧
      (∀ linking ∈ document.linkings, ∃ front back,
        document.edgeEvents = front ++ .link linking.own linking.ends :: back ∧
        linking.given = front.flatMap EdgeEvent.entries) ∧
      ∀ later,
        document.toGraph.links.toList <+: (document.followedBy later).toGraph.links.toList := by
  refine ⟨?_, fun linking hmem => ?_, document.links_isPrefix_followedBy⟩
  · refine ⟨document.linkings.map Linking.link, ?_, ?_⟩
    · rw [List.forall₂_map_right_iff, List.forall₂_same]
      exact fun linking _ => linking.describes_link
    · have hlinks := Assembly.links_performAll_start document.directed document.strict
        (document.ident.map Ident.name) document.actions
      rw [Document.actions, filterMap_edgeEvent?_actionsOfAll] at hlinks
      rw [toGraph_eq]
      exact hlinks
  · exact exists_split_of_mem_linkingsAfter hmem

private def spot (name : String) : NodeId :=
  ⟨.nowhere, ⟨.nowhere, name, .bare⟩, none⟩

private def saying (key value : String) : Option AttributeList :=
  some ⟨.nowhere, [⟨.nowhere, ⟨.nowhere, key, .bare⟩, ⟨.nowhere, value, .bare⟩⟩]⟩

/-- The defaults inside the endpoint of the second hop are in front of the end of that hop, and behind
the first one. -/
example :
    linkings ⟨.nowhere, false, true, none,
      [.edge .nowhere (.node (spot "a"))
        [⟨.nowhere, true, .node (spot "b")⟩,
          ⟨.nowhere, true, .subgraph ⟨.nowhere, none,
            [.defaults .nowhere .edge (saying "color" "red"), .node .nowhere (spot "c") none]⟩⟩,
          ⟨.nowhere, true, .node (spot "d")⟩] (saying "style" "bold")]⟩ =
      [⟨("a", "b"), [("style", "bold")], []⟩,
        ⟨("b", "c"), [("style", "bold")], [("color", "red")]⟩,
        ⟨("c", "d"), [("style", "bold")], [("color", "red")]⟩] := by
  decide

end Tree.Document

end DotGraph
