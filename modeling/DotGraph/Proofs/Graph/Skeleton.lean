import DotGraph.Proofs.Graph.Merging
import DotGraph.Proofs.Graph.Nodes
import DotGraph.Proofs.Graph.Strict

namespace DotGraph

/-! What a graph consists of is told by the ids in its tree alone: its nodes are those that occur, in
the order of the source, and its links are listed by going through the edges. -/

open DotGraph.Tree

namespace Tree

mutual
/-- The ends of the links that a part of a tree makes.  An edge first has the links inside its left
endpoint, and then for each hop those inside the endpoint of the hop and those to it. -/
def edgesOfAll : List Statement → List (String × String)
  | [] => []
  | statement :: statements => statement.edges ++ edgesOfAll statements

def Statement.edges : Statement → List (String × String)
  | .edge _ left hops _ => left.edges ++ edgesOfHops left.ends hops
  | .subgraph body => body.edges
  | .node _ _ _ | .defaults _ _ _ | .assign _ _ _ => []

def edgesOfHops (left : List String) : List Hop → List (String × String)
  | [] => []
  | ⟨_, _, endpoint⟩ :: hops =>
      endpoint.edges ++ pairs left endpoint.ends ++ edgesOfHops endpoint.ends hops

def Endpoint.edges : Endpoint → List (String × String)
  | .node _ | .group _ _ => []
  | .subgraph body => body.edges

def Subgraph.edges : Subgraph → List (String × String)
  | ⟨_, _, statements⟩ => edgesOfAll statements
end

def Document.edges (document : Document) : List (String × String) :=
  edgesOfAll document.statements

end Tree

/-- The node that an action is about. -/
def Action.id? : Action → Option String
  | .describe id _ _ | .mention id _ => some id
  | .setDefaults _ _ | .link _ _ _ | .record _ _ _ => none

theorem tells_id : Tells Action.id? Event.id? where
  describe _ _ _ := rfl
  mention _ _ := rfl
  setDefaults _ _ := rfl
  link _ _ _ := rfl
  record _ _ _ _ := rfl
  assign _ _ _ := rfl
  close _ _ _ := rfl

namespace Tree

theorem filterMap_ends?_linkActions (attributes : Option AttributeList)
    (left right : List String) :
    (linkActions attributes left right).filterMap Action.ends? = pairs left right := by
  rw [linkActions, List.filterMap_map]
  exact List.filterMap_some

theorem filterMap_ends?_mentions (group : Option String) (nodes : List NodeId) :
    (nodes.map fun node => Action.mention node.name group).filterMap Action.ends? = [] := by
  rw [List.filterMap_map]
  exact List.filterMap_eq_nil_iff.mpr fun _ _ => rfl

mutual
theorem filterMap_ends?_actionsOfAll : (group : Option String) → (statements : List Statement) →
    (actionsOfAll group statements).filterMap Action.ends? = edgesOfAll statements
  | group, [] => by rw [actionsOfAll, edgesOfAll, List.filterMap_nil]
  | group, statement :: statements => by
      rw [actionsOfAll, edgesOfAll, List.filterMap_append,
        filterMap_ends?_actions group statement, filterMap_ends?_actionsOfAll group statements]

theorem filterMap_ends?_actions : (group : Option String) → (statement : Statement) →
    (statement.actions group).filterMap Action.ends? = statement.edges
  | group, .node _ _ _ => by
      rw [Statement.actions, Statement.edges]
      rfl
  | group, .edge _ left hops attributes => by
      rw [Statement.actions, Statement.edges, List.filterMap_append,
        filterMap_ends?_endpoint group left,
        filterMap_ends?_hops group attributes left.ends hops]
  | group, .defaults _ _ _ => by
      rw [Statement.actions, Statement.edges]
      rfl
  | group, .assign _ _ _ => by
      rw [Statement.actions, Statement.edges, List.filterMap_nil]
  | group, .subgraph body => by
      rw [Statement.actions, Statement.edges]
      exact filterMap_ends?_subgraph group body

theorem filterMap_ends?_hops : (group : Option String) → (attributes : Option AttributeList) →
    (left : List String) → (hops : List Hop) →
    (actionsOfHops group attributes left hops).filterMap Action.ends? = edgesOfHops left hops
  | group, attributes, left, [] => by rw [actionsOfHops, edgesOfHops, List.filterMap_nil]
  | group, attributes, left, ⟨_, _, endpoint⟩ :: hops => by
      rw [actionsOfHops, edgesOfHops, List.filterMap_append, List.filterMap_append,
        filterMap_ends?_endpoint group endpoint, filterMap_ends?_linkActions,
        filterMap_ends?_hops group attributes endpoint.ends hops]

theorem filterMap_ends?_endpoint : (group : Option String) → (endpoint : Endpoint) →
    (endpoint.actions group).filterMap Action.ends? = endpoint.edges
  | group, .node _ => by
      rw [Endpoint.actions, Endpoint.edges]
      rfl
  | group, .group _ nodes => by
      rw [Endpoint.actions, Endpoint.edges]
      exact filterMap_ends?_mentions group nodes
  | group, .subgraph body => by
      rw [Endpoint.actions, Endpoint.edges]
      exact filterMap_ends?_subgraph group body

theorem filterMap_ends?_subgraph : (group : Option String) → (body : Subgraph) →
    (body.actions group).filterMap Action.ends? = body.edges
  | group, ⟨_, none, statements⟩ => by
      rw [Subgraph.actions, Subgraph.edges]
      exact filterMap_ends?_actionsOfAll group statements
  | group, ⟨_, some ident, statements⟩ => by
      rw [Subgraph.actions, Subgraph.edges, List.filterMap_append,
        filterMap_ends?_actionsOfAll (some ident.name) statements]
      exact List.append_nil _
end

end Tree

namespace Assembly

variable {assembly : Assembly}

/-- A loose assembly has a link more for each action that links. -/
theorem linkEnds_perform (h : assembly.graph.strict = false) (action : Action) :
    (assembly.perform action).graph.strict = false ∧
      (assembly.perform action).linkEnds.toList =
        assembly.linkEnds.toList ++ action.ends?.toList := by
  cases hends : action.ends? with
  | none =>
      have hpart : (assembly.perform action).linkPart = assembly.linkPart := linkPart_perform hends
      have hlinks : (assembly.perform action).graph.links = assembly.graph.links :=
        congrArg LinkPart.links hpart
      refine ⟨(congrArg LinkPart.strict hpart).trans h, ?_⟩
      rw [linkEnds, hlinks, Option.toList_none, List.append_nil]
      rfl
  | some ends =>
      cases action with
      | describe _ _ _ | mention _ _ | setDefaults _ _ | record _ _ _ =>
          simp [Action.ends?] at hends
      | link attributes source target =>
          obtain rfl := Option.some.inj hends
          rw [perform, addLink_of_loose h]
          refine ⟨h, ?_⟩
          rw [linkEnds, pushLink, Array.map_push, ends_newLink, Array.toList_push]
          rfl

theorem linkEnds_performAll (h : assembly.graph.strict = false) (actions : List Action) :
    (assembly.performAll actions).linkEnds.toList =
      assembly.linkEnds.toList ++ actions.filterMap Action.ends? := by
  induction actions generalizing assembly with
  | nil => exact (List.append_nil _).symm
  | cons action actions ih =>
      obtain ⟨hstrict, hends⟩ := linkEnds_perform h action
      refine (ih hstrict).trans ?_
      rw [hends, List.append_assoc, List.filterMap_cons]
      cases action.ends? <;> rfl

theorem nodeIds_congr {first second : Assembly} (h : first.nodePart = second.nodePart) :
    first.nodeIds = second.nodeIds := by
  rw [nodeIds, show first.graph.nodes = second.graph.nodes from congrArg NodePart.nodes h]
  rfl

theorem Indexed.nodeIds_updateNode (h : assembly.Indexed) {change : Graph.Node → Graph.Node}
    (hid : ∀ node, (change node).id = node.id) {seen : List String}
    (hseen : assembly.nodeIds.toList = seen.eraseDups) (id : String) :
    (assembly.updateNode id change).nodeIds.toList = (seen ++ [id]).eraseDups := by
  have hchange : (assembly.updateNode id change).nodeIds = (assembly.slot id).2.nodeIds :=
    map_modify_of_eq _ _ _ _ hid
  rw [hchange, Indexes.eraseDups_concat h hseen]
  unfold Assembly.slot
  cases assembly.nodeIndex[id]? with
  | some place => rfl
  | none =>
      rw [nodeIds, Array.map_push]
      rfl

/-- An action adds the node that it is about, if it has not been seen yet. -/
theorem Indexed.nodeIds_perform (h : assembly.Indexed) {seen : List String}
    (hseen : assembly.nodeIds.toList = seen.eraseDups) (action : Action) :
    (assembly.perform action).nodeIds.toList = (seen ++ action.id?.toList).eraseDups := by
  have hkeep : ∀ new : Assembly, new.nodePart = assembly.nodePart →
      new.nodeIds.toList = (seen ++ []).eraseDups := by
    intro new hpart
    rw [nodeIds_congr hpart, hseen, List.append_nil]
  cases action with
  | describe id _ _ | mention id _ => exact h.nodeIds_updateNode (fun node => by simp) hseen id
  | setDefaults subject _ =>
      cases subject <;> exact hseen.trans (congrArg _ (List.append_nil seen).symm)
  | link _ _ _ => exact hkeep _ (nodePart_addLink _ _ _ _)
  | record _ _ _ => exact hkeep _ (nodePart_recordSubgraph _ _ _ _)

theorem Indexed.nodeIds_performAll (h : assembly.Indexed) {seen : List String}
    (hseen : assembly.nodeIds.toList = seen.eraseDups) (actions : List Action) :
    (assembly.performAll actions).nodeIds.toList =
      (seen ++ actions.filterMap Action.id?).eraseDups := by
  induction actions generalizing assembly seen with
  | nil => exact hseen.trans (congrArg _ (List.append_nil seen).symm)
  | cons action actions ih =>
      refine (ih (h.perform action) (h.nodeIds_perform hseen action)).trans ?_
      rw [List.append_assoc, List.filterMap_cons]
      cases action.id? <;> rfl

theorem nodeIds_performAll_start (directed strict : Bool) (id : Option String)
    (actions : List Action) :
    ((start directed strict id).performAll actions).nodeIds.toList =
      (actions.filterMap Action.id?).eraseDups := by
  have hnone : (start directed strict id).nodeIds.toList = [].eraseDups := by
    rw [nodeIds_start]
    rfl
  rw [(indexed_start directed strict id).nodeIds_performAll hnone, List.nil_append]

end Assembly

namespace Tree.Document

theorem nodeIds_toGraph (document : Document) :
    document.toGraph.nodes.toList.map Graph.Node.id =
      (occurrencesOfAll document.statements).eraseDups := by
  have hids := Assembly.nodeIds_performAll_start document.directed document.strict
    (document.ident.map Ident.name) document.actions
  rw [tells_id.filterMap_document, document.recounts_events.ids_eq, Assembly.nodeIds,
    Array.toList_map] at hids
  rw [document.toGraph_eq]
  exact hids

theorem linkEnds_toGraph {document : Document} (h : document.strict = false) :
    document.toGraph.links.toList.map Graph.Link.ends = document.edges := by
  have hloose : (Assembly.start document.directed document.strict
      (document.ident.map Ident.name)).graph.strict = false := h
  have hends := Assembly.linkEnds_performAll hloose document.actions
  rw [Assembly.linkEnds_start, List.nil_append, Document.actions, filterMap_ends?_actionsOfAll,
    Assembly.linkEnds, Array.toList_map] at hends
  rw [document.toGraph_eq]
  exact hends

/-- The ids in a tree make the skeleton of its graph: the nodes that occur in it, in the order of the
source, and unless it is strict the links that its edges list. -/
theorem skeleton_toGraph (document : Document) (h : document.strict = false) :
    document.toGraph.nodes.toList.map Graph.Node.id =
        (occurrencesOfAll document.statements).eraseDups ∧
      document.toGraph.links.toList.map Graph.Link.ends = document.edges :=
  ⟨document.nodeIds_toGraph, linkEnds_toGraph h⟩

private def vertex (name : String) : NodeId :=
  ⟨.nowhere, ⟨.nowhere, name, .bare⟩, none⟩

private def hopTo (endpoint : Endpoint) : Hop :=
  ⟨.nowhere, true, endpoint⟩

/-- A group that repeats an id, and behind it a subgraph that has an edge in it. -/
private def interlaced : Document :=
  ⟨.nowhere, false, true, none,
    [.edge .nowhere (.node (vertex "a"))
      [hopTo (.group .nowhere [vertex "b", vertex "b"]),
        hopTo (.subgraph ⟨.nowhere, none,
          [.edge .nowhere (.node (vertex "c")) [hopTo (.node (vertex "a"))] none,
            .node .nowhere (vertex "c") none]⟩)] none]⟩

theorem skeleton_toGraph_interlaced :
    interlaced.strict = false ∧
      interlaced.toGraph.nodes.toList.map Graph.Node.id = ["a", "b", "c"] ∧
      interlaced.toGraph.links.toList.map Graph.Link.ends =
        [("a", "b"), ("a", "b"), ("c", "a"), ("b", "c"), ("b", "a"), ("b", "c"), ("b", "a")] := by
  obtain ⟨hnodes, hlinks⟩ := skeleton_toGraph interlaced rfl
  refine ⟨rfl, ?_, ?_⟩
  · rw [hnodes]
    decide
  · rw [hlinks]
    decide

end Tree.Document

end DotGraph
