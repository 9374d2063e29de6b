import DotGraph.Proofs.Graph.Replacement
import DotGraph.Proofs.Graph.Values

namespace DotGraph

/-! An edge with several hops is its hops, if none of its endpoints is a subgraph.  Hop by hop each
endpoint between two others is taken twice, and it has to make no difference the second time. -/

open DotGraph.Tree

namespace Tree

/-- Node ids and groups of them are plain, subgraphs are not. -/
def Endpoint.isPlain : Endpoint → Bool
  | .node _ | .group _ _ => true
  | .subgraph _ => false

/-- An edge for each hop, from the endpoint before it. -/
def stepwise (attributes : Option AttributeList) (left : Endpoint) : List Hop → List Statement
  | [] => []
  | hop :: hops =>
      .edge left.position left [hop] attributes :: stepwise attributes hop.endpoint hops

theorem insertAll_stepwise (ids : FirstSeen) (attributes : Option AttributeList) (left : Endpoint)
    (hops : List Hop) :
    (ids.insertAll left.occurrences).insertAll (occurrencesOfAll (stepwise attributes left hops)) =
      (ids.insertAll left.occurrences).insertAll (occurrencesOfHops hops) := by
  induction hops generalizing ids left with
  | nil => rw [stepwise, occurrencesOfAll, occurrencesOfHops]
  | cons hop hops ih =>
      obtain ⟨_, _, endpoint⟩ := hop
      rw [stepwise, occurrencesOfAll, Statement.occurrences, occurrencesOfHops, occurrencesOfHops,
        occurrencesOfHops, List.append_nil]
      simp only [FirstSeen.insertAll_append, FirstSeen.insertAll_again]
      exact ih (ids.insertAll left.occurrences) endpoint

theorem assignments_stepwise (attributes : Option AttributeList) (left : Endpoint)
    (hops : List Hop) : Assembly.assignments (stepwise attributes left hops) = [] := by
  induction hops generalizing left with
  | nil => rfl
  | cons hop hops ih => exact ih hop.endpoint

end Tree

namespace Assembly

variable {assembly : Assembly} {group : Option String} {id : String}

theorem Indexed.updateNode_eq_self (h : assembly.Indexed) {change : Graph.Node → Graph.Node}
    {place : Nat} (hplace : assembly.nodeIndex[id]? = some place)
    (hchange : change (assembly.nodeOrNew id) = assembly.nodeOrNew id) :
    assembly.updateNode id change = assembly := by
  obtain ⟨node, hnode, _⟩ := Indexes.exists_of_getElem? h hplace
  have hfound : assembly.nodeOrNew id = node := by
    rw [nodeOrNew, h.node?_eq, hplace, Option.bind_some, hnode, Option.getD_some]
  have hnodes : assembly.graph.nodes.modify place change = assembly.graph.nodes := by
    refine Array.ext_getElem? fun index => ?_
    rw [Array.getElem?_modify]
    split
    · rename_i heq
      rw [← heq, hnode, Option.map_some, ← hfound, hchange]
    · rfl
  have hslot : assembly.slot id = (place, assembly) := by
    unfold Assembly.slot
    rw [hplace]
  rw [Assembly.updateNode, hslot]
  simp only [hnodes]

/-- A node to which a mention in the group does nothing. -/
structure Settled (assembly : Assembly) (group : Option String) (id : String) : Prop where
  known : ∃ place, assembly.nodeIndex[id]? = some place
  filled : ((assembly.nodeOrNew id).fillIn assembly.nodeDefaults.entries).join group =
    assembly.nodeOrNew id

namespace Settled

theorem mentionNode_eq_self (h : assembly.Settled group id) (hindexed : assembly.Indexed) :
    assembly.mentionNode id group = assembly := by
  obtain ⟨place, hplace⟩ := h.known
  exact hindexed.updateNode_eq_self hplace h.filled

theorem congr {first second : Assembly} (h : first.Settled group id)
    (k : second.nodePart = first.nodePart) : second.Settled group id := by
  have hindex : second.nodeIndex = first.nodeIndex := congrArg NodePart.nodeIndex k
  have hdefaults : second.nodeDefaults = first.nodeDefaults := congrArg NodePart.nodeDefaults k
  refine ⟨hindex ▸ h.known, ?_⟩
  rw [nodeOrNew_congr k, hdefaults]
  exact h.filled

/-- A mention settles the node. -/
theorem of_mentionNode (hindexed : assembly.Indexed) (group : Option String) (id : String) :
    (assembly.mentionNode id group).Settled group id := by
  have hid : ∀ node : Graph.Node,
      ((node.fillIn assembly.nodeDefaults.entries).join group).id = node.id := fun node => by simp
  refine ⟨⟨_, nodeIndex_slot assembly id⟩, ?_⟩
  rw [mentionNode, hindexed.nodeOrNew_updateNode hid, if_pos rfl, nodeDefaults_updateNode]
  rw [Graph.Node.fillIn_join, Graph.Node.fillIn_again _ assembly.nodeDefaults.increasing,
    Graph.Node.join_again]

theorem mentionNode (h : assembly.Settled group id) (hindexed : assembly.Indexed)
    (other : String) : (assembly.mentionNode other group).Settled group id := by
  by_cases heq : id = other
  · exact heq ▸ of_mentionNode hindexed group id
  · have hid : ∀ node : Graph.Node,
        ((node.fillIn assembly.nodeDefaults.entries).join group).id = node.id := fun node => by simp
    obtain ⟨place, hplace⟩ := h.known
    refine ⟨⟨place, ?_⟩, ?_⟩
    · change (assembly.slot other).2.nodeIndex[id]? = some place
      unfold slot
      split
      · exact hplace
      · rw [Std.HashMap.getElem?_insert, if_neg (by simpa using Ne.symm heq), hplace]
    · rw [Assembly.mentionNode, hindexed.nodeOrNew_updateNode hid, if_neg heq,
        nodeDefaults_updateNode]
      exact h.filled

end Settled

/-- Mentions settle what they are about, and leave settled what was so before. -/
theorem Indexed.settled_mentionNodes (h : assembly.Indexed) {ids : List String}
    (hid : id ∈ ids ∨ assembly.Settled group id) :
    (assembly.mentionNodes ids group).Settled group id := by
  unfold mentionNodes
  induction ids generalizing assembly with
  | nil => exact hid.resolve_left List.not_mem_nil
  | cons first ids ih =>
      refine ih (h.perform (.mention first group)) ?_
      rcases hid with hmem | hsettled
      · rcases List.mem_cons.mp hmem with rfl | hmem
        · exact .inr (.of_mentionNode h group id)
        · exact .inl hmem
      · exact .inr (hsettled.mentionNode h first)

theorem mentionNodes_eq_self (h : assembly.Indexed) {ids : List String}
    (hsettled : ∀ id ∈ ids, assembly.Settled group id) :
    assembly.mentionNodes ids group = assembly := by
  unfold mentionNodes
  induction ids with
  | nil => rfl
  | cons id ids ih =>
      rw [List.foldl_cons, (hsettled id List.mem_cons_self).mentionNode_eq_self h]
      exact ih fun other hmem => hsettled other (List.mem_cons_of_mem id hmem)

theorem performAll_of_isPlain (assembly : Assembly) (group : Option String) {endpoint : Endpoint}
    (h : endpoint.isPlain) :
    assembly.performAll (endpoint.actions group) = assembly.mentionNodes endpoint.ends group := by
  cases endpoint with
  | node node => rw [Endpoint.actions, Endpoint.ends]; rfl
  | group _ nodes => rw [Endpoint.actions, Endpoint.ends, mentionNodes_eq]
  | subgraph _ => nomatch h

theorem nodePart_linkActions (assembly : Assembly) (attributes : Option AttributeList)
    (left right : List String) :
    (assembly.performAll (linkActions attributes left right)).nodePart = assembly.nodePart := by
  rw [performAll, linkActions, List.foldl_map]
  exact nodePart_foldl _ (fun assembly _ => nodePart_addLink assembly _ _ _) _

/-- Hops behind an endpoint that is settled may be taken one by one. -/
theorem Indexed.performAll_stepwise (h : assembly.Indexed) (attributes : Option AttributeList)
    {left : Endpoint} (hleft : left.isPlain)
    (hsettled : ∀ id ∈ left.ends, assembly.Settled group id) {hops : List Hop}
    (hplain : ∀ hop ∈ hops, hop.endpoint.isPlain) :
    assembly.performAll (actionsOfAll group (stepwise attributes left hops)) =
      assembly.performAll (actionsOfHops group attributes left.ends hops) := by
  induction hops generalizing assembly left with
  | nil => rw [stepwise, actionsOfAll, actionsOfHops]
  | cons hop hops ih =>
      obtain ⟨_, _, endpoint⟩ := hop
      obtain ⟨hendpoint, hrest⟩ := List.forall_mem_cons.mp hplain
      rw [stepwise, actionsOfAll, Statement.actions, actionsOfHops, actionsOfHops, actionsOfHops,
        List.append_nil]
      simp only [performAll_append]
      rw [performAll_of_isPlain assembly group hleft, mentionNodes_eq_self h hsettled]
      refine ih ((h.performAll _).performAll _) hendpoint (fun id hmem => ?_) hrest
      rw [performAll_of_isPlain assembly group hendpoint]
      exact (h.settled_mentionNodes (.inl hmem)).congr (nodePart_linkActions _ _ _ _)

theorem replaces_stepwise (attributes : Option AttributeList) (position : Position)
    {left : Endpoint} (hleft : left.isPlain) {hop : Hop} {hops : List Hop}
    (hplain : ∀ next ∈ hop :: hops, next.endpoint.isPlain) :
    Replaces [.edge position left (hop :: hops) attributes]
      (stepwise attributes left (hop :: hops)) where
  performAll group assembly h := by
    have hsettled : ∀ id ∈ left.ends,
        (assembly.performAll (left.actions group)).Settled group id := by
      rw [performAll_of_isPlain assembly group hleft]
      exact fun id hmem => h.settled_mentionNodes (.inl hmem)
    have hagain : (assembly.performAll (left.actions group)).performAll (left.actions group) =
        assembly.performAll (left.actions group) := by
      rw [performAll_of_isPlain _ group hleft]
      exact mentionNodes_eq_self (h.performAll _) hsettled
    calc
      assembly.performAll (actionsOfAll group (stepwise attributes left (hop :: hops)))
      _ = (assembly.performAll (left.actions group)).performAll
            (actionsOfAll group (stepwise attributes left (hop :: hops))) := by
          simp only [stepwise, actionsOfAll, Statement.actions, performAll_append, hagain]
      _ = (assembly.performAll (left.actions group)).performAll
            (actionsOfHops group attributes left.ends (hop :: hops)) :=
          (h.performAll _).performAll_stepwise attributes hleft hsettled hplain
      _ = assembly.performAll
            (actionsOfAll group [.edge position left (hop :: hops) attributes]) := by
          rw [actionsOfAll_singleton, Statement.actions, performAll_append]
  touched ids := by
    calc
      ids.insertAll (occurrencesOfAll (stepwise attributes left (hop :: hops)))
      _ = (ids.insertAll left.occurrences).insertAll
            (occurrencesOfAll (stepwise attributes left (hop :: hops))) := by
          simp only [stepwise, occurrencesOfAll, Statement.occurrences,
            FirstSeen.insertAll_append, FirstSeen.insertAll_again]
      _ = (ids.insertAll left.occurrences).insertAll (occurrencesOfHops (hop :: hops)) :=
          insertAll_stepwise ids attributes left (hop :: hops)
      _ = ids.insertAll
            (occurrencesOfAll [.edge position left (hop :: hops) attributes]) := by
          rw [occurrencesOfAll_singleton, Statement.occurrences, FirstSeen.insertAll_append]
  assignments := assignments_stepwise attributes left (hop :: hops)

end Assembly

namespace Tree.Document

/-- A chain is its hops: wherever an edge between node ids and groups stands, an edge for each of its
hops may stand instead. -/
theorem toGraph_stepwise {document : Document} {place : Place} {position : Position}
    {left : Endpoint} {hops : List Hop} {attributes : Option AttributeList}
    (h : document.statements = place.fill [.edge position left hops attributes])
    (hne : hops ≠ []) (hleft : left.isPlain) (hplain : ∀ hop ∈ hops, hop.endpoint.isPlain) :
    Document.toGraph { document with statements := place.fill (stepwise attributes left hops) } =
      document.toGraph := by
  obtain ⟨hop, hops, rfl⟩ := List.exists_cons_of_ne_nil hne
  exact (Assembly.replaces_stepwise attributes position hleft hplain).toGraph_eq h

/-- By a group that repeats an id, back to `a`, and on. -/
private def windingHops : List Hop :=
  [⟨.nowhere, false, .group .nowhere [.ofName "b", .ofName "b"]⟩, ⟨.nowhere, true, .ofName "a"⟩,
    ⟨.nowhere, false, .group .nowhere [.ofName "c", .ofName "a"]⟩]

/-- In a named subgraph, behind defaults that a node may start with. -/
private def inNamedBody : Place :=
  .within [.defaults .nowhere .node (some ⟨.nowhere,
      [⟨.nowhere, .ofName "label", .ofName "b"⟩, ⟨.nowhere, .ofName "tooltip", .ofName ""⟩]⟩)]
    .statement .nowhere (some (.ofName "s")) (.here [] [.node .nowhere (.ofName "d") none]) []

theorem toGraph_stepwise_windingHops :
    windingHops ≠ [] ∧ (Endpoint.ofName "a").isPlain ∧
      (∀ hop ∈ windingHops, hop.endpoint.isPlain) ∧
      Document.toGraph ⟨.nowhere, true, false, none,
          inNamedBody.fill (stepwise none (.ofName "a") windingHops)⟩ =
        Document.toGraph ⟨.nowhere, true, false, none,
          inNamedBody.fill [.edge .nowhere (.ofName "a") windingHops none]⟩ := by
  have hne : windingHops ≠ [] := List.cons_ne_nil _ _
  have hleft : (Endpoint.ofName "a").isPlain := rfl
  have hplain : ∀ hop ∈ windingHops, hop.endpoint.isPlain := by decide
  have hplace : (Document.mk .nowhere true false none
      (inNamedBody.fill [.edge .nowhere (.ofName "a") windingHops none])).statements =
        inNamedBody.fill [.edge .nowhere (.ofName "a") windingHops none] := rfl
  exact ⟨hne, hleft, hplain, toGraph_stepwise hplace hne hleft hplain⟩

end Tree.Document

end DotGraph
