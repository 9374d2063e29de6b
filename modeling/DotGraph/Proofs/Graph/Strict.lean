import DotGraph.Proofs.Graph.Actions

namespace DotGraph

/-! Strict graphs: the same statements build the same nodes and subgraphs in a strict and in a loose
assembly, and of the links the strict one has the first between each two ends. -/

open DotGraph.Tree

namespace Graph

/-- Leaves out each link whose ends are joined by an earlier one. -/
def firstLinks (directed : Bool) (links : List Link) : List Link :=
  (links.zipIdx.filter fun entry => !(links.take entry.2).any fun earlier =>
    earlier.joins entry.1.source entry.1.target directed).map Prod.fst

theorem firstLinks_concat (directed : Bool) (links : List Link) (link : Link) :
    firstLinks directed (links ++ [link]) =
      if links.any fun earlier => earlier.joins link.source link.target directed then
        firstLinks directed links
      else firstLinks directed links ++ [link] := by
  have hold : ∀ entry ∈ links.zipIdx, (links ++ [link]).take entry.2 = links.take entry.2 := by
    intro entry hmem
    exact List.take_append_of_le_length (Nat.le_of_lt (List.snd_lt_of_mem_zipIdx hmem))
  unfold firstLinks
  rw [List.zipIdx_append, List.filter_append, List.map_append,
    List.filter_congr fun entry hmem => by rw [hold entry hmem]]
  split <;> simp_all

theorem Link.joins_iff (link : Link) (source target : String) (directed : Bool) :
    link.joins source target directed ↔
      link.ends = (source, target) ∨ directed = false ∧ link.ends = (target, source) := by
  simp [joins_eq]

end Graph

/-- The nodes that an action links. -/
def Action.ends? : Action → Option (String × String)
  | .link _ source target => some (source, target)
  | .describe _ _ _ | .mention _ _ | .setDefaults _ _ | .record _ _ _ => none

namespace Assembly

/-- What an assembly holds of its links and of nothing else. -/
structure LinkPart where
  directed : Bool
  strict : Bool
  links : Array Graph.Link
  linkPairs : Std.HashSet (String × String)
  refused : Array (String × String)

def linkPart (assembly : Assembly) : LinkPart :=
  ⟨assembly.graph.directed, assembly.graph.strict, assembly.graph.links, assembly.linkPairs,
    assembly.refused⟩

def withLinkPart (assembly : Assembly) (part : LinkPart) : Assembly :=
  { assembly with
    graph := { assembly.graph with
      directed := part.directed, strict := part.strict, links := part.links }
    linkPairs := part.linkPairs
    refused := part.refused }

/-- A step that neither reads nor changes what is held of the links. -/
def IgnoresLinks (step : Assembly → Assembly) : Prop :=
  ∀ (assembly : Assembly) (part : LinkPart),
    step (assembly.withLinkPart part) = (step assembly).withLinkPart part

theorem IgnoresLinks.linkPart_eq {step : Assembly → Assembly} (h : IgnoresLinks step)
    (assembly : Assembly) : (step assembly).linkPart = assembly.linkPart := by
  calc
    (step assembly).linkPart = (step (assembly.withLinkPart assembly.linkPart)).linkPart := rfl
    _ = ((step assembly).withLinkPart assembly.linkPart).linkPart := by rw [h]
    _ = assembly.linkPart := rfl

theorem slot_withLinkPart (assembly : Assembly) (part : LinkPart) (id : String) :
    (assembly.withLinkPart part).slot id =
      ((assembly.slot id).1, (assembly.slot id).2.withLinkPart part) := by
  have hindex : (assembly.withLinkPart part).nodeIndex = assembly.nodeIndex := rfl
  unfold slot
  rw [hindex]
  split <;> rfl

theorem updateNode_withLinkPart (assembly : Assembly) (part : LinkPart) (id : String)
    (change : Graph.Node → Graph.Node) :
    (assembly.withLinkPart part).updateNode id change =
      (assembly.updateNode id change).withLinkPart part := by
  unfold updateNode
  rw [slot_withLinkPart]
  rfl

theorem ignoresLinks_describeNode (id : String) (attributes : Option AttributeList)
    (group : Option String) :
    IgnoresLinks fun assembly => assembly.describeNode id attributes group :=
  fun assembly part => updateNode_withLinkPart assembly part id _

theorem ignoresLinks_mentionNode (id : String) (group : Option String) :
    IgnoresLinks fun assembly => assembly.mentionNode id group :=
  fun assembly part => updateNode_withLinkPart assembly part id _

theorem ignoresLinks_setDefaults (subject : Subject) (attributes : Option AttributeList) :
    IgnoresLinks fun assembly => assembly.setDefaults subject attributes := by
  intro assembly part
  cases subject <;> rfl

theorem subgraphSlot_withLinkPart (assembly : Assembly) (part : LinkPart) (name : String) :
    (assembly.withLinkPart part).subgraphSlot name =
      ((assembly.subgraphSlot name).1, (assembly.subgraphSlot name).2.withLinkPart part) := by
  have hindex : (assembly.withLinkPart part).subgraphIndex = assembly.subgraphIndex := rfl
  unfold subgraphSlot
  rw [hindex]
  split <;> rfl

theorem addMember_withLinkPart (assembly : Assembly) (part : LinkPart) (place : Nat)
    (id : String) :
    (assembly.withLinkPart part).addMember place id =
      (assembly.addMember place id).withLinkPart part := by
  have hmembers : (assembly.withLinkPart part).members = assembly.members := rfl
  unfold addMember
  rw [hmembers]
  split <;> rfl

theorem setSubgraph_withLinkPart (assembly : Assembly) (part : LinkPart) (place : Nat)
    (key value : String) :
    (assembly.withLinkPart part).setSubgraph place key value =
      (assembly.setSubgraph place key value).withLinkPart part := rfl

theorem ignoresLinks_recordSubgraph (name : String) (ids : List String)
    (statements : List Statement) :
    IgnoresLinks fun assembly => assembly.recordSubgraph name ids statements := by
  intro assembly part
  simp only [recordSubgraph, subgraphSlot_withLinkPart]
  rw [List.foldl_hom (withLinkPart · part) fun assembly id =>
      addMember_withLinkPart assembly part _ id,
    List.foldl_hom (withLinkPart · part) fun assembly entry =>
      setSubgraph_withLinkPart assembly part _ entry.1 entry.2]

/-- Actions that link nothing leave all that is held of the links alone. -/
theorem linkPart_perform {assembly : Assembly} {action : Action} (h : action.ends? = none) :
    (assembly.perform action).linkPart = assembly.linkPart := by
  cases action with
  | describe id attributes group =>
      exact (ignoresLinks_describeNode id attributes group).linkPart_eq assembly
  | mention id group => exact (ignoresLinks_mentionNode id group).linkPart_eq assembly
  | setDefaults subject attributes =>
      exact (ignoresLinks_setDefaults subject attributes).linkPart_eq assembly
  | link _ _ _ => nomatch h
  | record name ids statements =>
      exact (ignoresLinks_recordSubgraph name ids statements).linkPart_eq assembly

/-- The link that an edge makes between two nodes. -/
def newLink (assembly : Assembly) (attributes : Option AttributeList) (source target : String) :
    Graph.Link :=
  (Graph.Link.setAll { source, target } assembly.linkDefaults.entries).setAll (pairsOf attributes)

theorem ends_newLink (assembly : Assembly) (attributes : Option AttributeList)
    (source target : String) :
    (assembly.newLink attributes source target).ends = (source, target) := by
  rw [newLink, Graph.Link.ends_setAll, Graph.Link.ends_setAll]
  rfl

theorem addLink_of_loose {assembly : Assembly} (h : assembly.graph.strict = false)
    (attributes : Option AttributeList) (source target : String) :
    assembly.addLink attributes source target =
      assembly.pushLink (assembly.newLink attributes source target) := by
  simp [addLink, h, newLink]

theorem addLink_of_strict {assembly : Assembly} (h : assembly.graph.strict = true)
    (attributes : Option AttributeList) (source target : String) :
    assembly.addLink attributes source target =
      if assembly.isLinked source target then
        { assembly with refused := assembly.refused.push (source, target) }
      else
        { assembly.pushLink (assembly.newLink attributes source target) with
          linkPairs := assembly.linkPairs.insert (source, target) } := by
  simp [addLink, h, newLink]

/-- The strict assembly holds what the loose one holds, but of the links the first between each two
ends, and knows which ends are linked. -/
structure Thinned (directed : Bool) (loose strict : Assembly) : Prop where
  shared : strict = loose.withLinkPart strict.linkPart
  loose_strict : loose.graph.strict = false
  strict_strict : strict.graph.strict = true
  loose_directed : loose.graph.directed = directed
  strict_directed : strict.graph.directed = directed
  links : strict.graph.links.toList = Graph.firstLinks directed loose.graph.links.toList
  isLinked : ∀ source target, strict.isLinked source target =
    loose.graph.links.toList.any fun link => link.joins source target directed

theorem thinned_start (directed : Bool) (id : Option String) :
    Thinned directed (start directed false id) (start directed true id) where
  shared := rfl
  loose_strict := rfl
  strict_strict := rfl
  loose_directed := rfl
  strict_directed := rfl
  links := rfl
  isLinked := by
    intro source target
    simp [isLinked, start]

theorem isLinked_congr {first second : Assembly} (h : first.linkPart = second.linkPart)
    (source target : String) : first.isLinked source target = second.isLinked source target := by
  have hdirected : first.graph.directed = second.graph.directed := congrArg LinkPart.directed h
  have hpairs : first.linkPairs = second.linkPairs := congrArg LinkPart.linkPairs h
  rw [isLinked, hdirected, hpairs, isLinked]

theorem isLinked_swap {assembly : Assembly} (h : assembly.graph.directed = false)
    (source target : String) : assembly.isLinked source target = assembly.isLinked target source := by
  simp [isLinked, h, Bool.or_comm]

/-- Linking two nodes links what the new link joins, and nothing else. -/
theorem isLinked_insert (assembly : Assembly) (link : Graph.Link) (source target : String) :
    isLinked { assembly.pushLink link with linkPairs := assembly.linkPairs.insert link.ends }
      source target =
      (assembly.isLinked source target || link.joins source target assembly.graph.directed) := by
  simp only [isLinked, pushLink, Graph.Link.joins, Graph.Link.ends, Std.HashSet.contains_insert]
  cases assembly.graph.directed <;> grind

theorem isLinked_of_joins {assembly : Assembly} {source target : String} {link : Graph.Link}
    (hlinked : assembly.isLinked link.source link.target)
    (h : link.joins source target assembly.graph.directed) : assembly.isLinked source target := by
  rcases (link.joins_iff source target _).mp h with hends | ⟨hdirected, hends⟩
  · obtain ⟨rfl, rfl⟩ := Prod.mk.inj hends
    exact hlinked
  · obtain ⟨rfl, rfl⟩ := Prod.mk.inj hends
    rw [isLinked_swap hdirected]
    exact hlinked

namespace Thinned

variable {directed : Bool} {loose strict : Assembly}

theorem step (h : Thinned directed loose strict) {step : Assembly → Assembly}
    (hstep : IgnoresLinks step) : Thinned directed (step loose) (step strict) := by
  have hloose := hstep.linkPart_eq loose
  have hstrict := hstep.linkPart_eq strict
  have hlooseLinks : (step loose).graph.links = loose.graph.links :=
    congrArg LinkPart.links hloose
  have hstrictLinks : (step strict).graph.links = strict.graph.links :=
    congrArg LinkPart.links hstrict
  constructor
  · calc
      step strict = step (loose.withLinkPart strict.linkPart) := by rw [← h.shared]
      _ = (step loose).withLinkPart strict.linkPart := hstep loose strict.linkPart
      _ = (step loose).withLinkPart (step strict).linkPart := by rw [hstrict]
  · exact (congrArg LinkPart.strict hloose).trans h.loose_strict
  · exact (congrArg LinkPart.strict hstrict).trans h.strict_strict
  · exact (congrArg LinkPart.directed hloose).trans h.loose_directed
  · exact (congrArg LinkPart.directed hstrict).trans h.strict_directed
  · rw [hstrictLinks, hlooseLinks]
    exact h.links
  · intro source target
    rw [isLinked_congr hstrict, hlooseLinks]
    exact h.isLinked source target

theorem addLink (h : Thinned directed loose strict) (attributes : Option AttributeList)
    (source target : String) :
    Thinned directed (loose.addLink attributes source target)
      (strict.addLink attributes source target) := by
  rw [addLink_of_loose h.loose_strict, addLink_of_strict h.strict_strict]
  -- the defaults of links are shared, so that both make the same link
  have hnew : strict.newLink attributes source target = loose.newLink attributes source target := by
    rw [h.shared]
    rfl
  rw [hnew]
  have hends := ends_newLink loose attributes source target
  generalize loose.newLink attributes source target = link at hends
  obtain ⟨rfl, rfl⟩ := Prod.mk.inj hends
  have hlinks := Graph.firstLinks_concat directed loose.graph.links.toList link
  rw [← h.isLinked, ← h.links] at hlinks
  have hpush : (loose.pushLink link).graph.links.toList = loose.graph.links.toList ++ [link] :=
    Array.toList_push
  have hany : ∀ source target, ((loose.pushLink link).graph.links.toList.any fun link =>
      link.joins source target directed) =
      (strict.isLinked source target || link.joins source target directed) := by
    intro source target
    rw [hpush, List.any_append, h.isLinked]
    simp
  split
  · rename_i hlinked
    rw [if_pos hlinked] at hlinks
    refine ⟨?_, h.loose_strict, h.strict_strict, h.loose_directed, h.strict_directed, ?_, ?_⟩
    · conv_lhs => rw [h.shared]
      rfl
    · rw [hpush]
      exact hlinks.symm
    · -- what the refused link joins was linked before
      intro source target
      rw [hany, Bool.eq_iff_iff, Bool.or_eq_true]
      refine (or_iff_left_of_imp ?_).symm
      intro hjoins
      rw [← h.strict_directed] at hjoins
      exact isLinked_of_joins hlinked hjoins
  · rename_i hlinked
    rw [if_neg hlinked] at hlinks
    have hstrictPush : (strict.pushLink link).graph.links.toList =
        strict.graph.links.toList ++ [link] := Array.toList_push
    refine ⟨?_, h.loose_strict, h.strict_strict, h.loose_directed, h.strict_directed, ?_, ?_⟩
    · conv_lhs => rw [h.shared]
      rfl
    · rw [hpush]
      exact hstrictPush.trans hlinks.symm
    · intro source target
      rw [hany, ← h.strict_directed]
      exact isLinked_insert strict link source target

theorem perform (h : Thinned directed loose strict) (action : Action) :
    Thinned directed (loose.perform action) (strict.perform action) := by
  cases action with
  | describe id attributes group => exact h.step (ignoresLinks_describeNode id attributes group)
  | mention id group => exact h.step (ignoresLinks_mentionNode id group)
  | setDefaults subject attributes => exact h.step (ignoresLinks_setDefaults subject attributes)
  | link attributes source target => exact h.addLink attributes source target
  | record name ids statements => exact h.step (ignoresLinks_recordSubgraph name ids statements)

theorem performAll (h : Thinned directed loose strict) (actions : List Action) :
    Thinned directed (loose.performAll actions) (strict.performAll actions) := by
  unfold Assembly.performAll
  induction actions generalizing loose strict with
  | nil => exact h
  | cons action actions ih => exact ih (h.perform action)

theorem nodes_eq (h : Thinned directed loose strict) : strict.graph.nodes = loose.graph.nodes := by
  rw [h.shared]
  rfl

theorem subgraphs_eq (h : Thinned directed loose strict) :
    strict.graph.subgraphs = loose.graph.subgraphs := by
  rw [h.shared]
  rfl

end Thinned

/-- Whatever is processed, a strict assembly differs from a loose one in this alone: of the links that
join the same ends it has the first. -/
theorem processAll_strict (directed : Bool) (id : Option String)
    (calls : List (List Statement × Option String)) :
    (start directed true id).touchedAll calls = (start directed false id).touchedAll calls ∧
      ((start directed true id).processAll calls).graph.nodes =
        ((start directed false id).processAll calls).graph.nodes ∧
      ((start directed true id).processAll calls).graph.subgraphs =
        ((start directed false id).processAll calls).graph.subgraphs ∧
      ((start directed true id).processAll calls).graph.links.toList =
        Graph.firstLinks directed
          ((start directed false id).processAll calls).graph.links.toList := by
  have h := (thinned_start directed id).performAll
    (calls.flatMap fun call => actionsOfAll call.2 call.1)
  rw [← processAll_eq, ← processAll_eq] at h
  refine ⟨?_, h.nodes_eq, h.subgraphs_eq, h.links⟩
  rw [touchedAll_eq, touchedAll_eq]

end Assembly

end DotGraph
