import DotGraph.Proofs.Graph.Run
import DotGraph.Proofs.Tree.Occurrences

namespace DotGraph

/-! What a tree does to a graph in the making, told in the order of the source and without its
nesting: taking statements is performing their actions one after the other. -/

open DotGraph.Tree

inductive Action where
  | describe (id : String) (attributes : Option AttributeList) (group : Option String)
  | mention (id : String) (group : Option String)
  | setDefaults (subject : Subject) (attributes : Option AttributeList)
  | link (attributes : Option AttributeList) (source target : String)
  | record (name : String) (ids : List String) (statements : List Statement)

namespace Tree

/-- The ids that an endpoint is linked by.  A group may repeat an id, a subgraph does not. -/
def Endpoint.ends : Endpoint → List String
  | .node nodeId => [nodeId.name]
  | .group _ nodes => nodes.map NodeId.name
  | .subgraph ⟨_, _, statements⟩ => (occurrencesOfAll statements).eraseDups

theorem Endpoint.insertAll_ends (ids : FirstSeen) (endpoint : Endpoint) :
    ids.insertAll endpoint.ends = ids.insertAll endpoint.occurrences := by
  cases endpoint with
  | node _ | group _ _ => rw [Endpoint.ends, Endpoint.occurrences]
  | subgraph body =>
      obtain ⟨_, _, statements⟩ := body
      rw [Endpoint.ends, Endpoint.occurrences, FirstSeen.insertAll_eraseDups]

def linkActions (attributes : Option AttributeList) (left right : List String) : List Action :=
  (pairs left right).map fun ends => .link attributes ends.1 ends.2

mutual
def actionsOfAll (group : Option String) : List Statement → List Action
  | [] => []
  | statement :: statements => statement.actions group ++ actionsOfAll group statements

def Statement.actions (group : Option String) : Statement → List Action
  | .node _ node attributes => [.describe node.name attributes group]
  | .edge _ left hops attributes =>
      left.actions group ++ actionsOfHops group attributes left.ends hops
  | .defaults _ subject attributes => [.setDefaults subject attributes]
  | .assign _ _ _ => []
  | .subgraph body => body.actions group

def actionsOfHops (group : Option String) (attributes : Option AttributeList)
    (left : List String) : List Hop → List Action
  | [] => []
  | ⟨_, _, endpoint⟩ :: hops =>
      endpoint.actions group ++ linkActions attributes left endpoint.ends ++
        actionsOfHops group attributes endpoint.ends hops

def Endpoint.actions (group : Option String) : Endpoint → List Action
  | .node node => [.mention node.name group]
  | .group _ nodes => nodes.map fun node => .mention node.name group
  | .subgraph body => body.actions group

def Subgraph.actions (group : Option String) : Subgraph → List Action
  | ⟨_, none, statements⟩ => actionsOfAll group statements
  | ⟨_, some ident, statements⟩ =>
      actionsOfAll (some ident.name) statements ++
        [.record ident.name (occurrencesOfAll statements).eraseDups statements]
end

theorem actionsOfAll_singleton (group : Option String) (statement : Statement) :
    actionsOfAll group [statement] = statement.actions group := by
  rw [actionsOfAll, actionsOfAll, List.append_nil]

theorem actionsOfAll_append (group : Option String) (front back : List Statement) :
    actionsOfAll group (front ++ back) = actionsOfAll group front ++ actionsOfAll group back := by
  induction front with
  | nil => rw [actionsOfAll]; rfl
  | cons statement front ih =>
      rw [List.cons_append, actionsOfAll, actionsOfAll, ih, List.append_assoc]

def Document.actions (document : Document) : List Action :=
  actionsOfAll none document.statements

end Tree

namespace Assembly

def perform (assembly : Assembly) : Action → Assembly
  | .describe id attributes group => assembly.describeNode id attributes group
  | .mention id group => assembly.mentionNode id group
  | .setDefaults subject attributes => assembly.setDefaults subject attributes
  | .link attributes source target => assembly.addLink attributes source target
  | .record name ids statements => assembly.recordSubgraph name ids statements

def performAll (assembly : Assembly) (actions : List Action) : Assembly :=
  actions.foldl perform assembly

theorem performAll_append (assembly : Assembly) (front back : List Action) :
    assembly.performAll (front ++ back) = (assembly.performAll front).performAll back :=
  List.foldl_append

theorem mentionNodes_eq (assembly : Assembly) (nodes : List NodeId) (group : Option String) :
    assembly.mentionNodes (nodes.map NodeId.name) group =
      assembly.performAll (nodes.map fun node => .mention node.name group) := by
  rw [mentionNodes, performAll, List.foldl_map, List.foldl_map]
  rfl

theorem addLinks_eq (assembly : Assembly) (attributes : Option AttributeList)
    (left right : List String) :
    assembly.addLinks attributes left right =
      assembly.performAll (linkActions attributes left right) := by
  rw [addLinks, performAll, linkActions, pairs, List.foldl_map, List.foldl_flatMap]
  simp only [List.foldl_map]
  rfl

mutual
theorem addStatements_eq (group : Option String) :
    (statements : List Statement) → (assembly : Assembly) → (ids : FirstSeen) →
    addStatements group statements assembly ids =
      (assembly.performAll (actionsOfAll group statements),
        ids.insertAll (occurrencesOfAll statements))
  | [], assembly, ids => by
      rw [addStatements, actionsOfAll, occurrencesOfAll]
      rfl
  | statement :: statements, assembly, ids => by
      rw [addStatements, addStatement_eq group statement, actionsOfAll, occurrencesOfAll,
        performAll_append, FirstSeen.insertAll_append]
      exact addStatements_eq group statements _ _

theorem addStatement_eq (group : Option String) :
    (statement : Statement) → (assembly : Assembly) → (ids : FirstSeen) →
    addStatement group statement assembly ids =
      (assembly.performAll (statement.actions group), ids.insertAll statement.occurrences)
  | .node _ _ _, assembly, ids => by
      rw [addStatement, Statement.actions, Statement.occurrences]
      rfl
  | .edge _ left hops attributes, assembly, ids => by
      rw [addStatement, addEndpoint_eq group left, Statement.actions, Statement.occurrences,
        performAll_append, FirstSeen.insertAll_append, ← Endpoint.insertAll_ends]
      exact addHops_eq group attributes hops _ _ _
  | .defaults _ _ _, assembly, ids => by
      rw [addStatement, Statement.actions, Statement.occurrences]
      rfl
  | .assign _ _ _, assembly, ids => by
      rw [addStatement, Statement.actions, Statement.occurrences]
      rfl
  | .subgraph ⟨position, ident, statements⟩, assembly, ids => by
      rw [addStatement, addSubgraph_eq group ⟨position, ident, statements⟩, Statement.actions,
        Statement.occurrences, ← FirstSeen.insertAll_eraseDups]
      rfl

theorem addHops_eq (group : Option String) (attributes : Option AttributeList) :
    (hops : List Hop) → (left : List String) → (assembly : Assembly) → (ids : FirstSeen) →
    addHops group attributes left hops assembly ids =
      (assembly.performAll (actionsOfHops group attributes left hops),
        ids.insertAll (occurrencesOfHops hops))
  | [], left, assembly, ids => by
      rw [addHops, actionsOfHops, occurrencesOfHops]
      rfl
  | ⟨_, _, endpoint⟩ :: hops, left, assembly, ids => by
      rw [addHops, addEndpoint_eq group endpoint, actionsOfHops, occurrencesOfHops,
        performAll_append, performAll_append, FirstSeen.insertAll_append, ← addLinks_eq,
        ← Endpoint.insertAll_ends]
      exact addHops_eq group attributes hops _ _ _

theorem addEndpoint_eq (group : Option String) :
    (endpoint : Endpoint) → (assembly : Assembly) →
    addEndpoint group endpoint assembly =
      (endpoint.ends, assembly.performAll (endpoint.actions group))
  | .node _, assembly => by
      rw [addEndpoint, Endpoint.actions]
      rfl
  | .group _ nodes, assembly => by
      rw [addEndpoint, Endpoint.actions, mentionNodes_eq]
      rfl
  | .subgraph body, assembly => by
      rw [addEndpoint, Endpoint.actions]
      exact addSubgraph_eq group body assembly

theorem addSubgraph_eq (group : Option String) :
    (body : Subgraph) → (assembly : Assembly) →
    addSubgraph group body assembly =
      ((Endpoint.subgraph body).ends, assembly.performAll (body.actions group))
  | ⟨_, none, statements⟩, assembly => by
      rw [addSubgraph, Subgraph.actions, Endpoint.ends, ← FirstSeen.toList_insertAll_empty]
      simp only [Option.map_none, Option.none_or]
      rw [addStatements_eq group statements]
  | ⟨_, some ident, statements⟩, assembly => by
      rw [addSubgraph, Subgraph.actions, Endpoint.ends, ← FirstSeen.toList_insertAll_empty]
      simp only [Option.map_some, Option.some_or]
      rw [addStatements_eq (some ident.name) statements, performAll_append]
      rfl
end

theorem process_eq (assembly : Assembly) (statements : List Statement) (group : Option String) :
    assembly.process statements group =
      ((occurrencesOfAll statements).eraseDups,
        assembly.performAll (actionsOfAll group statements)) := by
  rw [process, addStatements_eq, ← FirstSeen.toList_insertAll_empty]

theorem processAll_eq (assembly : Assembly) (calls : List (List Statement × Option String)) :
    assembly.processAll calls =
      assembly.performAll (calls.flatMap fun call => actionsOfAll call.2 call.1) := by
  rw [processAll, performAll, List.foldl_flatMap]
  simp only [process_eq]
  rfl

/-- The ids that each of some calls touches. -/
def touchedAll (assembly : Assembly) : List (List Statement × Option String) → List (List String)
  | [] => []
  | (statements, group) :: calls =>
      let (ids, assembly) := assembly.process statements group
      ids :: assembly.touchedAll calls

/-- Which nodes are touched depends on the statements alone. -/
theorem touchedAll_eq (assembly : Assembly) (calls : List (List Statement × Option String)) :
    assembly.touchedAll calls = calls.map fun call => (occurrencesOfAll call.1).eraseDups := by
  induction calls generalizing assembly with
  | nil => rfl
  | cons call calls ih =>
      rw [touchedAll, process_eq, List.map_cons]
      exact congrArg _ (ih _)

end Assembly

theorem Tree.Document.toGraph_eq (document : Document) :
    document.toGraph = ((Assembly.start document.directed document.strict
      (document.ident.map Ident.name)).performAll document.actions).graph := by
  rw [Document.toGraph, Assembly.ofDocument, Assembly.process_eq, Document.actions]

/-- Every node that occurs in a tree is in its graph. -/
theorem Tree.Document.exists_node (document : Document) {id : String}
    (h : id ∈ occurrencesOfAll document.statements) :
    ∃ node ∈ document.toGraph.nodes, node.id = id := by
  have htouched := (Assembly.touches_addStatements none document.statements _ .empty
    (Assembly.consistent_start document.directed document.strict
      (document.ident.map Ident.name)) (by simp [FirstSeen.empty, FirstSeen.toList])).touched
  rw [Assembly.addStatements_eq, FirstSeen.toList_insertAll_empty] at htouched
  have hmem := htouched id (List.mem_eraseDups.mpr h)
  rw [Assembly.nodeIds] at hmem
  rw [document.toGraph_eq]
  exact Array.mem_map.mp hmem

end DotGraph
