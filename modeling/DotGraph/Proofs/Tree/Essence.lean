import DotGraph.Proofs.Graph.Fields
import DotGraph.Proofs.Tree.Restyle

namespace DotGraph

/-! What a tree says to its graph: the rest of it may be left out, and two trees that are left with the
same have the same graph. -/

namespace Tree

/-- No part stands anywhere, and each name is written bare. -/
def Style.plain : Style :=
  ⟨fun _ => .nowhere, fun _ => .bare, rfl⟩

def NodeId.portless (node : NodeId) : NodeId :=
  { node with port := none }

/-- Statements without an effect.  An assignment has one in the body of a named subgraph, if it is to
one of the keys that are kept. -/
def Statement.isIdle (named : Bool) : Statement → Bool
  | .defaults _ .graph _ | .defaults _ _ none => true
  | .assign _ key _ => !(named && key.name ∈ Graph.Subgraph.fieldKeys)
  | .node _ _ _ | .edge _ _ _ _ | .defaults _ _ (some _) | .subgraph _ => false

mutual
/-- Without ports, arrows and idle statements.  `named` tells whether the statements are the body of a
named subgraph. -/
def strippedAll (named : Bool) : List Statement → List Statement
  | [] => []
  | statement :: statements =>
      if statement.isIdle named then strippedAll named statements
      else statement.stripped :: strippedAll named statements

def Statement.stripped : Statement → Statement
  | .node position node attributes => .node position node.portless attributes
  | .edge position left hops attributes =>
      .edge position left.stripped (strippedHops hops) attributes
  | .defaults position subject attributes => .defaults position subject attributes
  | .assign position key value => .assign position key value
  | .subgraph body => .subgraph body.stripped

def strippedHops : List Hop → List Hop
  | [] => []
  | ⟨position, _, endpoint⟩ :: hops => ⟨position, false, endpoint.stripped⟩ :: strippedHops hops

def Endpoint.stripped : Endpoint → Endpoint
  | .node node => .node node.portless
  | .group position nodes => .group position (nodes.map NodeId.portless)
  | .subgraph body => .subgraph body.stripped

def Subgraph.stripped : Subgraph → Subgraph
  | ⟨position, ident, statements⟩ => ⟨position, ident, strippedAll ident.isSome statements⟩
end

def Document.stripped (document : Document) : Document :=
  { document with statements := strippedAll false document.statements }

def Document.essence (document : Document) : Document :=
  (document.restyle .plain).stripped

end Tree

namespace Assembly

open DotGraph.Tree

theorem setSubgraph_of_not_mem {key : String} (h : key ∉ Graph.Subgraph.fieldKeys)
    (assembly : Assembly) (place : Nat) (value : String) :
    assembly.setSubgraph place key value = assembly := by
  have hsame : (fun subgraph : Graph.Subgraph => subgraph.set key value) = id :=
    funext fun subgraph => Graph.Subgraph.set_of_not_mem h subgraph value
  have hmodify : assembly.graph.subgraphs.modify place
      (fun subgraph => subgraph.set key value) = assembly.graph.subgraphs := by
    rw [hsame, ← Array.toList_inj, Array.toList_modify, List.modify_id]
  rw [setSubgraph, hmodify]

/-- Of the assignments in a named body those that say something of it are left. -/
theorem assignments_strippedAll (statements : List Statement) :
    assignments (strippedAll true statements) =
      (assignments statements).filter fun entry => entry.1 ∈ Graph.Subgraph.fieldKeys := by
  unfold assignments
  induction statements with
  | nil => rw [strippedAll]; rfl
  | cons statement statements ih =>
      rw [strippedAll, List.filterMap_cons]
      cases statement with
      | assign position key value =>
          by_cases hkey : key.name ∈ Graph.Subgraph.fieldKeys
          · simp [Statement.isIdle, Statement.stripped, hkey, ih]
          · simp [Statement.isIdle, hkey, ih]
      | defaults position subject attributes =>
          split
          · exact ih
          · rw [Statement.stripped]
            exact ih
      | node _ _ _ | edge _ _ _ _ | subgraph _ =>
          rw [Statement.stripped]
          exact ih

theorem recordSubgraph_strippedAll (assembly : Assembly) (name : String) (ids : List String)
    (statements : List Statement) :
    assembly.recordSubgraph name ids (strippedAll true statements) =
      assembly.recordSubgraph name ids statements := by
  have hset : ∀ place, (fun (assembly : Assembly) (entry : String × String) =>
      if decide (entry.1 ∈ Graph.Subgraph.fieldKeys) then
        assembly.setSubgraph place entry.1 entry.2 else assembly) =
      fun assembly entry => assembly.setSubgraph place entry.1 entry.2 := by
    intro place
    funext assembly entry
    by_cases hkey : entry.1 ∈ Graph.Subgraph.fieldKeys
    · rw [if_pos (decide_eq_true hkey)]
    · rw [if_neg (by simpa using hkey), setSubgraph_of_not_mem hkey]
  unfold recordSubgraph
  simp only [assignments_strippedAll, List.foldl_filter, hset]

theorem addStatement_of_isIdle {named : Bool} {statement : Statement} (h : statement.isIdle named)
    (group : Option String) (assembly : Assembly) (ids : FirstSeen) :
    addStatement group statement assembly ids = (assembly, ids) := by
  cases statement with
  | node _ _ _ | edge _ _ _ _ | subgraph _ => nomatch h
  | assign _ _ _ => rw [addStatement]
  | defaults _ subject attributes =>
      rw [addStatement]
      cases subject with
      | graph => rfl
      | node | edge =>
          cases attributes with
          | none => rfl
          | some _ => nomatch h

mutual
theorem addStatements_stripped (group : Option String) (named : Bool) :
    (statements : List Statement) → (assembly : Assembly) → (ids : FirstSeen) →
    addStatements group (strippedAll named statements) assembly ids =
      addStatements group statements assembly ids
  | [], assembly, ids => by rw [strippedAll]
  | statement :: statements, assembly, ids => by
      rw [strippedAll, addStatements]
      split
      · rename_i hidle
        rw [addStatement_of_isIdle hidle]
        exact addStatements_stripped group named statements assembly ids
      · rw [addStatements, addStatement_stripped group statement]
        exact addStatements_stripped group named statements _ _

theorem addStatement_stripped (group : Option String) :
    (statement : Statement) → (assembly : Assembly) → (ids : FirstSeen) →
    addStatement group statement.stripped assembly ids = addStatement group statement assembly ids
  | .node _ _ _, assembly, ids => by
      rw [Statement.stripped, addStatement, addStatement]
      rfl
  | .edge _ left hops attributes, assembly, ids => by
      rw [Statement.stripped, addStatement, addStatement, addEndpoint_stripped group left]
      exact addHops_stripped group attributes hops _ _ _
  | .defaults _ _ _, assembly, ids | .assign _ _ _, assembly, ids => by rw [Statement.stripped]
  | .subgraph body, assembly, ids => by
      rw [Statement.stripped, addStatement, addStatement, addSubgraph_stripped group body]

theorem addHops_stripped (group : Option String) (attributes : Option AttributeList) :
    (hops : List Hop) → (left : List String) → (assembly : Assembly) → (ids : FirstSeen) →
    addHops group attributes left (strippedHops hops) assembly ids =
      addHops group attributes left hops assembly ids
  | [], left, assembly, ids => by rw [strippedHops]
  | ⟨_, _, endpoint⟩ :: hops, left, assembly, ids => by
      rw [strippedHops, addHops, addHops, addEndpoint_stripped group endpoint]
      exact addHops_stripped group attributes hops _ _ _

theorem addEndpoint_stripped (group : Option String) :
    (endpoint : Endpoint) → (assembly : Assembly) →
    addEndpoint group endpoint.stripped assembly = addEndpoint group endpoint assembly
  | .node _, assembly => by
      rw [Endpoint.stripped, addEndpoint, addEndpoint]
      rfl
  | .group _ nodes, assembly => by
      rw [Endpoint.stripped, addEndpoint, addEndpoint, List.map_map]
      rfl
  | .subgraph body, assembly => by
      rw [Endpoint.stripped, addEndpoint, addEndpoint, addSubgraph_stripped group body]

theorem addSubgraph_stripped (group : Option String) :
    (body : Subgraph) → (assembly : Assembly) →
    addSubgraph group body.stripped assembly = addSubgraph group body assembly
  | ⟨_, ident, statements⟩, assembly => by
      rw [Subgraph.stripped, addSubgraph, addSubgraph,
        addStatements_stripped _ ident.isSome statements]
      cases ident with
      | none => rfl
      | some ident =>
          simp only [Option.map_some, Option.isSome_some, recordSubgraph_strippedAll]
end

end Assembly

namespace Tree.Document

theorem toGraph_essence (document : Document) : document.essence.toGraph = document.toGraph := by
  have hstripped : ∀ whole : Document, whole.stripped.toGraph = whole.toGraph := by
    intro whole
    unfold Document.toGraph Assembly.ofDocument Assembly.process
    rw [stripped, Assembly.addStatements_stripped]
  rw [essence, hstripped, toGraph_restyle]

/-- The graph is blind to places, ways of writing names, ports, arrows and idle statements. -/
theorem toGraph_eq_of_essence_eq {first second : Document} (h : first.essence = second.essence) :
    first.toGraph = second.toGraph := by
  rw [← toGraph_essence first, h, toGraph_essence]

private def inFlavour (flavour : Flavour) (name : String) : Ident :=
  ⟨.start "", name, flavour⟩

/-- An edge from `a` to a named subgraph with a label. -/
private def terse : Document :=
  ⟨.nowhere, true, false, none,
    [.edge .nowhere (.node ⟨.nowhere, inFlavour .bare "a", none⟩)
      [⟨.nowhere, false, .subgraph ⟨.nowhere, some (inFlavour .bare "s"),
        [.assign .nowhere (inFlavour .bare "label") (inFlavour .bare "L"),
          .subgraph ⟨.nowhere, none, []⟩]⟩⟩] none]⟩

/-- The same edge with something idle wherever there may be such. -/
private def verbose : Document :=
  ⟨.start "g.dot", true, false, none,
    [.assign .nowhere (inFlavour .quoted "label") (inFlavour .html "top"),
      .defaults .nowhere .node none,
      .edge (.start "g.dot") (.node ⟨.nowhere, inFlavour .quoted "a",
          some ⟨.nowhere, some (inFlavour .bare "p"), some (inFlavour .bare "ne")⟩⟩)
        [⟨.start "g.dot", true, .subgraph ⟨.nowhere, some (inFlavour .html "s"),
          [.defaults .nowhere .graph (some ⟨.nowhere, []⟩),
            .assign .nowhere (inFlavour .bare "label") (inFlavour .quoted "L"),
            .assign .nowhere (inFlavour .bare "rank") (inFlavour .bare "same"),
            .subgraph ⟨.nowhere, none,
              [.assign .nowhere (inFlavour .bare "color") (inFlavour .bare "blue")]⟩]⟩⟩] none]⟩

theorem toGraph_eq_of_essence_eq_terse :
    terse.essence = verbose.essence ∧ terse.toGraph = verbose.toGraph := by
  have h : terse.essence = verbose.essence := by rfl
  exact ⟨h, toGraph_eq_of_essence_eq h⟩

end Tree.Document

end DotGraph
