import DotGraph.Proofs.Graph.Nodes
import DotGraph.Proofs.Graph.Values

namespace DotGraph

/-! The attributes of nodes, one cell for each node and key: the value that a node ends with for a key
is found by going over the tree once, looking at this node and this key alone. -/

open DotGraph.Tree

/-- The default that is in force for a key, and the value that a node has for it. -/
structure Cell where
  default : Option String
  value : Option String
deriving DecidableEq, Repr

namespace Cell

/-- A node is labelled with its id, and four more keys start with an empty text. -/
def start (id key : String) : Cell where
  default := none
  value :=
    if key = "label" then some id
    else if key ∈ Graph.Node.fieldKeys then some ""
    else none

def isUnset (cell : Cell) (id key : String) : Bool :=
  Graph.isUnsetValue id key cell.value

/-- A statement about the node overwrites the value, with what it says or with the default; an edge
that mentions the node fills in the default.  All that is about other nodes leaves the cell alone, and
so do links and records. -/
def step (id key : String) (cell : Cell) : Action → Cell
  | .setDefaults .node attributes =>
      { cell with default := (lastValue key (Assembly.pairsOf attributes)).or cell.default }
  | .describe other attributes _ =>
      if id = other then
        { cell with
          value := ((lastValue key (Assembly.pairsOf attributes)).or cell.default).or cell.value }
      else cell
  | .mention other _ =>
      if id = other ∧ cell.isUnset id key then { cell with value := cell.default.or cell.value }
      else cell
  | .setDefaults .graph _ | .setDefaults .edge _ | .link _ _ _ | .record _ _ _ => cell

def run (id key : String) (actions : List Action) : Cell :=
  actions.foldl (step id key) (start id key)

theorem start_eq (id key : String) : start id key = ⟨none, (Graph.Node.named id).value? key⟩ := by
  unfold Graph.Node.value?
  split
  case h_6 => simp_all [start, Graph.Node.fieldKeys, Graph.Node.named, Attributes.get?, Attributes.empty]
  all_goals simp [start, Graph.Node.fieldKeys, Graph.Node.named]

end Cell

namespace Assembly

variable {assembly : Assembly}

def cell (assembly : Assembly) (id key : String) : Cell :=
  ⟨assembly.nodeDefaults.get? key, (assembly.nodeOrNew id).value? key⟩

theorem cell_start (directed strict : Bool) (name : Option String) (id key : String) :
    (start directed strict name).cell id key = Cell.start id key :=
  (Cell.start_eq id key).symm

theorem cell_congr {first second : Assembly} (h : first.nodePart = second.nodePart)
    (id key : String) : first.cell id key = second.cell id key := by
  have hdefaults : first.nodeDefaults = second.nodeDefaults := congrArg NodePart.nodeDefaults h
  rw [cell, cell, hdefaults, nodeOrNew_congr h]

theorem Indexed.cell_updateNode (h : assembly.Indexed) {id : String}
    {change : Graph.Node → Graph.Node} (hid : ∀ node, (change node).id = node.id)
    (other key : String) :
    (assembly.updateNode id change).cell other key =
      if other = id then ⟨(assembly.cell id key).default, (change (assembly.nodeOrNew id)).value? key⟩
      else assembly.cell other key := by
  rw [cell, nodeDefaults_updateNode, h.nodeOrNew_updateNode hid]
  split <;> rfl

/-- An action moves each cell by a step. -/
theorem Indexed.cell_perform (h : assembly.Indexed) (action : Action) (id key : String) :
    (assembly.perform action).cell id key = (assembly.cell id key).step id key action := by
  cases action with
  | describe other attributes group =>
      rw [Assembly.perform, describeNode, h.cell_updateNode (fun node => by simp), Cell.step]
      split
      · rename_i heq
        subst heq
        rw [Graph.Node.value?_join, Graph.Node.value?_setAll, Graph.Node.value?_setAll,
          Attributes.lastValue_entries, Option.or_assoc]
        rfl
      · rfl
  | mention other group =>
      rw [Assembly.perform, mentionNode, h.cell_updateNode (fun node => by simp), Cell.step]
      split
      · rename_i heq
        subst heq
        rw [Graph.Node.value?_join, Graph.Node.value?_fillIn _ assembly.nodeDefaults.increasing,
          id_nodeOrNew]
        by_cases hunset : Graph.isUnsetValue id key ((assembly.nodeOrNew id).value? key)
        · rw [if_pos hunset]
          exact (if_pos (And.intro rfl hunset)).symm
        · rw [if_neg hunset]
          exact (if_neg (not_and_of_not_right _ hunset)).symm
      · rename_i hne
        rw [if_neg (not_and_of_not_left _ hne)]
  | setDefaults subject attributes =>
      cases subject with
      | graph | edge => rfl
      | node =>
          rw [Assembly.perform, setDefaults, cell, Attributes.get?_setAll]
          rfl
  | link _ _ _ => exact cell_congr (nodePart_addLink _ _ _ _) id key
  | record _ _ _ => exact cell_congr (nodePart_recordSubgraph _ _ _ _) id key

theorem Indexed.cell_performAll (h : assembly.Indexed) (actions : List Action) (id key : String) :
    (assembly.performAll actions).cell id key =
      actions.foldl (Cell.step id key) (assembly.cell id key) := by
  unfold Assembly.performAll
  induction actions generalizing assembly with
  | nil => rfl
  | cons action actions ih =>
      rw [List.foldl_cons, List.foldl_cons, ih (h.perform action), h.cell_perform]

theorem Indexed.tidy_performAll (h : assembly.Indexed)
    (htidy : ∀ id, (assembly.nodeOrNew id).Tidy) (actions : List Action) :
    (assembly.performAll actions).Indexed ∧
      ∀ id, ((assembly.performAll actions).nodeOrNew id).Tidy :=
  h.forall_nodeOrNew_performAll (fun _ key value hnode => hnode.set key value)
    (fun _ _ hnode => hnode) htidy actions

end Assembly

/-- Every attribute of a node is what its cell ends with when the tree is gone over in the order of
the source, and no key with a field is found in the map. -/
theorem Graph.Node.value?_eq_cell (document : Document) {node : Graph.Node}
    (hmem : node ∈ document.toGraph.nodes) :
    (∀ key, node.value? key = (Cell.run node.id key document.actions).value) ∧
      ∀ key ∈ fieldKeys, node.attributes.get? key = none := by
  rw [document.toGraph_eq] at hmem
  have hstart := Assembly.indexed_start document.directed document.strict
    (document.ident.map Tree.Ident.name)
  obtain ⟨hindexed, htidy⟩ := hstart.tidy_performAll (fun id => Graph.Node.tidy_named id)
    document.actions
  have hnode := hindexed.nodeOrNew_of_mem hmem
  constructor
  · intro key
    have hcell := hstart.cell_performAll document.actions node.id key
    rw [Assembly.cell_start] at hcell
    calc
      node.value? key = (Assembly.cell _ node.id key).value := by rw [Assembly.cell, hnode]
      _ = (Cell.run node.id key document.actions).value := congrArg Cell.value hcell
  · rw [← hnode]
    exact htidy node.id

private def wordAt (name : String) : Tree.Ident :=
  ⟨.nowhere, name, .bare⟩

private def colored (color : String) : Option AttributeList :=
  some ⟨.nowhere, [⟨.nowhere, wordAt "color", wordAt color⟩]⟩

/-- A default that an edge fills in, one that leaks out of a subgraph at the end of the edge, and a
node statement between them. -/
private def leakingDefaults : Document :=
  ⟨.nowhere, false, true, none,
    [.defaults .nowhere .node (colored "red"),
      .edge .nowhere (.node ⟨.nowhere, wordAt "a", none⟩)
        [⟨.nowhere, true, .subgraph ⟨.nowhere, some (wordAt "s"),
          [.defaults .nowhere .node (colored "green"),
            .node .nowhere ⟨.nowhere, wordAt "b", none⟩ none]⟩⟩] none,
      .edge .nowhere (.node ⟨.nowhere, wordAt "a", none⟩)
        [⟨.nowhere, true, .group .nowhere [⟨.nowhere, wordAt "c", none⟩]⟩] none]⟩

theorem Graph.Node.value?_eq_cell_leakingDefaults :
    ∃ first ∈ leakingDefaults.toGraph.nodes, ∃ last ∈ leakingDefaults.toGraph.nodes,
      (first.id = "a" ∧ first.value? "color" = some "red" ∧ first.value? "label" = some "a") ∧
      (last.id = "c" ∧ last.value? "color" = some "green" ∧ last.value? "tooltip" = none) ∧
      ∀ key ∈ fieldKeys, last.attributes.get? key = none := by
  obtain ⟨first, hfirst, ha⟩ := leakingDefaults.exists_node (show "a" ∈ _ by decide)
  obtain ⟨last, hlast, hc⟩ := leakingDefaults.exists_node (show "c" ∈ _ by decide)
  obtain ⟨hfirstCells, _⟩ := value?_eq_cell leakingDefaults hfirst
  obtain ⟨hlastCells, htidy⟩ := value?_eq_cell leakingDefaults hlast
  rw [ha] at hfirstCells
  rw [hc] at hlastCells
  refine ⟨first, hfirst, last, hlast, ⟨ha, ?_, ?_⟩, ⟨hc, ?_, ?_⟩, htidy⟩
  · rw [hfirstCells]
    decide +kernel
  · rw [hfirstCells]
    decide +kernel
  · rw [hlastCells]
    decide +kernel
  · rw [hlastCells]
    decide +kernel

end DotGraph
