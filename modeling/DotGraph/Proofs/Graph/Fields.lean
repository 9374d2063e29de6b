import DotGraph.Graph

namespace DotGraph.Graph

/-! What setting attributes leaves alone. -/

@[simp] theorem Node.id_set (node : Node) (key value : String) :
    (node.set key value).id = node.id := by
  unfold Node.set
  split <;> rfl

section
variable {P : Node → Prop} (hset : ∀ node key value, P node → P (node.set key value))
include hset

theorem Node.forall_setAll {node : Node} (h : P node) (entries : List (String × String)) :
    P (node.setAll entries) :=
  List.foldlRecOn (motive := P) entries _ h fun node h entry _ => hset node entry.1 entry.2 h

theorem Node.forall_fillIn {node : Node} (h : P node) (entries : List (String × String)) :
    P (node.fillIn entries) := by
  refine List.foldlRecOn (motive := P) entries _ h fun node h entry _ => ?_
  split
  · exact hset node entry.1 entry.2 h
  · exact h

end

@[simp] theorem Node.id_setAll (node : Node) (entries : List (String × String)) :
    (node.setAll entries).id = node.id :=
  Node.forall_setAll (P := fun new => new.id = node.id)
    (fun new key value h => (new.id_set key value).trans h) rfl entries

@[simp] theorem Node.id_fillIn (node : Node) (entries : List (String × String)) :
    (node.fillIn entries).id = node.id :=
  Node.forall_fillIn (P := fun new => new.id = node.id)
    (fun new key value h => (new.id_set key value).trans h) rfl entries

@[simp] theorem Node.id_join (node : Node) (group : Option String) :
    (node.join group).id = node.id := rfl

/-- The ends of a link. -/
def Link.ends (link : Link) : String × String :=
  (link.source, link.target)

theorem Link.joins_eq (link : Link) (source target : String) (directed : Bool) :
    link.joins source target directed =
      (decide (link.ends = (source, target)) ||
        (!directed && decide (link.ends = (target, source)))) := by
  simp [joins, ends, Bool.and_assoc]

@[simp] theorem Link.ends_set (link : Link) (key value : String) :
    (link.set key value).ends = link.ends := by
  unfold Link.set
  split <;> rfl

@[simp] theorem Link.ends_setAll (link : Link) (entries : List (String × String)) :
    (link.setAll entries).ends = link.ends := by
  unfold Link.setAll
  induction entries generalizing link with
  | nil => rfl
  | cons entry entries ih => rw [List.foldl_cons, ih, Link.ends_set]

@[simp] theorem Subgraph.id_set (subgraph : Subgraph) (key value : String) :
    (subgraph.set key value).id = subgraph.id := by
  unfold Subgraph.set
  split <;> rfl

@[simp] theorem Subgraph.nodes_set (subgraph : Subgraph) (key value : String) :
    (subgraph.set key value).nodes = subgraph.nodes := by
  unfold Subgraph.set
  split <;> rfl

/-- The keys of which a subgraph keeps the value. -/
def Subgraph.fieldKeys : List String := ["label", "color", "style"]

theorem Subgraph.set_of_not_mem {key : String} (h : key ∉ fieldKeys)
    (subgraph : Subgraph) (value : String) : subgraph.set key value = subgraph := by
  unfold Subgraph.set
  split
  case h_4 => rfl
  all_goals exact absurd (by decide) h

end DotGraph.Graph
