import DotGraph.Tree

namespace DotGraph.Tree

/-! A tree in pre-order: each part before what is in it, and that in the order of the source. -/

/-- What is come to on a way through a tree. -/
inductive Visit where
  | part (position : Position)
  | statement (position : Position)
  /-- A subgraph, or the whole graph, with the list of its statements. -/
  | body (position : Position) (statements : List Statement)
  | ident (name : Ident)
  /-- A value that stands for one that is missing. -/
  | supplied (value : Ident)

namespace Visit

def position : Visit → Position
  | part position | statement position | body position _ => position
  | ident name | supplied name => name.position

def offset (visit : Visit) : Nat :=
  visit.position.offset

def statement? : Visit → Option Position
  | statement position => some position
  | part _ | body _ _ | ident _ | supplied _ => none

def ident? : Visit → Option Ident
  | ident name => some name
  | part _ | statement _ | body _ _ | supplied _ => none

/-- What is named, whether its name is a token or not. -/
def name? : Visit → Option Ident
  | ident name | supplied name => some name
  | part _ | statement _ | body _ _ => none

def statements? : Visit → Option (List Statement)
  | body _ statements => some statements
  | part _ | statement _ | ident _ | supplied _ => none

theorem ident?_eq_none {visit : Visit} (h : visit.name? = none) : visit.ident? = none := by
  cases visit with
  | ident _ | supplied _ => nomatch h
  | part _ | statement _ | body _ _ => rfl

end Visit

/-- A key without an equals sign has the value `true`, at its own place; one with an equals sign and
nothing fit behind it has the empty bare name.  No token behind a key is either. -/
def Attribute.isSupplied (entry : Attribute) : Bool :=
  entry.value = ⟨entry.key.position, "true", .bare⟩ ||
    entry.value.name = "" && entry.value.flavour = .bare

def Attribute.valueVisit (entry : Attribute) : Visit :=
  if entry.isSupplied then .supplied entry.value else .ident entry.value

def Attribute.visits (entry : Attribute) : List Visit :=
  [.part entry.position, .ident entry.key, entry.valueVisit]

def AttributeList.visits (list : AttributeList) : List Visit :=
  .part list.position :: list.attributes.flatMap Attribute.visits

def visitsOfIdent? (ident : Option Ident) : List Visit :=
  ident.toList.map .ident

def Port.visits (port : Port) : List Visit :=
  .part port.position :: (visitsOfIdent? port.name ++ visitsOfIdent? port.compass)

def NodeId.visits (node : NodeId) : List Visit :=
  .part node.position :: .ident node.ident :: node.port.elim [] Port.visits

def visitsOfAttributes? (attributes : Option AttributeList) : List Visit :=
  attributes.elim [] AttributeList.visits

mutual
def Statement.visits : Statement → List Visit
  | .node position node attributes =>
      .statement position :: (node.visits ++ visitsOfAttributes? attributes)
  | .edge position left hops attributes =>
      .statement position ::
        (left.visits ++ visitsOfHops hops ++ visitsOfAttributes? attributes)
  | .defaults position _ attributes => .statement position :: visitsOfAttributes? attributes
  | .assign position key value => [.statement position, .ident key, .ident value]
  | .subgraph ⟨position, ident, statements⟩ =>
      .statement position :: Subgraph.visits ⟨position, ident, statements⟩

def Endpoint.visits : Endpoint → List Visit
  | .node node => node.visits
  | .group position nodes => .part position :: nodes.flatMap NodeId.visits
  | .subgraph body => body.visits

def visitsOfHops : List Hop → List Visit
  | [] => []
  | ⟨position, _, endpoint⟩ :: hops => .part position :: endpoint.visits ++ visitsOfHops hops

def Subgraph.visits : Subgraph → List Visit
  | ⟨position, ident, statements⟩ =>
      .body position statements :: (visitsOfIdent? ident ++ visitsOfAll statements)

def visitsOfAll : List Statement → List Visit
  | [] => []
  | statement :: statements => statement.visits ++ visitsOfAll statements
end

def Document.visits (document : Document) : List Visit :=
  .body document.position document.statements ::
    (visitsOfIdent? document.ident ++ visitsOfAll document.statements)

theorem visitsOfAll_eq_flatMap (statements : List Statement) :
    visitsOfAll statements = statements.flatMap Statement.visits := by
  induction statements with
  | nil => rfl
  | cons statement statements ih => rw [visitsOfAll, List.flatMap_cons, ih]

theorem visitsOfAll_append (front back : List Statement) :
    visitsOfAll (front ++ back) = visitsOfAll front ++ visitsOfAll back := by
  simp only [visitsOfAll_eq_flatMap, List.flatMap_append]

/-- Nothing but parts and names. -/
def Flat (visits : List Visit) : Prop :=
  ∀ visit ∈ visits, visit.statement? = none ∧ visit.statements? = none

theorem flat_visitsOfIdent? (ident : Option Ident) : Flat (visitsOfIdent? ident) := by
  intro visit hmem
  obtain ⟨name, -, rfl⟩ := List.mem_map.mp hmem
  exact ⟨rfl, rfl⟩

theorem Flat.part {visits : List Visit} (h : Flat visits) (position : Position) :
    Flat (.part position :: visits) :=
  List.forall_mem_cons.mpr ⟨⟨rfl, rfl⟩, h⟩

theorem Flat.append {front back : List Visit} (h : Flat front) (k : Flat back) :
    Flat (front ++ back) :=
  List.forall_mem_append.mpr ⟨h, k⟩

theorem NodeId.flat_visits (node : NodeId) : Flat node.visits := by
  refine .part (List.forall_mem_cons.mpr ⟨⟨rfl, rfl⟩, ?_⟩) _
  cases node.port with
  | none => exact nofun
  | some port =>
      exact Flat.part (.append (flat_visitsOfIdent? port.name) (flat_visitsOfIdent? port.compass)) _

theorem Attribute.flat_visits (entry : Attribute) : Flat entry.visits := by
  have hvalue : entry.valueVisit.statement? = none ∧ entry.valueVisit.statements? = none := by
    unfold Attribute.valueVisit
    split <;> exact ⟨rfl, rfl⟩
  exact .part (List.forall_mem_cons.mpr ⟨⟨rfl, rfl⟩, List.forall_mem_singleton.mpr hvalue⟩) _

theorem flat_visitsOfAttributes? (attributes : Option AttributeList) :
    Flat (visitsOfAttributes? attributes) := by
  cases attributes with
  | none => exact nofun
  | some list =>
      refine .part (fun visit hmem => ?_) _
      obtain ⟨entry, -, hvisit⟩ := List.mem_flatMap.mp hmem
      exact entry.flat_visits visit hvisit

/-- The statements of each list are come to one after the other. -/
def Listed (visits : List Visit) : Prop :=
  ∀ statements ∈ visits.filterMap Visit.statements?,
    (statements.map Statement.position).Sublist (visits.filterMap Visit.statement?)

theorem Flat.listed {visits : List Visit} (h : Flat visits) : Listed visits := by
  intro statements hmem
  obtain ⟨visit, hvisit, hstatements⟩ := List.mem_filterMap.mp hmem
  exact nomatch (h visit hvisit).2.symm.trans hstatements

namespace Listed

theorem append {front back : List Visit} (h : Listed front) (k : Listed back) :
    Listed (front ++ back) := by
  intro statements hmem
  rw [List.filterMap_append] at hmem ⊢
  rcases List.mem_append.mp hmem with hmem | hmem
  · exact (h statements hmem).trans (List.sublist_append_left _ _)
  · exact (k statements hmem).trans (List.sublist_append_right _ _)

theorem part {visits : List Visit} (h : Listed visits) (position : Position) :
    Listed (.part position :: visits) :=
  h

theorem statement {visits : List Visit} (h : Listed visits) (position : Position) :
    Listed (.statement position :: visits) :=
  fun statements hmem => (h statements hmem).trans (List.sublist_cons_self _ _)

theorem body {statements : List Statement} {visits : List Visit} (h : Listed visits)
    (hstatements : (statements.map Statement.position).Sublist (visits.filterMap Visit.statement?))
    (position : Position) : Listed (.body position statements :: visits) := by
  intro other hmem
  rcases List.mem_cons.mp hmem with rfl | hmem
  · exact hstatements
  · exact h other hmem

end Listed

/-- On the way through some statements each of them is come to. -/
theorem sublist_visitsOfAll (statements : List Statement) :
    (statements.map Statement.position).Sublist
      ((visitsOfAll statements).filterMap Visit.statement?) := by
  have hfirst : ∀ statement : Statement,
      [statement.position].Sublist (statement.visits.filterMap Visit.statement?) := by
    intro statement
    cases statement with
    | subgraph body =>
        obtain ⟨_, _, _⟩ := body
        exact List.singleton_sublist.mpr List.mem_cons_self
    | node _ _ _ | edge _ _ _ _ | defaults _ _ _ | assign _ _ _ =>
        exact List.singleton_sublist.mpr List.mem_cons_self
  induction statements with
  | nil => exact List.Sublist.slnil
  | cons statement statements ih =>
      rw [visitsOfAll, List.filterMap_append, List.map_cons, ← List.singleton_append]
      exact (hfirst statement).append ih

mutual
theorem Statement.listed_visits : (statement : Statement) → Listed statement.visits
  | .node position node attributes => by
      rw [Statement.visits]
      exact (node.flat_visits.append (flat_visitsOfAttributes? attributes)).listed.statement position
  | .edge position left hops attributes => by
      rw [Statement.visits]
      exact ((left.listed_visits.append (listed_visitsOfHops hops)).append
        (flat_visitsOfAttributes? attributes).listed).statement position
  | .defaults position subject attributes => by
      rw [Statement.visits]
      exact (flat_visitsOfAttributes? attributes).listed.statement position
  | .assign position key value => by
      rw [Statement.visits]
      exact fun statements hmem => nomatch hmem
  | .subgraph ⟨position, ident, statements⟩ => by
      rw [Statement.visits]
      exact (Subgraph.listed_visits ⟨position, ident, statements⟩).statement position

theorem Endpoint.listed_visits : (endpoint : Endpoint) → Listed endpoint.visits
  | .node node => by
      rw [Endpoint.visits]
      exact node.flat_visits.listed
  | .group position nodes => by
      rw [Endpoint.visits]
      refine Flat.listed (.part (fun visit hmem => ?_) position)
      obtain ⟨node, -, hvisit⟩ := List.mem_flatMap.mp hmem
      exact node.flat_visits visit hvisit
  | .subgraph body => by
      rw [Endpoint.visits]
      exact body.listed_visits

theorem listed_visitsOfHops : (hops : List Hop) → Listed (visitsOfHops hops)
  | [] => by
      rw [visitsOfHops]
      exact nofun
  | ⟨position, _, endpoint⟩ :: hops => by
      rw [visitsOfHops]
      exact (endpoint.listed_visits.append (listed_visitsOfHops hops)).part position

theorem Subgraph.listed_visits : (body : Subgraph) → Listed body.visits
  | ⟨position, ident, statements⟩ => by
      rw [Subgraph.visits]
      refine ((flat_visitsOfIdent? ident).listed.append
        (listed_visitsOfAll statements)).body ?_ position
      rw [List.filterMap_append]
      exact (sublist_visitsOfAll statements).trans (List.sublist_append_right _ _)

theorem listed_visitsOfAll : (statements : List Statement) → Listed (visitsOfAll statements)
  | [] => by
      rw [visitsOfAll]
      exact nofun
  | statement :: statements => by
      rw [visitsOfAll]
      exact statement.listed_visits.append (listed_visitsOfAll statements)
end

theorem Document.listed_visits (document : Document) : Listed document.visits :=
  Subgraph.listed_visits ⟨document.position, document.ident, document.statements⟩

def Visit.isStatement (visit : Visit) : Bool :=
  visit.statement?.isSome

/-- The second visit is not in front of the first, and of two statements it is behind. -/
def Visit.Before (first second : Visit) : Prop :=
  first.offset ≤ second.offset ∧
    (first.isStatement → second.isStatement → first.offset < second.offset)

/-- Visits that stay between two offsets, with the statements in front of the second one, and that do
not go back. -/
structure Between (first : Nat) (visits : List Visit) (last : Nat) : Prop where
  le : first ≤ last
  from_first : ∀ visit ∈ visits, first ≤ visit.offset
  to_last : ∀ visit ∈ visits, visit.offset ≤ last ∧ (visit.isStatement → visit.offset < last)
  before : visits.Pairwise Visit.Before

namespace Between

theorem nil {first last : Nat} (h : first ≤ last) : Between first [] last :=
  ⟨h, nofun, nofun, .nil⟩

theorem one {first last : Nat} {visit : Visit} (h : first ≤ visit.offset) (k : visit.offset ≤ last)
    (hstatement : visit.isStatement = false) : Between first [visit] last where
  le := Nat.le_trans h k
  from_first := List.forall_mem_singleton.mpr h
  to_last := List.forall_mem_singleton.mpr ⟨k, fun hvisit => nomatch hstatement.symm.trans hvisit⟩
  before := List.pairwise_singleton _ _

/-- At one place there may be one statement, in front of all that belongs to it. -/
theorem at_once {first last : Nat} (hlt : first < last) {visit : Visit} {more : List Visit}
    (hoffset : ∀ other ∈ visit :: more, other.offset = first)
    (hmore : ∀ other ∈ more, other.isStatement = false) : Between first (visit :: more) last := by
  have hbefore : ∀ early ∈ visit :: more, ∀ late ∈ more, early.Before late :=
    fun early hearly late hlate =>
      ⟨Nat.le_of_eq ((hoffset early hearly).trans
        (hoffset late (List.mem_cons_of_mem _ hlate)).symm),
        fun _ hstatement => nomatch (hmore late hlate).symm.trans hstatement⟩
  refine ⟨Nat.le_of_lt hlt, fun other hmem => Nat.le_of_eq (hoffset other hmem).symm,
    fun other hmem => ?_, List.pairwise_cons.mpr ⟨hbefore visit List.mem_cons_self,
      List.pairwise_of_forall_mem_list fun early hearly =>
        hbefore early (List.mem_cons_of_mem _ hearly)⟩⟩
  rw [hoffset other hmem]
  exact ⟨Nat.le_of_lt hlt, fun _ => hlt⟩

theorem append {first second third : Nat} {front back : List Visit}
    (h : Between first front second) (k : Between second back third) :
    Between first (front ++ back) third where
  le := Nat.le_trans h.le k.le
  from_first := List.forall_mem_append.mpr
    ⟨h.from_first, fun visit hmem => Nat.le_trans h.le (k.from_first visit hmem)⟩
  to_last := List.forall_mem_append.mpr
    ⟨fun visit hmem => ⟨Nat.le_trans (h.to_last visit hmem).1 k.le,
      fun hstatement => Nat.lt_of_lt_of_le ((h.to_last visit hmem).2 hstatement) k.le⟩, k.to_last⟩
  before := List.pairwise_append.mpr ⟨h.before, k.before, fun early hearly late hlate =>
    have hle := k.from_first late hlate
    ⟨Nat.le_trans (h.to_last early hearly).1 hle,
      fun hstatement _ => Nat.lt_of_lt_of_le ((h.to_last early hearly).2 hstatement) hle⟩⟩

theorem sublist {first last : Nat} {visits fewer : List Visit} (h : Between first visits last)
    (hfewer : fewer.Sublist visits) : Between first fewer last where
  le := h.le
  from_first visit hmem := h.from_first visit (hfewer.subset hmem)
  to_last visit hmem := h.to_last visit (hfewer.subset hmem)
  before := h.before.sublist hfewer

end Between

end DotGraph.Tree
