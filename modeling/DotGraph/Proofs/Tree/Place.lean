import DotGraph.Proofs.Tree.Events

namespace DotGraph.Tree

/-! Places in a tree at which statements stand, so that others can be put there instead. -/

/-- An edge one of whose endpoints is open: the first one, or that of some hop. -/
inductive EdgeHole where
  | first (position : Position) (hops : List Hop) (attributes : Option AttributeList)
  | later (position : Position) (left : Endpoint) (front : List Hop) (opened : Position)
      (directed : Bool) (back : List Hop) (attributes : Option AttributeList)

def EdgeHole.fill : EdgeHole → Endpoint → Statement
  | .first position hops attributes, endpoint => .edge position endpoint hops attributes
  | .later position left front opened directed back attributes, endpoint =>
      .edge position left (front ++ ⟨opened, directed, endpoint⟩ :: back) attributes

/-- The nodes of the open endpoint occur between others that do not depend on it. -/
theorem EdgeHole.exists_occurrences (hole : EdgeHole) :
    ∃ front back, ∀ endpoint : Endpoint,
      (hole.fill endpoint).occurrences = front ++ endpoint.occurrences ++ back := by
  cases hole with
  | first position hops attributes =>
      refine ⟨[], occurrencesOfHops hops, fun endpoint => ?_⟩
      rw [fill, Statement.occurrences, List.nil_append]
  | later position left front opened directed back attributes =>
      refine ⟨left.occurrences ++ occurrencesOfHops front, occurrencesOfHops back,
        fun endpoint => ?_⟩
      rw [fill, Statement.occurrences, occurrencesOfHops_append, occurrencesOfHops]
      simp only [List.append_assoc]

/-- How a body stands among statements: as one of them, or as an endpoint of an edge. -/
inductive BodyHole where
  | statement
  | endpoint (hole : EdgeHole)

def BodyHole.fill : BodyHole → Subgraph → Statement
  | .statement, body => .subgraph body
  | .endpoint hole, body => hole.fill (.subgraph body)

/-- A place in a list of statements, among those of the list or at some depth in a body. -/
inductive Place where
  | here (front back : List Statement)
  | within (front : List Statement) (hole : BodyHole) (position : Position)
      (ident : Option Ident) (place : Place) (back : List Statement)

namespace Place

def fill : Place → List Statement → List Statement
  | .here front back, statements => front ++ statements ++ back
  | .within front hole position ident place back, statements =>
      front ++ hole.fill ⟨position, ident, place.fill statements⟩ :: back

/-- The same place, with one more statement in front of all others. -/
def behind (statement : Statement) : Place → Place
  | .here front back => .here (statement :: front) back
  | .within front hole position ident place back =>
      .within (statement :: front) hole position ident place back

theorem fill_behind (statement : Statement) (place : Place) (statements : List Statement) :
    (place.behind statement).fill statements = statement :: place.fill statements := by
  cases place <;> rfl

/-- The same place, between some of the statements that stood there. -/
def among (front back : List Statement) : Place → Place
  | .here before behind => .here (before ++ front) (back ++ behind)
  | .within before hole position ident place behind =>
      .within before hole position ident (place.among front back) behind

theorem fill_among (front back : List Statement) (place : Place) (statements : List Statement) :
    (place.among front back).fill statements = place.fill (front ++ statements ++ back) := by
  induction place with
  | here before behind => simp only [among, fill, List.append_assoc]
  | within before hole position ident place behind ih => rw [among, fill, fill, ih]

end Place

variable {around : List Subgraph} {body : Subgraph}

mutual
/-- The statements of each body stand at a place. -/
theorem exists_place_of_close : (outer : List Subgraph) → (statements : List Statement) →
    .close around body ∈ eventsOfAll outer statements →
    ∃ place : Place, place.fill body.statements = statements
  | outer, [], h => by
      rw [eventsOfAll] at h
      nomatch h
  | outer, statement :: statements, h => by
      rw [eventsOfAll, List.mem_append] at h
      cases h with
      | inl h =>
          obtain ⟨hole, position, ident, place, rfl⟩ :=
            exists_hole_of_close outer statement h
          exact ⟨.within [] hole position ident place statements, rfl⟩
      | inr h =>
          obtain ⟨place, rfl⟩ := exists_place_of_close outer statements h
          exact ⟨place.behind statement, place.fill_behind statement body.statements⟩

theorem exists_hole_of_close : (outer : List Subgraph) → (statement : Statement) →
    .close around body ∈ statement.events outer →
    ∃ (hole : BodyHole) (position : Position) (ident : Option Ident) (place : Place),
      hole.fill ⟨position, ident, place.fill body.statements⟩ = statement
  | outer, .node _ _ _, h | outer, .defaults _ _ _, h | outer, .assign _ _ _, h => by
      simp [Statement.events] at h
  | outer, .edge position left hops attributes, h => by
      rw [Statement.events, List.mem_append] at h
      cases h with
      | inl h =>
          obtain ⟨start, ident, place, rfl⟩ := exists_endpoint_of_close outer left h
          exact ⟨.endpoint (.first position hops attributes), start, ident, place, rfl⟩
      | inr h =>
          obtain ⟨front, opened, directed, start, ident, place, back, rfl⟩ :=
            exists_hop_of_close outer hops h
          exact ⟨.endpoint (.later position left front opened directed back attributes), start,
            ident, place, rfl⟩
  | outer, .subgraph ⟨position, ident, statements⟩, h => by
      rw [Statement.events] at h
      obtain ⟨place, rfl⟩ := exists_body_of_close outer ⟨position, ident, statements⟩ h
      exact ⟨.statement, position, ident, place, rfl⟩

theorem exists_hop_of_close : (outer : List Subgraph) → (hops : List Hop) →
    .close around body ∈ eventsOfHops outer hops →
    ∃ (front : List Hop) (opened : Position) (directed : Bool) (position : Position)
      (ident : Option Ident) (place : Place) (back : List Hop),
      front ++ ⟨opened, directed, .subgraph ⟨position, ident, place.fill body.statements⟩⟩ :: back = hops
  | outer, [], h => by
      rw [eventsOfHops] at h
      nomatch h
  | outer, ⟨opened, directed, endpoint⟩ :: hops, h => by
      rw [eventsOfHops, List.mem_append] at h
      cases h with
      | inl h =>
          obtain ⟨position, ident, place, rfl⟩ := exists_endpoint_of_close outer endpoint h
          exact ⟨[], opened, directed, position, ident, place, hops, rfl⟩
      | inr h =>
          obtain ⟨front, later, arrow, position, ident, place, back, rfl⟩ :=
            exists_hop_of_close outer hops h
          exact ⟨⟨opened, directed, endpoint⟩ :: front, later, arrow, position, ident, place, back,
            rfl⟩

theorem exists_endpoint_of_close : (outer : List Subgraph) → (endpoint : Endpoint) →
    .close around body ∈ endpoint.events outer →
    ∃ (position : Position) (ident : Option Ident) (place : Place),
      .subgraph ⟨position, ident, place.fill body.statements⟩ = endpoint
  | outer, .node _, h | outer, .group _ _, h => by simp [Endpoint.events] at h
  | outer, .subgraph ⟨position, ident, statements⟩, h => by
      rw [Endpoint.events] at h
      obtain ⟨place, rfl⟩ := exists_body_of_close outer ⟨position, ident, statements⟩ h
      exact ⟨position, ident, place, rfl⟩

theorem exists_body_of_close : (outer : List Subgraph) → (whole : Subgraph) →
    .close around body ∈ whole.events outer →
    ∃ place : Place, place.fill body.statements = whole.statements
  | outer, ⟨position, ident, statements⟩, h => by
      rw [Subgraph.events, List.mem_append, List.mem_singleton] at h
      cases h with
      | inl h => exact exists_place_of_close _ statements h
      | inr h =>
          -- this is the body itself
          obtain ⟨-, rfl⟩ := Event.close.inj h
          exact ⟨.here [] [], List.append_nil _⟩
end

/-- Wherever a statement stands in a tree, at the top or in some body, there is a place for it. -/
theorem Document.exists_place (document : Document) {statement : Statement}
    (h : statement ∈ document.statements ∨
      ∃ around body, .close around body ∈ document.events ∧ statement ∈ body.statements) :
    ∃ place : Place, place.fill [statement] = document.statements := by
  have hsplit : ∀ (place : Place) {statements : List Statement}, statement ∈ statements →
      ∃ narrow : Place, narrow.fill [statement] = place.fill statements := by
    intro place statements hmem
    obtain ⟨front, back, rfl⟩ := List.append_of_mem hmem
    refine ⟨place.among front back, ?_⟩
    rw [Place.fill_among, List.append_assoc, List.singleton_append]
  rcases h with hmem | ⟨around, body, hclose, hmem⟩
  · obtain ⟨place, hplace⟩ := hsplit (.here [] []) hmem
    exact ⟨place, hplace.trans (List.append_nil _)⟩
  · obtain ⟨whole, hwhole⟩ := exists_place_of_close [] document.statements hclose
    obtain ⟨place, hplace⟩ := hsplit whole hmem
    exact ⟨place, hplace.trans hwhole⟩

end DotGraph.Tree
