import DotGraph.Graph.Assembly
import DotGraph.Proofs.Tree.Occurrences

namespace DotGraph.Tree

/-! What a tree says of nodes and of subgraphs, in the order of the source.  A body ends behind all
that stands in it, so that of two nested bodies the inner one ends first. -/

/-- Something that stands inside some subgraphs, of which the innermost comes first. -/
inductive Event where
  | node (around : List Subgraph) (id : String)
  | assign (around : List Subgraph) (key value : String)
  | close (around : List Subgraph) (body : Subgraph)

def Event.around : Event → List Subgraph
  | node around _ | assign around _ _ | close around _ => around

mutual
def eventsOfAll (around : List Subgraph) : List Statement → List Event
  | [] => []
  | statement :: statements => statement.events around ++ eventsOfAll around statements

def Statement.events (around : List Subgraph) : Statement → List Event
  | .node _ node _ => [.node around node.name]
  | .edge _ left hops _ => left.events around ++ eventsOfHops around hops
  | .defaults _ _ _ => []
  | .assign _ key value => [.assign around key.name value.name]
  | .subgraph body => body.events around

def eventsOfHops (around : List Subgraph) : List Hop → List Event
  | [] => []
  | ⟨_, _, endpoint⟩ :: hops => endpoint.events around ++ eventsOfHops around hops

def Endpoint.events (around : List Subgraph) : Endpoint → List Event
  | .node node => [.node around node.name]
  | .group _ nodes => nodes.map fun node => .node around node.name
  | .subgraph body => body.events around

def Subgraph.events (around : List Subgraph) : Subgraph → List Event
  | ⟨position, ident, statements⟩ =>
      eventsOfAll (⟨position, ident, statements⟩ :: around) statements ++
        [.close around ⟨position, ident, statements⟩]
end

def Document.events (document : Document) : List Event :=
  eventsOfAll [] document.statements

/-- The nodes of a body, wherever in it they occur. -/
def Subgraph.occurrences (body : Subgraph) : List String :=
  occurrencesOfAll body.statements

/-- The assignments that stand directly in a body. -/
def Subgraph.assignments (body : Subgraph) : List (String × String) :=
  Assembly.assignments body.statements

def Subgraph.inside (body : Subgraph) (around : List Subgraph) : List Event :=
  eventsOfAll (body :: around) body.statements

theorem Subgraph.events_eq (around : List Subgraph) (body : Subgraph) :
    body.events around = body.inside around ++ [.close around body] := by
  obtain ⟨_, _, _⟩ := body
  rw [Subgraph.events]
  rfl

/-- The events of something inside some subgraphs, with the nodes that occur in it and the
assignments that no further body stands around. -/
inductive Recounts : List Subgraph → List String → List (String × String) → List Event → Prop
  | nil {around : List Subgraph} : Recounts around [] [] []
  | append {around : List Subgraph} {front back : List String}
      {entries more : List (String × String)} {first second : List Event}
      (hfirst : Recounts around front entries first)
      (hsecond : Recounts around back more second) :
      Recounts around (front ++ back) (entries ++ more) (first ++ second)
  | node (around : List Subgraph) (id : String) : Recounts around [id] [] [.node around id]
  | assign (around : List Subgraph) (key value : String) :
      Recounts around [] [(key, value)] [.assign around key value]
  | subgraph {around : List Subgraph} {body : Subgraph}
      (hbody : Recounts (body :: around) body.occurrences body.assignments (body.inside around)) :
      Recounts around body.occurrences [] (body.inside around ++ [.close around body])

mutual
theorem recounts_eventsOfAll : (around : List Subgraph) → (statements : List Statement) →
    Recounts around (occurrencesOfAll statements) (Assembly.assignments statements)
      (eventsOfAll around statements)
  | around, [] => by
      rw [occurrencesOfAll, eventsOfAll]
      exact .nil
  | around, statement :: statements => by
      rw [occurrencesOfAll, eventsOfAll, ← List.singleton_append, Assembly.assignments,
        List.filterMap_append]
      exact .append (recounts_events around statement) (recounts_eventsOfAll around statements)

theorem recounts_events : (around : List Subgraph) → (statement : Statement) →
    Recounts around statement.occurrences (Assembly.assignments [statement])
      (statement.events around)
  | around, .node _ node _ => by
      rw [Statement.occurrences, Statement.events]
      exact .node around node.name
  | around, .edge _ left hops _ => by
      rw [Statement.occurrences, Statement.events]
      exact .append (recounts_endpoint around left) (recounts_hops around hops)
  | around, .defaults _ _ _ => by
      rw [Statement.occurrences, Statement.events]
      exact .nil
  | around, .assign _ key value => by
      rw [Statement.occurrences, Statement.events]
      exact .assign around key.name value.name
  | around, .subgraph ⟨position, ident, statements⟩ => by
      rw [Statement.occurrences, Statement.events]
      exact recounts_subgraph around ⟨position, ident, statements⟩

theorem recounts_hops : (around : List Subgraph) → (hops : List Hop) →
    Recounts around (occurrencesOfHops hops) [] (eventsOfHops around hops)
  | around, [] => by
      rw [occurrencesOfHops, eventsOfHops]
      exact .nil
  | around, ⟨_, _, endpoint⟩ :: hops => by
      rw [occurrencesOfHops, eventsOfHops]
      exact .append (recounts_endpoint around endpoint) (recounts_hops around hops)

theorem recounts_endpoint : (around : List Subgraph) → (endpoint : Endpoint) →
    Recounts around endpoint.occurrences [] (endpoint.events around)
  | around, .node node => by
      rw [Endpoint.occurrences, Endpoint.events]
      exact .node around node.name
  | around, .group _ nodes => by
      rw [Endpoint.occurrences, Endpoint.events]
      induction nodes with
      | nil => exact .nil
      | cons node nodes ih => exact .append (.node around node.name) ih
  | around, .subgraph ⟨position, ident, statements⟩ => by
      rw [Endpoint.occurrences, Endpoint.events]
      exact recounts_subgraph around ⟨position, ident, statements⟩

theorem recounts_subgraph : (around : List Subgraph) → (body : Subgraph) →
    Recounts around body.occurrences [] (body.events around)
  | around, ⟨position, ident, statements⟩ => by
      rw [Subgraph.events_eq]
      exact .subgraph (recounts_eventsOfAll (⟨position, ident, statements⟩ :: around) statements)
end

theorem Subgraph.recounts_inside (body : Subgraph) (around : List Subgraph) :
    Recounts (body :: around) body.occurrences body.assignments (body.inside around) :=
  recounts_eventsOfAll (body :: around) body.statements

theorem Document.recounts_events (document : Document) :
    Recounts [] (occurrencesOfAll document.statements) (Assembly.assignments document.statements)
      document.events :=
  recounts_eventsOfAll [] document.statements

/-- One of the subgraphs has the name. -/
def Encloses (name : String) (around : List Subgraph) : Prop :=
  ∃ body ∈ around, body.name? = some name

instance (name : String) (around : List Subgraph) : Decidable (Encloses name around) :=
  inferInstanceAs (Decidable (∃ body ∈ around, body.name? = some name))

theorem encloses_cons (name : String) (body : Subgraph) (around : List Subgraph) :
    Encloses name (body :: around) ↔ body.name? = some name ∨ Encloses name around := by
  simp [Encloses]

namespace Event

def id? : Event → Option String
  | node _ id => some id
  | assign _ _ _ | close _ _ => none

/-- The node that occurs here, if it is inside a subgraph of the name, at whatever depth. -/
def nodeIn? (name : String) : Event → Option String
  | node around id => if Encloses name around then some id else none
  | assign _ _ _ | close _ _ => none

/-- The assignment that stands here, if it stands directly in a subgraph of the name. -/
def entryIn? (name : String) : Event → Option (String × String)
  | assign (body :: _) key value => if body.name? = some name then some (key, value) else none
  | assign [] _ _ | node _ _ | close _ _ => none

/-- The body that ends here, if it has the name. -/
def body? (name : String) : Event → Option Subgraph
  | close _ body => if body.name? = some name then some body else none
  | node _ _ | assign _ _ _ => none

theorem mem_filterMap_id? {events : List Event} {id : String} :
    id ∈ events.filterMap id? ↔ ∃ around, node around id ∈ events := by
  rw [List.mem_filterMap]
  constructor
  · rintro ⟨event, hmem, hid⟩
    cases event with
    | node around _ => exact ⟨around, Option.some.inj hid ▸ hmem⟩
    | assign _ _ _ | close _ _ => nomatch hid
  · rintro ⟨around, hmem⟩
    exact ⟨_, hmem, rfl⟩

theorem mem_filterMap_nodeIn? {name : String} {events : List Event} {id : String} :
    id ∈ events.filterMap (nodeIn? name) ↔
      ∃ around, node around id ∈ events ∧ Encloses name around := by
  rw [List.mem_filterMap]
  constructor
  · rintro ⟨event, hmem, hid⟩
    cases event with
    | node around _ =>
        obtain ⟨hname, ⟨⟩⟩ := Option.ite_none_right_eq_some.mp hid
        exact ⟨around, hmem, hname⟩
    | assign _ _ _ | close _ _ => nomatch hid
  · rintro ⟨around, hmem, hname⟩
    exact ⟨_, hmem, if_pos hname⟩

theorem mem_filterMap_body? {name : String} {events : List Event} {body : Subgraph} :
    body ∈ events.filterMap (body? name) ↔
      body.name? = some name ∧ ∃ around, close around body ∈ events := by
  rw [List.mem_filterMap]
  constructor
  · rintro ⟨event, hmem, hbody⟩
    cases event with
    | close around _ =>
        obtain ⟨hname, ⟨⟩⟩ := Option.ite_none_right_eq_some.mp hbody
        exact ⟨hname, around, hmem⟩
    | node _ _ | assign _ _ _ => nomatch hbody
  · rintro ⟨hname, around, hmem⟩
    exact ⟨_, hmem, if_pos hname⟩

end Event

/-- A body of the name ends inside another one of that name. -/
def Event.EndsInside (name : String) : Event → Prop
  | close around body => body.name? = some name ∧ Encloses name around
  | node _ _ | assign _ _ _ => False

instance (name : String) (event : Event) : Decidable (event.EndsInside name) :=
  match event with
  | .close _ _ => inferInstanceAs (Decidable (_ ∧ _))
  | .node _ _ | .assign _ _ _ => inferInstanceAs (Decidable False)

def NestsItself (name : String) (events : List Event) : Prop :=
  ∃ event ∈ events, event.EndsInside name

instance (name : String) (events : List Event) : Decidable (NestsItself name events) :=
  inferInstanceAs (Decidable (∃ event ∈ events, event.EndsInside name))

namespace Document

/-- The bodies of a name in the order in which they end. -/
def bodies (document : Document) (name : String) : List Subgraph :=
  document.events.filterMap (Event.body? name)

/-- The nodes inside subgraphs of a name in the order of the source. -/
def nodesIn (document : Document) (name : String) : List String :=
  document.events.filterMap (Event.nodeIn? name)

/-- The assignments directly in subgraphs of a name in the order of the source. -/
def entriesIn (document : Document) (name : String) : List (String × String) :=
  document.events.filterMap (Event.entryIn? name)

end Document

namespace Recounts

variable {around : List Subgraph} {ids : List String} {entries : List (String × String)}
  {events : List Event} {name : String}

theorem ids_eq (h : Recounts around ids entries events) : events.filterMap Event.id? = ids := by
  induction h with
  | nil | node _ _ | assign _ _ _ => rfl
  | append _ _ hfirst hsecond => rw [List.filterMap_append, hfirst, hsecond]
  | subgraph _ ih =>
      rw [List.filterMap_append, ih]
      exact List.append_nil _

theorem mem_around (h : Recounts around ids entries events) {event : Event}
    (hmem : event ∈ events) {body : Subgraph} (hbody : body ∈ around) : body ∈ event.around := by
  induction h with
  | nil => nomatch hmem
  | node _ _ | assign _ _ _ =>
      obtain rfl := List.mem_singleton.mp hmem
      exact hbody
  | append _ _ hfirst hsecond =>
      rcases List.mem_append.mp hmem with hmem | hmem
      · exact hfirst hmem hbody
      · exact hsecond hmem hbody
  | subgraph _ ih =>
      rcases List.mem_append.mp hmem with hmem | hmem
      · exact ih hmem (List.mem_cons_of_mem _ hbody)
      · obtain rfl := List.mem_singleton.mp hmem
        exact hbody

/-- What is inside a body is among the events of that body, which ends later. -/
theorem exists_close (h : Recounts around ids entries events) {event : Event}
    (hmem : event ∈ events) {body : Subgraph} (hbody : body ∈ event.around) :
    body ∈ around ∨ ∃ outer, .close outer body ∈ events ∧ event ∈ body.inside outer := by
  induction h with
  | nil => nomatch hmem
  | node _ _ | assign _ _ _ =>
      obtain rfl := List.mem_singleton.mp hmem
      exact .inl hbody
  | append _ _ hfirst hsecond =>
      rcases List.mem_append.mp hmem with hmem | hmem
      · refine (hfirst hmem).imp_right ?_
        rintro ⟨outer, hclose, hinside⟩
        exact ⟨outer, List.mem_append_left _ hclose, hinside⟩
      · refine (hsecond hmem).imp_right ?_
        rintro ⟨outer, hclose, hinside⟩
        exact ⟨outer, List.mem_append_right _ hclose, hinside⟩
  | @subgraph around innermost _ ih =>
      rcases List.mem_append.mp hmem with hmem | hmem
      · rcases ih hmem with hcons | ⟨outer, hclose, hinside⟩
        · rcases List.mem_cons.mp hcons with rfl | haround
          · exact .inr ⟨around, List.mem_append_right _ (List.mem_singleton_self _), hmem⟩
          · exact .inl haround
        · exact .inr ⟨outer, List.mem_append_left _ hclose, hinside⟩
      · obtain rfl := List.mem_singleton.mp hmem
        exact .inl hbody

theorem inside_subset (h : Recounts around ids entries events) {outer : List Subgraph}
    {body : Subgraph} (hclose : .close outer body ∈ events) : body.inside outer ⊆ events := by
  induction h with
  | nil => nomatch hclose
  | node _ _ | assign _ _ _ => exact nomatch List.mem_singleton.mp hclose
  | append _ _ hfirst hsecond =>
      rcases List.mem_append.mp hclose with hclose | hclose
      · exact List.subset_append_of_subset_left _ (hfirst hclose)
      · exact List.subset_append_of_subset_right _ (hsecond hclose)
  | subgraph _ ih =>
      rcases List.mem_append.mp hclose with hclose | hclose
      · exact List.subset_append_of_subset_left _ (ih hclose)
      · obtain ⟨rfl, rfl⟩ := Event.close.inj (List.mem_singleton.mp hclose)
        exact List.subset_append_left _ _

theorem mem_ids (h : Recounts around ids entries events) {id : String} :
    id ∈ ids ↔ ∃ outer, .node outer id ∈ events := by
  rw [← h.ids_eq]
  exact Event.mem_filterMap_id?

/-- The nodes inside subgraphs of a name are those of the bodies of that name. -/
theorem mem_flatMap_occurrences (h : Recounts around ids entries events)
    (hout : ¬ Encloses name around) (id : String) :
    id ∈ (events.filterMap (Event.body? name)).flatMap Subgraph.occurrences ↔
      id ∈ events.filterMap (Event.nodeIn? name) := by
  rw [List.mem_flatMap, Event.mem_filterMap_nodeIn?]
  constructor
  · rintro ⟨body, hmem, hid⟩
    obtain ⟨hname, outer, hclose⟩ := Event.mem_filterMap_body?.mp hmem
    have hinside := body.recounts_inside outer
    obtain ⟨inner, hnode⟩ := hinside.mem_ids.mp hid
    exact ⟨inner, h.inside_subset hclose hnode, body,
      hinside.mem_around hnode List.mem_cons_self, hname⟩
  · rintro ⟨inner, hnode, body, hbody, hname⟩
    rcases h.exists_close hnode hbody with haround | ⟨outer, hclose, hinside⟩
    · exact absurd ⟨body, haround, hname⟩ hout
    · exact ⟨body, Event.mem_filterMap_body?.mpr ⟨hname, outer, hclose⟩,
        (body.recounts_inside outer).mem_ids.mpr ⟨inner, hinside⟩⟩

theorem filterMap_nodeIn?_of_encloses (h : Recounts around ids entries events)
    (hname : Encloses name around) : events.filterMap (Event.nodeIn? name) = ids := by
  induction h with
  | nil | assign _ _ _ => rfl
  | node _ _ => simp [Event.nodeIn?, hname]
  | append _ _ hfirst hsecond => rw [List.filterMap_append, hfirst hname, hsecond hname]
  | subgraph _ ih =>
      rw [List.filterMap_append, ih ((encloses_cons _ _ _).mpr (.inr hname))]
      exact List.append_nil _

theorem filterMap_entryIn?_of_no_body (h : Recounts around ids entries events)
    (hnone : events.filterMap (Event.body? name) = []) :
    events.filterMap (Event.entryIn? name) =
      if around.head?.bind Subgraph.name? = some name then entries else [] := by
  induction h with
  | nil | node _ _ => simp [Event.entryIn?]
  | assign around _ _ =>
      cases around with
      | nil => rfl
      | cons body _ => by_cases hname : body.name? = some name <;> simp [Event.entryIn?, hname]
  | append _ _ hfirst hsecond =>
      rw [List.filterMap_append, List.append_eq_nil_iff] at hnone
      rw [List.filterMap_append, hfirst hnone.1, hsecond hnone.2]
      split <;> rfl
  | @subgraph _ body _ ih =>
      rw [List.filterMap_append, List.append_eq_nil_iff] at hnone
      have hother : body.name? ≠ some name := by
        intro heq
        simp [Event.body?, heq] at hnone
      rw [List.filterMap_append, ih hnone.1]
      simp [hother, Event.entryIn?]

/-- Where no subgraph of a name is inside another one of that name, what is inside the subgraphs of
that name is what their bodies say one after another. -/
theorem filterMap_eq_flatMap (h : Recounts around ids entries events)
    (hout : ¬ Encloses name around) (hnest : ¬ NestsItself name events) :
    events.filterMap (Event.nodeIn? name) =
        (events.filterMap (Event.body? name)).flatMap Subgraph.occurrences ∧
      events.filterMap (Event.entryIn? name) =
        (events.filterMap (Event.body? name)).flatMap Subgraph.assignments := by
  induction h with
  | nil => exact ⟨rfl, rfl⟩
  | node _ _ => simp [Event.nodeIn?, Event.entryIn?, Event.body?, List.filterMap_cons, hout]
  | assign around _ _ =>
      cases around with
      | nil => exact ⟨rfl, rfl⟩
      | cons body _ =>
          have hother : body.name? ≠ some name := fun heq => hout ⟨body, List.mem_cons_self, heq⟩
          simp [Event.nodeIn?, Event.entryIn?, Event.body?, List.filterMap_cons, hother]
  | append _ _ hfirst hsecond =>
      have hfirst := hfirst hout fun ⟨event, hmem, hends⟩ =>
        hnest ⟨event, List.mem_append_left _ hmem, hends⟩
      have hsecond := hsecond hout fun ⟨event, hmem, hends⟩ =>
        hnest ⟨event, List.mem_append_right _ hmem, hends⟩
      simp only [List.filterMap_append, List.flatMap_append, hfirst.1, hfirst.2, hsecond.1,
        hsecond.2, and_self]
  | @subgraph around body hbody ih =>
      have hinner : ¬ NestsItself name (body.inside around) := fun ⟨event, hmem, hends⟩ =>
        hnest ⟨event, List.mem_append_left _ hmem, hends⟩
      by_cases hname : body.name? = some name
      · -- a body of the name has no other in it
        have hnone : (body.inside around).filterMap (Event.body? name) = [] := by
          refine List.filterMap_eq_nil_iff.mpr fun event hmem => ?_
          cases event with
          | node _ _ | assign _ _ _ => rfl
          | close outer other =>
              have hbody : body ∈ outer := hbody.mem_around hmem List.mem_cons_self
              exact if_neg fun hother =>
                hnest ⟨_, List.mem_append_left _ hmem, hother, body, hbody, hname⟩
        have hnodes := hbody.filterMap_nodeIn?_of_encloses
          ((encloses_cons _ _ _).mpr (.inl hname))
        have hentries := hbody.filterMap_entryIn?_of_no_body hnone
        simp only [List.filterMap_append, hnone, hnodes, hentries]
        simp [Event.nodeIn?, Event.entryIn?, Event.body?, hname]
      · have hout : ¬ Encloses name (body :: around) := by
          rw [encloses_cons]
          exact not_or_intro hname hout
        have hinside := ih hout hinner
        simp only [List.filterMap_append, hinside.1, hinside.2, List.flatMap_append]
        simp [Event.nodeIn?, Event.entryIn?, Event.body?, hname]

end Recounts

theorem not_encloses_nil (name : String) : ¬ Encloses name [] :=
  fun ⟨_, hmem, _⟩ => nomatch hmem

namespace Document

theorem mem_flatMap_bodies (document : Document) (name id : String) :
    id ∈ (document.bodies name).flatMap Subgraph.occurrences ↔ id ∈ document.nodesIn name :=
  document.recounts_events.mem_flatMap_occurrences (not_encloses_nil name) id

/-- A body around something else ends in the end. -/
theorem mem_bodies_of_around {document : Document} {event : Event} (h : event ∈ document.events)
    {body : Subgraph} (hbody : body ∈ event.around) {name : String}
    (hname : body.name? = some name) : body ∈ document.bodies name := by
  rcases document.recounts_events.exists_close h hbody with hnone | ⟨outer, hclose, -⟩
  · nomatch hnone
  · exact Event.mem_filterMap_body?.mpr ⟨hname, outer, hclose⟩

/-- What occurs in a body is inside all that is around the body. -/
theorem mem_nodesIn_of_close {document : Document} {around : List Subgraph} {body : Subgraph}
    (hclose : .close around body ∈ document.events) {outer : Subgraph} (houter : outer ∈ around)
    {name : String} (hname : outer.name? = some name) {id : String} (hid : id ∈ body.occurrences) :
    id ∈ document.nodesIn name := by
  have hinside := body.recounts_inside around
  obtain ⟨inner, hnode⟩ := hinside.mem_ids.mp hid
  refine Event.mem_filterMap_nodeIn?.mpr ⟨inner, ?_, outer, ?_, hname⟩
  · exact document.recounts_events.inside_subset hclose hnode
  · exact hinside.mem_around hnode (List.mem_cons_of_mem _ houter)

end Document

end DotGraph.Tree
