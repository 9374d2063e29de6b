import DotGraph.Proofs.Reader.Depth
import DotGraph.Proofs.Reader.Turns

namespace DotGraph.TokenReader

/-! How many blocks are open while a description is read, and how deep the bodies of the tree
are. -/

open DotGraph.Tree

namespace Turn

def isEnter : Turn → Bool
  | enter _ => true
  | leave _ _ _ | refuse _ => false

def isLeave : Turn → Bool
  | leave _ _ _ => true
  | enter _ | refuse _ => false

/-- The reader's count allows for the turn: a block is entered below the bound and refused at it,
and where it is left one more block is open than where it starts. -/
def IsDue : Turn → Prop
  | enter opening => opening.rest.depth < maxNesting
  | leave opening last _ =>
      opening.rest.depth < maxNesting ∧ last.depth = opening.rest.depth + 1
  | refuse opening => opening.rest.depth = maxNesting

end Turn

section

variable {inner : BlockReader} (hinner : inner.Proceeds) {opening : Opening} {reader : TokenReader}

theorem depth_endpointOpening (h : opening ∈ reader.endpointOpening?.toList) :
    opening.rest.depth = reader.depth := by
  rw [Option.mem_toList] at h
  unfold endpointOpening? at h
  split at h
  · obtain rfl := Option.some.inj h
    exact (Opening.moves_rest (.subgraph reader)).depth_eq
  split at h
  · obtain rfl := Option.some.inj h
    exact (Opening.moves_rest (.braces reader)).depth_eq
  · nomatch h

include hinner

theorem depth_hopsOpenings (h : opening ∈ reader.hopsOpenings inner) :
    opening.rest.depth = reader.depth := by
  fun_induction hopsOpenings inner reader with
  | case1 reader hop next ih =>
      rcases List.mem_append.mp h with hfirst | hmore
      · exact @depth_endpointOpening opening reader.advance hfirst
      · cases hnext : next.1 with
        | some endpoint =>
            rw [hnext] at hmore
            exact (ih hmore).trans (proceeds_endpoint hinner reader.advance).depth_eq
        | none =>
            rw [hnext] at hmore
            nomatch hmore
  | case2 => nomatch h

theorem depth_statementOpenings (h : opening ∈ reader.statementOpenings inner) :
    opening.rest.depth = reader.depth := by
  unfold statementOpenings at h
  split at h
  · rcases List.mem_cons.mp h with rfl | hmore
    · exact (Opening.moves_rest (.subgraph reader)).depth_eq
    · exact (depth_hopsOpenings hinner hmore).trans (proceeds_subgraph hinner reader).depth_eq
  split at h
  · exact (depth_hopsOpenings hinner h).trans ((moves_ident reader).trans (moves_port? _)).depth_eq
  · nomatch h

/-- The blocks in some statements start where as many blocks are open as in front of the
statements. -/
theorem depth_openings (h : opening ∈ reader.openings inner) :
    opening.rest.depth = reader.depth := by
  fun_induction openings inner reader with
  | case1 => nomatch h
  | case2 reader hends ih =>
      rcases List.mem_append.mp h with hfirst | hmore
      · exact depth_statementOpenings hinner hfirst
      · exact (ih hmore).trans ((proceeds_statement hinner reader).trans
          (moves_skipOver _ _).proceeds).depth_eq

theorem depth_body (opening : Opening) : (opening.body inner).2.depth = opening.rest.depth + 1 :=
  (opening.moves_inside.proceeds.trans (proceeds_statements hinner _ _)).depth_eq

end

/-- Blocks that start at a depth are left again if they are entered, and those in them start one
further down. -/
inductive Paired : Nat → List Turn → Prop
  | nil (depth : Nat) : Paired depth []
  | append {depth : Nat} {first second : List Turn} (hfirst : Paired depth first)
      (hsecond : Paired depth second) : Paired depth (first ++ second)
  | block {opening : Opening} {inside : List Turn} {last : TokenReader}
      (hopening : opening.rest.depth < maxNesting)
      (hinside : Paired (opening.rest.depth + 1) inside)
      (hlast : last.depth = opening.rest.depth + 1) (statements : List Statement) :
      Paired opening.rest.depth (.enter opening :: inside ++ [.leave opening last statements])
  | refuse {opening : Opening} (hopening : opening.rest.depth = maxNesting) :
      Paired opening.rest.depth [.refuse opening]

theorem Paired.flatMap {depth : Nat} {tell : Opening → List Turn} {openings : List Opening}
    (h : ∀ opening ∈ openings, Paired depth (tell opening)) :
    Paired depth (openings.flatMap tell) := by
  induction openings with
  | nil => exact .nil depth
  | cons opening openings ih =>
      exact .append (h opening List.mem_cons_self)
        (ih fun opening hmem => h opening (List.mem_cons_of_mem _ hmem))

theorem paired_turnsOf {levels : Nat} {opening : Opening}
    (h : opening.rest.depth + levels = maxNesting) :
    Paired opening.rest.depth (turnsOf levels opening) := by
  induction levels generalizing opening with
  | zero => exact .refuse h
  | succ levels ih =>
      have hopening : opening.rest.depth < maxNesting := by omega
      rw [turnsOf, if_pos hopening]
      have hlast := depth_body (proceeds_blockReader levels) opening
      refine .block hopening (Paired.flatMap ?_) hlast _
      intro inner hmem
      have hdepth : inner.rest.depth = opening.rest.depth + 1 :=
        (depth_openings (proceeds_blockReader levels) hmem).trans opening.moves_inside.depth_eq
      rw [← hdepth]
      exact ih (by omega)

theorem paired_turns {reader : TokenReader} (h : reader.depth = 0) : Paired 0 reader.turns := by
  have hnext : (if reader.kind = .strict then reader.advance else reader).depth = 0 := by
    split <;> exact h
  unfold turns
  generalize (if reader.kind = .strict then reader.advance else reader) = next at hnext ⊢
  simp only
  split
  · refine Paired.flatMap fun opening hmem => ?_
    have hdepth : opening.rest.depth = 0 :=
      (depth_openings (proceeds_blockReader maxNesting) hmem).trans
        ((moves_header next).depth_eq.trans hnext)
    rw [← hdepth]
    exact paired_turnsOf (by omega)
  · exact .nil 0

theorem append_cons_cases {α : Type} {front back first second : List α} {turn : α}
    (h : front ++ turn :: back = first ++ second) :
    (∃ more, first = front ++ turn :: more) ∨
      ∃ more, front = first ++ more ∧ second = more ++ turn :: back := by
  rcases List.append_eq_append_iff.mp h with ⟨more, hfirst, hmore⟩ | ⟨more, hfront, hsecond⟩
  · cases more with
    | nil => exact .inr ⟨[], by simpa using hfirst.symm, by simpa using hmore.symm⟩
    | cons head more =>
        obtain ⟨rfl, -⟩ := List.cons.inj hmore
        exact .inl ⟨more, hfirst⟩
  · exact .inr ⟨more, hfront, hsecond⟩

theorem eq_nil_of_append_cons {α : Type} {front back : List α} {turn only : α}
    (h : [only] = front ++ turn :: back) : front = [] ∧ turn = only := by
  cases front with
  | nil => exact ⟨rfl, (List.cons.inj h).1.symm⟩
  | cons head front => exact absurd (List.cons.inj h).2 (by simp)

namespace Paired

variable {depth : Nat} {turns : List Turn}

theorem countP_eq (h : Paired depth turns) :
    turns.countP Turn.isLeave = turns.countP Turn.isEnter := by
  induction h with
  | nil => rfl
  | append _ _ hfirst hsecond => rw [List.countP_append, List.countP_append, hfirst, hsecond]
  | block _ _ _ statements ih => simp [ih, List.countP_cons, Turn.isEnter, Turn.isLeave]
  | refuse _ => rfl

theorem isDue (h : Paired depth turns) : ∀ turn ∈ turns, turn.IsDue := by
  induction h with
  | nil => nofun
  | append _ _ hfirst hsecond => exact List.forall_mem_append.mpr ⟨hfirst, hsecond⟩
  | block hopening _ hlast statements ih =>
      refine List.forall_mem_append.mpr ⟨List.forall_mem_cons.mpr ⟨hopening, ih⟩, ?_⟩
      exact List.forall_mem_singleton.mpr ⟨hopening, hlast⟩
  | refuse hopening => exact List.forall_mem_singleton.mpr hopening

/-- In front of each turn the reader counts the blocks that have been entered and not left. -/
theorem countP_before (h : Paired depth turns) {front back : List Turn} {turn : Turn}
    (hturns : turns = front ++ turn :: back) :
    depth + front.countP Turn.isEnter = front.countP Turn.isLeave + turn.depth := by
  induction h generalizing front back with
  | nil => exact absurd hturns (by simp)
  | @append depth first second hfirst _ ihfirst ihsecond =>
      rcases append_cons_cases hturns.symm with ⟨more, hmore⟩ | ⟨more, rfl, hmore⟩
      · exact ihfirst hmore
      · have hcount := hfirst.countP_eq
        have hbalance := ihsecond hmore
        rw [List.countP_append, List.countP_append]
        omega
  | @block opening inside last hopening hinside hlast statements ih =>
      cases front with
      | nil =>
          obtain ⟨rfl, -⟩ := List.cons.inj hturns
          exact (Nat.zero_add _).symm
      | cons head front =>
          obtain ⟨rfl, htail⟩ := List.cons.inj hturns
          rw [List.countP_cons, List.countP_cons]
          change opening.rest.depth + (front.countP Turn.isEnter + 1) =
            front.countP Turn.isLeave + 0 + turn.depth
          rcases append_cons_cases htail.symm with ⟨more, hmore⟩ | ⟨more, rfl, hmore⟩
          · have hbalance := ih hmore
            omega
          · obtain ⟨rfl, rfl⟩ := eq_nil_of_append_cons hmore
            have hcount := hinside.countP_eq
            rw [List.append_nil, hcount, Turn.depth, hlast]
            omega
  | refuse hopening =>
      obtain ⟨rfl, rfl⟩ := eq_nil_of_append_cons hturns
      exact (Nat.zero_add _).symm

end Paired

end DotGraph.TokenReader

namespace DotGraph.Tree

def Statement.isNode : Statement → Bool
  | .node _ _ _ => true
  | .edge _ _ _ _ | .defaults _ _ _ | .assign _ _ _ | .subgraph _ => false

/-- A body ends here that stands inside `depth` others. -/
def Event.endsAt (depth : Nat) : Event → Bool
  | .close around _ => around.length = depth
  | .node _ _ | .assign _ _ _ => false

theorem countP_endsAt (events : List Event) (depth : Nat) :
    events.countP (Event.endsAt depth) =
      (events.filterMap Event.ended?).countP fun ended => ended.1 = depth := by
  rw [List.countP_filterMap]
  congr 1
  funext event
  cases event <;> rfl

end DotGraph.Tree

namespace DotGraph.TokenReader

open DotGraph.Tree

theorem isNode_before (opening : Opening) :
    ∀ statement ∈ opening.before.toList, statement.isNode := by
  intro statement hmem
  rw [Opening.before, Array.toList_map] at hmem
  obtain ⟨node, -, rfl⟩ := List.mem_map.mp hmem
  rfl

section

variable {turns : List Turn} (hdue : ∀ turn ∈ turns, turn.IsDue)
include hdue

theorem length_refused :
    (turns.filterMap Turn.refused?).length =
      (turns.filterMap Turn.ended?).countP fun ended => ended.1 = maxNesting := by
  rw [List.countP_filterMap, List.length_filterMap_eq_countP]
  refine List.countP_congr fun turn hmem => ?_
  have hturn := hdue turn hmem
  cases turn with
  | enter _ => simp [Turn.refused?, Turn.ended?]
  | leave opening _ _ => simpa [Turn.refused?, Turn.ended?] using Nat.ne_of_lt hturn.1
  | refuse opening =>
      have hdepth : opening.rest.depth = maxNesting := hturn
      simp [Turn.refused?, Turn.ended?, hdepth]

/-- A block that has been left is not at the bound, and of one that has been refused only node ids
are left. -/
theorem depth_ended {depth : Nat} {statements : List Statement}
    (h : (depth, statements) ∈ turns.filterMap Turn.ended?) :
    depth ≤ maxNesting ∧ (depth = maxNesting → ∀ statement ∈ statements, statement.isNode) := by
  obtain ⟨turn, hmem, hended⟩ := List.mem_filterMap.mp h
  have hturn := hdue turn hmem
  cases turn with
  | enter _ => exact nomatch hended
  | leave opening _ _ =>
      obtain ⟨rfl, rfl⟩ := Prod.mk.inj (Option.some.inj hended)
      exact ⟨Nat.le_of_lt hturn.1, fun heq => absurd heq (Nat.ne_of_lt hturn.1)⟩
  | refuse opening =>
      obtain ⟨rfl, rfl⟩ := Prod.mk.inj (Option.some.inj hended)
      exact ⟨Nat.le_of_eq hturn, fun _ => isNode_before opening⟩

end

end DotGraph.TokenReader

namespace DotGraph

open DotGraph.Tree DotGraph.TokenReader

/-- No body stands inside more than `maxNesting` others, and one that stands inside so many holds
nothing but nodes; there are as many of these as notes that a block is too deep.  The bodies are the
blocks that the reader leaves or refuses, and at each of its turns it counts the blocks that it has
entered and not left.  Whatever is read, at every step the reader counts the blocks that are open
around it, so that the levels that a block may use are those that the count leaves; and in the end
none is open. -/
theorem nesting_is_bounded (filename : String) (bytes : ByteArray) :
    (∀ around body, .close around body ∈ (parse filename bytes).document.events →
      around.length ≤ maxNesting ∧
        (around.length = maxNesting → ∀ statement ∈ body.statements, statement.isNode)) ∧
    (parse filename bytes).diagnostics.countP Diagnostic.isRefusal =
      (parse filename bytes).document.events.countP (Event.endsAt maxNesting) ∧
    (parse filename bytes).document.events.filterMap Event.ended? =
      (firstReader filename bytes).turns.filterMap Turn.ended? ∧
    (∀ front turn back, (firstReader filename bytes).turns = front ++ turn :: back →
      turn.IsDue ∧ front.countP Turn.isEnter = front.countP Turn.isLeave + turn.depth) ∧
    (∀ (part : Part) reader, (part.steps reader).foldl Step.behind reader = part.behind reader) ∧
    (∀ opened call front back,
      Call.LeadsInside ⟨.document, firstReader filename bytes⟩ opened call →
      call.steps = front ++ back →
      (front.foldl Step.behind call.reader).depth = opened + openedBy front ∧
        opened + openedBy front ≤ maxNesting) ∧
    (∀ opened levels brace before reader,
      Call.LeadsInside ⟨.document, firstReader filename bytes⟩ opened
        ⟨.restOfBlock levels brace before, reader⟩ →
      reader.depth + levels = maxNesting) ∧
    (firstReader filename bytes).document.2.depth = 0 := by
  have haccounts := accounts_parse filename bytes
  have hpaired := @paired_turns (firstReader filename bytes) rfl
  refine ⟨?bodies, ?refusals, haccounts.ended, ?turns, foldl_steps, ?counted, ?levels,
    haccounts.depth_eq⟩
  case bodies =>
    intro around body hclose
    have hended : (around.length, body.statements) ∈
        (firstReader filename bytes).turns.filterMap Turn.ended? :=
      haccounts.ended ▸ List.mem_filterMap.mpr ⟨_, hclose, rfl⟩
    exact depth_ended hpaired.isDue hended
  case refusals =>
    rw [List.countP_eq_length_filter, filter_isRefusal_parse, List.length_map,
      length_refused hpaired.isDue, countP_endsAt, haccounts.ended]
  case turns =>
    intro front turn back hturns
    have hbalance := hpaired.countP_before hturns
    exact ⟨hpaired.isDue turn (by simp [hturns]), by omega⟩
  case counted =>
    intro opened call front back hleads hsteps
    have hdepth : call.reader.depth = opened := hleads.depth_eq.trans (Nat.zero_add opened)
    exact ⟨by rw [Call.depth_front hsteps, hdepth], hleads.opened_front_le hsteps⟩
  case levels =>
    intro opened levels brace before reader hleads
    have hdepth : reader.depth = opened := hleads.depth_eq.trans (Nat.zero_add opened)
    have hlevels : maxNesting = opened + levels := Option.some.inj (hleads.levels?_eq rfl)
    rw [hdepth, ← hlevels]

end DotGraph
