import DotGraph.Proofs.Reader.Steps

namespace DotGraph.TokenReader

/-! How many blocks are open while a part is read.  The reader counts them; told from outside, they
are those that the calls under way have gone into and not out of again. -/

open DotGraph.Tree

namespace Step

def enters : Step → Bool
  | enter => true
  | pull | note _ | leave | read _ => false

def leaves : Step → Bool
  | leave => true
  | pull | note _ | enter | read _ => false

/-- No block is gone into or out of, other than in a part that is read from end to end. -/
def isLevel (step : Step) : Bool :=
  !step.enters && !step.leaves

theorem isLevel_iff {step : Step} :
    step.isLevel ↔ step.enters = false ∧ step.leaves = false := by
  simp [isLevel]

theorem depth_behind {step : Step} (h : step.isLevel) (reader : TokenReader) :
    (step.behind reader).depth = reader.depth := by
  cases step with
  | pull | note _ => rfl
  | enter | leave => nomatch h
  | read part => exact (proceeds_part part reader).depth_eq

end Step

/-- The blocks that some steps go into and not out of again. -/
def openedBy (steps : List Step) : Nat :=
  steps.countP Step.enters - steps.countP Step.leaves

section

variable {steps : List Step} (hlevel : ∀ step ∈ steps, step.isLevel)
include hlevel

theorem depth_foldl_of_isLevel (reader : TokenReader) :
    (steps.foldl Step.behind reader).depth = reader.depth := by
  induction steps generalizing reader with
  | nil => rfl
  | cons step steps ih =>
      have hrest := ih (fun next h => hlevel next (List.mem_cons_of_mem _ h)) (step.behind reader)
      exact hrest.trans (Step.depth_behind (hlevel step List.mem_cons_self) reader)

theorem countP_enters_of_isLevel : steps.countP Step.enters = 0 :=
  List.countP_eq_zero.mpr fun step h => Bool.eq_false_iff.mp (Step.isLevel_iff.mp (hlevel step h)).1

theorem countP_leaves_of_isLevel : steps.countP Step.leaves = 0 :=
  List.countP_eq_zero.mpr fun step h => Bool.eq_false_iff.mp (Step.isLevel_iff.mp (hlevel step h)).2

theorem openedBy_of_isLevel : openedBy steps = 0 := by
  rw [openedBy, countP_enters_of_isLevel hlevel, Nat.zero_sub]

theorem openedBy_enter : openedBy (.enter :: steps) = 1 := by
  rw [openedBy, List.countP_cons, List.countP_cons, countP_enters_of_isLevel hlevel,
    countP_leaves_of_isLevel hlevel]
  rfl

theorem openedBy_around {more : List Step} (hmore : ∀ step ∈ more, step.isLevel) :
    openedBy (.enter :: steps ++ .leave :: more) = 0 := by
  rw [openedBy, List.countP_append, List.countP_append, List.countP_cons, List.countP_cons,
    List.countP_cons, List.countP_cons, countP_enters_of_isLevel hlevel,
    countP_leaves_of_isLevel hlevel, countP_enters_of_isLevel hmore, countP_leaves_of_isLevel hmore]
  rfl

end

theorem isLevel_steps {call : Call} (h : ∀ levels before, call.part ≠ .block levels before) :
    ∀ step ∈ call.steps, step.isLevel := by
  obtain ⟨part, reader⟩ := call
  unfold Call.steps
  cases part with
  | block levels before => exact absurd rfl (h levels before)
  | _ =>
      simp only [Part.steps]
      repeat' split
      all_goals simp [Step.isLevel, Step.enters, Step.leaves]

/-- The steps inside of a block. -/
def insideSteps (levels : Nat) (before : Array Statement) : List Step :=
  (if before.isEmpty then [] else [.read (.separator [.semicolon])]) ++
    [.read (.statements levels before)]

theorem isLevel_insideSteps (levels : Nat) (before : Array Statement) :
    ∀ step ∈ insideSteps levels before, step.isLevel := by
  unfold insideSteps
  split <;> simp [Step.isLevel, Step.enters, Step.leaves]

theorem steps_block (levels : Nat) (before : Array Statement) (reader : TokenReader) :
    (Part.block levels before).steps reader =
      .enter :: insideSteps levels before ++ [.leave, .read (.token .rBrace)] := by
  simp [Part.steps, insideSteps]

/-- How far the steps of a part have come.  Only a block is gone into, before all else, and it is
gone out of in front of its closing brace. -/
inductive Call.Front (call : Call) (front back : List Step) : Prop
  | level (hpart : ∀ levels before, call.part ≠ .block levels before)
      (hlevel : ∀ step ∈ front, step.isLevel)
  | outside (levels : Nat) (before : Array Statement) (hpart : call.part = .block levels before)
      (hfront : front = []) (hback : ∀ part more, back ≠ .read part :: more)
  | inside (levels : Nat) (before : Array Statement) (more : List Step)
      (hpart : call.part = .block levels before) (hfront : front = .enter :: more)
      (hlevel : ∀ step ∈ more, step.isLevel)
  | behind (levels : Nat) (before : Array Statement) (more : List Step)
      (hpart : call.part = .block levels before)
      (hfront : front = .enter :: insideSteps levels before ++ .leave :: more)
      (hlevel : ∀ step ∈ more, step.isLevel) (hback : ∀ step ∈ back, step = .read (.token .rBrace))

namespace Call

variable {call : Call} {front back : List Step}

theorem front_of_block {levels : Nat} {before : Array Statement}
    (hpart : call.part = .block levels before) (h : call.steps = front ++ back) :
    call.Front front back := by
  rw [steps, hpart, steps_block] at h
  cases front with
  | nil => exact .outside levels before hpart rfl fun part more hback => by simp_all
  | cons head front =>
      obtain ⟨rfl, htail⟩ := List.cons.inj h
      rcases List.append_eq_append_iff.mp htail with ⟨more, rfl, hmore⟩ | ⟨more, hinside, -⟩
      · cases more with
        | nil =>
            rw [List.append_nil]
            exact .inside levels before _ hpart rfl (isLevel_insideSteps levels before)
        | cons head more =>
            obtain ⟨rfl, hlast⟩ := List.cons.inj hmore
            have hread : ∀ step ∈ more ++ back, step = .read (.token .rBrace) := fun step hstep =>
              List.mem_singleton.mp (hlast ▸ hstep)
            exact .behind levels before more hpart rfl
              (fun step hstep => hread step (List.mem_append_left _ hstep) ▸ rfl)
              fun step hstep => hread step (List.mem_append_right _ hstep)
      · exact .inside levels before front hpart rfl fun step hstep =>
          isLevel_insideSteps levels before step (hinside ▸ List.mem_append_left _ hstep)

theorem front_of_steps (h : call.steps = front ++ back) : call.Front front back := by
  by_cases hblock : ∃ levels before, call.part = .block levels before
  · obtain ⟨levels, before, hpart⟩ := hblock
    exact front_of_block hpart h
  · have hpart : ∀ levels before, call.part ≠ .block levels before := fun levels before hpart =>
      hblock ⟨levels, before, hpart⟩
    exact .level hpart fun step hstep => isLevel_steps hpart step (h ▸ List.mem_append_left _ hstep)

/-- The reader counts along. -/
theorem depth_front (h : call.steps = front ++ back) :
    (front.foldl Step.behind call.reader).depth = call.reader.depth + openedBy front := by
  cases front_of_steps h with
  | level _ hlevel =>
      rw [depth_foldl_of_isLevel hlevel, openedBy_of_isLevel hlevel, Nat.add_zero]
  | outside _ _ _ hfront =>
      rw [hfront]
      rfl
  | inside _ _ more _ hfront hlevel =>
      rw [hfront, List.foldl_cons, depth_foldl_of_isLevel hlevel, openedBy_enter hlevel]
      rfl
  | behind levels before more _ hfront hlevel =>
      rw [hfront, List.foldl_append, List.foldl_cons, List.foldl_cons,
        depth_foldl_of_isLevel hlevel, openedBy_around (isLevel_insideSteps levels before) hlevel]
      exact congrArg (· - 1)
        (depth_foldl_of_isLevel (isLevel_insideSteps levels before) call.reader.enter)

end Call

/-- How many more blocks may be open, as far as a part knows that may go into any. -/
def Part.levels? : Part → Option Nat
  | subgraph levels | groupOrSubgraph levels | endpoint levels | hops levels _
  | edgeStatement levels _ | identStatement levels | subgraphStatement levels | statement levels
  | statements levels _ | restOfBlock levels _ _ => some levels
  | block levels _ => some (levels + 1)
  | document => some maxNesting
  | anyToken | token _ | separator _ | ident | ident? | compass? | port | port? | nodeId | nodeIds _
  | attributeValue _ | oneAttribute | attributes _ | bracket _ | brackets _ | attributeList?
  | assignment _ | defaultsStatement _ | skippedBlock _ => none

/-- What it tells the parts in it: a block takes a level. -/
def Part.inside? : Part → Option Nat
  | block levels _ => some levels
  | part => part.levels?

theorem Part.inside?_of_not_block {part : Part} (h : ∀ levels before, part ≠ .block levels before) :
    part.inside? = part.levels? := by
  cases part with
  | block levels before => exact absurd rfl (h levels before)
  | _ => rfl

def Step.levels? : Step → Option Nat
  | read part => part.levels?
  | pull | note _ | enter | leave => none

/-- The one call is made in the course of the other, inside of so many blocks that are gone into on
the way. -/
inductive Call.LeadsInside : Call → Nat → Call → Prop
  | refl (call : Call) : LeadsInside call 0 call
  | head {call last : Call} {front back : List Step} {part : Part} {opened : Nat}
      (hsteps : call.steps = front ++ .read part :: back)
      (hlast : LeadsInside ⟨part, front.foldl Step.behind call.reader⟩ opened last) :
      LeadsInside call (openedBy front + opened) last

namespace Call

variable {call last : Call} {front back : List Step} {part : Part} {levels opened : Nat}

/-- What a part knows of the levels it tells the parts in it. -/
theorem levels?_of_mem_steps (call : Call) :
    ∀ step ∈ call.steps, step.levels? = none ∨ step.levels? = call.part.inside? := by
  obtain ⟨part, reader⟩ := call
  unfold steps
  cases part with
  | restOfBlock levels opened before =>
      cases levels with
      | zero => simp [Part.steps, Step.levels?, Part.levels?, Part.inside?]
      | succ levels =>
          simp only [Part.steps]
          split <;> simp [Step.levels?, Part.levels?, Part.inside?]
  | _ =>
      simp only [Part.steps]
      repeat' split
      all_goals simp [Step.levels?, Part.levels?, Part.inside?]

theorem levels?_of_read (h : call.steps = front ++ .read part :: back)
    (hlevels : part.levels? = some levels) :
    call.part.levels? = some (openedBy front + levels) := by
  have htold : call.part.inside? = some levels := by
    have hread := call.levels?_of_mem_steps _ (h ▸ List.mem_append_right front List.mem_cons_self)
    simpa [Step.levels?, hlevels, eq_comm] using hread
  cases front_of_steps h with
  | level hpart hlevel =>
      rw [openedBy_of_isLevel hlevel, Nat.zero_add, ← htold, Part.inside?_of_not_block hpart]
  | outside _ _ _ _ hback => exact absurd rfl (hback part back)
  | inside outer before _ hpart hfront hlevel =>
      rw [hpart] at htold ⊢
      obtain rfl : outer = levels := Option.some.inj htold
      rw [hfront, openedBy_enter hlevel, Nat.add_comm]
      rfl
  | behind _ _ _ _ _ _ hback =>
      obtain rfl := Step.read.inj (hback _ List.mem_cons_self)
      nomatch hlevels

theorem openedBy_front_le (h : call.steps = front ++ back) :
    openedBy front ≤ call.part.levels?.getD 0 := by
  cases front_of_steps h with
  | level _ hlevel =>
      rw [openedBy_of_isLevel hlevel]
      exact Nat.zero_le _
  | outside _ _ _ hfront =>
      rw [hfront]
      exact Nat.zero_le _
  | inside outer _ _ hpart hfront hlevel =>
      rw [hfront, openedBy_enter hlevel, hpart]
      exact Nat.succ_le_succ (Nat.zero_le outer)
  | behind levels before _ _ hfront hlevel =>
      rw [hfront, openedBy_around (isLevel_insideSteps levels before) hlevel]
      exact Nat.zero_le _

namespace LeadsInside

variable (h : call.LeadsInside opened last)
include h

/-- The reader counts the blocks that are gone into, whatever has been gone into and out of
before. -/
theorem depth_eq : last.reader.depth = call.reader.depth + opened := by
  induction h with
  | refl _ => rfl
  | head hsteps _ ih => rw [ih, depth_front hsteps, Nat.add_assoc]

/-- Each block takes a level. -/
theorem levels?_eq (hlevels : last.part.levels? = some levels) :
    call.part.levels? = some (opened + levels) := by
  induction h with
  | refl _ => rw [hlevels, Nat.zero_add]
  | head hsteps _ ih => rw [levels?_of_read hsteps (ih hlevels), Nat.add_assoc]

theorem opened_le : opened ≤ call.part.levels?.getD 0 := by
  induction h with
  | refl _ => exact Nat.zero_le _
  | @head call _ front _ part _ hsteps _ ih =>
      cases hpart : part.levels? with
      | none =>
          have hfront := openedBy_front_le hsteps
          rw [hpart, Option.getD_none] at ih
          omega
      | some levels =>
          rw [hpart, Option.getD_some] at ih
          rw [levels?_of_read hsteps hpart, Option.getD_some]
          omega

theorem opened_front_le (hsteps : last.steps = front ++ back) :
    opened + openedBy front ≤ call.part.levels?.getD 0 := by
  have hfront := openedBy_front_le hsteps
  cases hpart : last.part.levels? with
  | none =>
      have hopened := h.opened_le
      rw [hpart, Option.getD_none] at hfront
      omega
  | some levels =>
      rw [hpart, Option.getD_some] at hfront
      rw [h.levels?_eq hpart, Option.getD_some]
      omega

end LeadsInside

end Call

end DotGraph.TokenReader
