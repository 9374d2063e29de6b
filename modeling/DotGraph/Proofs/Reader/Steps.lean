import DotGraph.Proofs.Reader.Progress
import Mathlib.Logic.Relation

namespace DotGraph.TokenReader

/-! What is done to read a part: tokens are pulled, faults are noted, blocks are gone into and out
of, and other parts are read, each where the steps before it lead to.  Nothing else is done, so that
whatever is noted is noted by a part that is read on the way. -/

open DotGraph.Tree

inductive Step where
  | pull
  | note (fault : Located ParseFault)
  | enter
  | leave
  | read (part : Part)

namespace Step

def behind (reader : TokenReader) : Step → TokenReader
  | pull => reader.advance
  | note fault => reader.reportAt fault.position fault.value
  | enter => reader.enter
  | leave => reader.leave
  | read part => part.behind reader

def note? : Step → Option (Located ParseFault)
  | note fault => some fault
  | pull | enter | leave | read _ => none

end Step

/-- The steps that read a part, in turn. -/
def Part.steps (reader : TokenReader) : Part → List Step
  | anyToken => [.pull]
  | token wanted =>
      if reader.kind = wanted then [.pull]
      else [.note ⟨reader.position, .expected wanted reader.kind⟩, .pull]
  | separator kinds => if reader.kind ∈ kinds then [.pull] else []
  | ident =>
      match flavour? reader.kind with
      | some _ => [.pull]
      | none => [.note ⟨reader.position, .expectedIdent reader.kind⟩, .pull]
  | ident? => if reader.kind.isId then [.read ident] else []
  | compass? => if reader.kind = .colon then [.pull, .read ident?] else []
  | port => [.read (token .colon), .read ident?, .read compass?]
  | port? => if reader.kind = .colon then [.read port] else []
  | nodeId => [.read ident, .read port?]
  | nodeIds before =>
      if reader.kind.isId then [.read nodeId, .read (nodeIds (before.push reader.nodeId.1))] else []
  | attributeValue _ =>
      if reader.kind = .equal then
        .pull ::
          if reader.advance.kind.isId then [.read ident]
          else [.note ⟨reader.advance.position, .missingAttributeValue⟩]
      else []
  | oneAttribute =>
      [.read ident, .read (attributeValue reader.ident.1), .read (separator [.semicolon, .comma])]
  | attributes before =>
      if reader.kind.isId then
        [.read oneAttribute, .read (attributes (before.push reader.oneAttribute.1))]
      else []
  | bracket before => [.pull, .read (attributes before), .read (token .rBracket)]
  | brackets before =>
      if reader.kind = .lBracket then
        [.read (bracket before), .read (brackets (reader.bracket before).1)]
      else []
  | attributeList? => if reader.kind = .lBracket then [.read (brackets #[])] else []
  | assignment _ =>
      .pull ::
        if reader.advance.kind.isId then [.read ident]
        else [.note ⟨reader.advance.position, .missingAssignedValue⟩]
  | defaultsStatement _ => [.pull, .read attributeList?]
  | subgraph levels =>
      if reader.kind = .subgraph then
        [.pull, .read ident?, .read (token .lBrace),
          .read (restOfBlock levels reader.advance.ident?.2.position #[])]
      else [.read (token .lBrace), .read (restOfBlock levels reader.position #[])]
  | groupOrSubgraph levels =>
      let nodes := (reader.expect .lBrace).2.nodeIds #[]
      .read (token .lBrace) :: .read (nodeIds #[]) ::
        if nodes.2.kind = .rBrace && !nodes.1.isEmpty then [.pull]
        else [.read (restOfBlock levels reader.position (nodes.1.map bareStatement))]
  | endpoint levels =>
      if reader.kind = .subgraph then [.read (subgraph levels)]
      else if reader.kind = .lBrace then [.read (groupOrSubgraph levels)]
      else if reader.kind.isId then [.read nodeId]
      else [.note ⟨reader.position, .missingEndpoint⟩]
  | hops levels before =>
      if reader.kind.isEdgeOp then
        .pull :: .read (endpoint levels) ::
          match (reader.advance.endpoint (blockReader levels)).1 with
          | some next =>
              [.read (hops levels (before.push ⟨next.position, reader.kind = .arrow, next⟩))]
          | none => []
      else []
  | edgeStatement levels _ => [.read (hops levels #[]), .read attributeList?]
  | identStatement levels =>
      let behind := reader.ident.2
      .read ident ::
        if behind.kind = .equal then [.read (assignment reader.ident.1)]
        else .read port? ::
          if behind.port?.2.kind.isEdgeOp then
            [.read (edgeStatement levels
              (.node ⟨reader.ident.1.position, reader.ident.1, behind.port?.1⟩))]
          else [.read attributeList?]
  | subgraphStatement levels =>
      let body := reader.subgraph (blockReader levels)
      .read (subgraph levels) ::
        if body.2.kind.isEdgeOp then [.read (edgeStatement levels (.subgraph body.1))] else []
  | statement levels =>
      match reader.kind with
      | .graph => [.read (defaultsStatement .graph)]
      | .node => [.read (defaultsStatement .node)]
      | .edge => [.read (defaultsStatement .edge)]
      | .subgraph | .lBrace => [.read (subgraphStatement levels)]
      | .ident | .quoted | .html => [.read (identStatement levels)]
      | got => [.note ⟨reader.position, .unexpectedToken got⟩, .pull]
  | statements levels before =>
      if reader.endsBlock then []
      else
        [.read (statement levels), .read (separator [.semicolon]),
          .read (statements levels
            (before ++ (reader.statement (blockReader levels)).1.toArray))]
  | block levels before =>
      .enter :: (if before.isEmpty then [] else [.read (separator [.semicolon])]) ++
        [.read (statements levels before), .leave, .read (token .rBrace)]
  | restOfBlock levels opened before =>
      match levels with
      | 0 => [.note ⟨opened, .nestingTooDeep⟩, .read (skippedBlock 0)]
      | levels + 1 =>
          if reader.depth < maxNesting then [.read (block levels before)]
          else [.note ⟨opened, .nestingTooDeep⟩, .read (skippedBlock 0)]
  | skippedBlock opened =>
      if reader.kind = .endOfInput then []
      else if reader.kind = .lBrace then [.pull, .read (skippedBlock (opened + 1))]
      else if reader.kind = .rBrace then
        match opened with
        | 0 => [.pull]
        | opened + 1 => [.pull, .read (skippedBlock opened)]
      else [.pull, .read (skippedBlock opened)]
  | document =>
      let header := if reader.kind = .strict then reader.advance else reader
      (if reader.kind = .strict then [.pull] else []) ++
        if header.kind = .graph || header.kind = .digraph then
          [.pull, .read ident?, .read (token .lBrace), .read (statements maxNesting #[]),
            .read (token .rBrace)]
        else [.note ⟨header.position, .missingHeader header.kind⟩]

/-- A part is read by its steps alone. -/
theorem foldl_steps (part : Part) (reader : TokenReader) :
    (part.steps reader).foldl Step.behind reader = part.behind reader := by
  cases part with
  | anyToken | port | nodeId | oneAttribute | bracket _ | defaultsStatement _
  | edgeStatement _ _ => rfl
  | token _ | separator _ | ident? | compass? | port? | attributeList? | assignment _ =>
      simp only [Part.steps, Part.behind, expect, skipOver, ident?, compass?, port?, attributeList?,
        assignment]
      split <;> rfl
  | ident =>
      simp only [Part.steps, Part.behind, ident]
      cases flavour? reader.kind <;> rfl
  | attributeValue key =>
      simp only [Part.steps, Part.behind, attributeValue]
      split
      · split <;> rfl
      · rfl
  | nodeIds before =>
      rw [Part.steps, Part.behind, nodeIds]
      split <;> rfl
  | attributes before =>
      rw [Part.steps, Part.behind, attributes]
      split <;> rfl
  | brackets before =>
      rw [Part.steps, Part.behind, brackets]
      split <;> rfl
  | subgraph levels =>
      simp only [Part.steps, Part.behind, subgraph]
      split <;> rfl
  | groupOrSubgraph levels =>
      simp only [Part.steps, Part.behind, groupOrSubgraph]
      split <;> rfl
  | endpoint levels =>
      simp only [Part.steps, Part.behind, endpoint]
      split
      · rfl
      split
      · rfl
      split <;> rfl
  | hops levels before =>
      rw [Part.steps, Part.behind, hops]
      split
      · simp only [List.foldl_cons, Step.behind, Part.behind]
        cases (reader.advance.endpoint (blockReader levels)).1 <;> rfl
      · rfl
  | identStatement levels =>
      simp only [Part.steps, Part.behind, identStatement]
      split
      · rfl
      split <;> rfl
  | subgraphStatement levels =>
      simp only [Part.steps, Part.behind, subgraphStatement]
      split <;> rfl
  | statement levels =>
      simp only [Part.steps, Part.behind, statement]
      cases reader.kind <;> rfl
  | statements levels before =>
      rw [Part.steps, Part.behind, statements]
      split <;> rfl
  | block levels before =>
      simp only [Part.steps, Part.behind, block]
      split <;> rfl
  | restOfBlock levels opened before =>
      cases levels with
      | zero => rfl
      | succ levels =>
          simp only [Part.steps, Part.behind, read_blockReader_succ]
          split <;> rfl
  | skippedBlock opened =>
      simp only [Part.steps, Part.behind]
      rw [skipBlock.eq_def]
      split
      · rfl
      split
      · rfl
      split
      · cases opened <;> rfl
      · rfl
  | document =>
      simp only [Part.steps, Part.behind, document]
      split
      · split <;> rfl
      · split <;> rfl

/-- A part where it is read. -/
structure Call where
  part : Part
  reader : TokenReader

/-- The parts that some steps read, each where the steps before it lead to. -/
def callsOf (reader : TokenReader) : List Step → List Call
  | [] => []
  | .read part :: steps => ⟨part, reader⟩ :: callsOf (part.behind reader) steps
  | .pull :: steps => callsOf reader.advance steps
  | .note fault :: steps => callsOf (reader.reportAt fault.position fault.value) steps
  | .enter :: steps => callsOf reader.enter steps
  | .leave :: steps => callsOf reader.leave steps

namespace Call

def behind (call : Call) : TokenReader :=
  call.part.behind call.reader

def steps (call : Call) : List Step :=
  call.part.steps call.reader

def calls (call : Call) : List Call :=
  callsOf call.reader call.steps

/-- What is noted to read the part itself, not one in it. -/
def notes (call : Call) : List (Located ParseFault) :=
  call.steps.filterMap Step.note?

/-- The one call is made in the course of the other. -/
def Leads : Call → Call → Prop :=
  Relation.ReflTransGen fun call next => next ∈ call.calls

end Call

variable {reader : TokenReader} {steps : List Step} {fault : Located ParseFault}

theorem size_le_of_mem_callsOf {call : Call} (h : call ∈ callsOf reader steps) :
    call.reader.size ≤ reader.size := by
  induction steps generalizing reader with
  | nil => nomatch h
  | cons step steps ih =>
      cases step with
      | pull => exact Nat.le_trans (ih h) (size_advance_le reader)
      | note fault =>
          have hle := @ih (reader.reportAt fault.position fault.value) h
          exact hle
      | enter =>
          have hle := @ih reader.enter h
          exact hle
      | leave =>
          have hle := @ih reader.leave h
          exact hle
      | read part =>
          rcases List.mem_cons.mp h with rfl | hmore
          · exact Nat.le_refl _
          · exact Nat.le_trans (ih hmore) (proceeds_part part reader).pulls.size_le

/-- What is new behind some steps has been noted by one of them, or behind a part that one of them
reads. -/
theorem exists_step_of_fault (h : fault ∈ (steps.foldl Step.behind reader).faults.toList) :
    fault ∈ reader.faults.toList ∨ fault ∈ steps.filterMap Step.note? ∨
      ∃ call ∈ callsOf reader steps,
        fault ∉ call.reader.faults.toList ∧ fault ∈ call.behind.faults.toList := by
  induction steps generalizing reader with
  | nil => exact .inl h
  | cons step steps ih =>
      have hmore := ih h
      cases step with
      | pull | enter | leave => exact hmore
      | note first =>
          rcases hmore with hbefore | hnote | hcall
          · rw [Step.behind, toList_faults_reportAt] at hbefore
            rcases List.mem_append.mp hbefore with hbefore | hfirst
            · exact .inl hbefore
            · rw [List.mem_singleton.mp hfirst]
              exact .inr (.inl List.mem_cons_self)
          · exact .inr (.inl (List.mem_cons_of_mem _ hnote))
          · exact .inr (.inr hcall)
      | read part =>
          rcases hmore with hbefore | hnote | ⟨call, hcall, hnew⟩
          · by_cases hold : fault ∈ reader.faults.toList
            · exact .inl hold
            · exact .inr (.inr ⟨⟨part, reader⟩, List.mem_cons_self, hold, hbefore⟩)
          · exact .inr (.inl hnote)
          · exact .inr (.inr ⟨call, List.mem_cons_of_mem _ hcall, hnew⟩)

/-- How far a part stands above the tokens: above all that it reads, unless that starts behind a
token. -/
def Part.height : Part → Nat
  | anyToken | token _ | separator _ | ident | skippedBlock _ => 0
  | ident? | attributeValue _ | assignment _ => 1
  | compass? | oneAttribute => 2
  | port | attributes _ => 3
  | port? | bracket _ => 4
  | nodeId | brackets _ => 5
  | nodeIds _ | attributeList? => 6
  | defaultsStatement _ => 7
  | restOfBlock levels _ _ => 10 * levels + 7
  | subgraph levels | groupOrSubgraph levels => 10 * levels + 8
  | endpoint levels => 10 * levels + 9
  | hops levels _ => 10 * levels + 10
  | edgeStatement levels _ => 10 * levels + 11
  | identStatement levels | subgraphStatement levels => 10 * levels + 12
  | statement levels => 10 * levels + 13
  | statements levels _ => 10 * levels + 14
  | block levels _ => 10 * levels + 15
  | document => 10 * maxNesting + 16


namespace Call

/-- Each part is lower than the one that it is read in, or starts behind a token of it. -/
theorem lower_or_behind (call : Call) : ∀ next ∈ call.calls,
    next.part.height < call.part.height ∨ next.reader.size < call.reader.size := by
  obtain ⟨part, reader⟩ := call
  unfold calls steps
  cases part with
  | anyToken | token _ | separator _ | ident | ident? | compass? | port | port? | nodeId
  | attributeValue _ | oneAttribute | bracket _ | attributeList? | assignment _
  | defaultsStatement _ | subgraph _ | groupOrSubgraph _ | endpoint _ | edgeStatement _ _
  | identStatement _ | subgraphStatement _ | statement _ | block _ _ | document =>
      simp only [Part.steps]
      repeat' split
      all_goals simp [callsOf, Part.height]
  | restOfBlock levels opened before =>
      cases levels with
      | zero => simp [Part.steps, callsOf, Part.height]
      | succ levels =>
          simp only [Part.steps]
          split
          · intro next hmem
            obtain rfl := List.mem_singleton.mp hmem
            exact .inl (by simp only [Part.height]; omega)
          · simp [callsOf, Part.height]
  -- a loop goes on behind the round that it has read
  | nodeIds before =>
      simp only [Part.steps]
      split
      · have hround := Loop.size_lt_of_round (.nodeId ‹_›)
        simpa [callsOf, Part.height, Part.behind] using hround
      · simp [callsOf]
  | attributes before =>
      simp only [Part.steps]
      split
      · have hround := Loop.size_lt_of_round (.entry ‹_›)
        simpa [callsOf, Part.height, Part.behind] using hround
      · simp [callsOf]
  | brackets before =>
      simp only [Part.steps]
      split
      · have hround := Loop.size_lt_of_round (.bracket before ‹_›)
        simpa [callsOf, Part.height, Part.behind] using hround
      · simp [callsOf]
  | hops levels before =>
      simp only [Part.steps]
      split
      · have hround := Loop.size_lt_of_round (.hop levels ‹_›)
        split
        · simpa [callsOf, Part.height, Part.behind] using hround
        · simp [callsOf, Part.height]
      · simp [callsOf]
  | statements levels before =>
      simp only [Part.steps]
      split
      · simp [callsOf]
      · have hround := Loop.size_lt_of_round (.statement levels (Bool.eq_false_iff.mpr ‹_›))
        simpa [callsOf, Part.height, Part.behind] using hround
  | skippedBlock opened =>
      simp only [Part.steps]
      split
      · simp [callsOf]
      · have hround := Loop.size_lt_of_round (.skip ‹_›)
        repeat' split
        all_goals simp [callsOf, hround]

/-- Whatever is new behind a part has been noted in a call that its own leads to. -/
theorem exists_note (call : Call) (h : fault ∈ call.behind.faults.toList) :
    fault ∈ call.reader.faults.toList ∨ ∃ last, call.Leads last ∧ fault ∈ last.notes := by
  rw [behind, ← foldl_steps] at h
  rcases exists_step_of_fault h with hbefore | hnote | ⟨next, hcall, hnew, hbehind⟩
  · exact .inl hbefore
  · exact .inr ⟨call, .refl, hnote⟩
  · rcases next.exists_note hbehind with hold | ⟨last, hleads, hnote⟩
    · exact absurd hold hnew
    · exact .inr ⟨last, .head hcall hleads, hnote⟩
termination_by (call.reader.size, call.part.height)
decreasing_by
  have hsize := size_le_of_mem_callsOf hcall
  have hlower := call.lower_or_behind next hcall
  rw [Prod.lex_def]
  omega

end Call

end DotGraph.TokenReader
