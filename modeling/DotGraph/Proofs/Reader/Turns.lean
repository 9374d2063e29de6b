import DotGraph.Proofs.Reader.Proceeds
import DotGraph.Proofs.Reader.Refusals
import DotGraph.Proofs.Tree.Events

namespace DotGraph.TokenReader

/-! The blocks that a reader comes to, in the order of its run.  Each is entered and left again, or
it is refused because too many blocks are open around it. -/

open DotGraph.Tree

/-- A place where a block starts: at a subgraph with or without its keyword, or at braces behind an
edge operator, which may start with node ids that are read before it is known what they hold. -/
inductive Opening where
  | subgraph (reader : TokenReader)
  | braces (reader : TokenReader)

namespace Opening

def reader : Opening → TokenReader
  | subgraph reader | braces reader => reader

/-- The reader in front of the brace. -/
def brace : Opening → TokenReader
  | subgraph reader =>
      (if reader.kind = .subgraph then reader.advance.ident? else (none, reader)).2
  | braces reader => reader

/-- The node ids that have been read of the block already, and the reader behind them. -/
def start : Opening → Array NodeId × TokenReader
  | subgraph reader => (#[], ((subgraph reader).brace.expect .lBrace).2)
  | braces reader => (reader.expect .lBrace).2.nodeIds #[]

def nodes (opening : Opening) : Array NodeId :=
  opening.start.1

/-- The reader in front of what is left of the block. -/
def rest (opening : Opening) : TokenReader :=
  opening.start.2

/-- Braces around nothing but node ids are no block. -/
def isGroup (opening : Opening) : Bool :=
  opening.rest.kind = .rBrace && !opening.nodes.isEmpty

def before (opening : Opening) : Array Statement :=
  opening.nodes.map bareStatement

def read (inner : BlockReader) (opening : Opening) : List Statement × TokenReader :=
  inner.read opening.brace.position opening.before opening.rest

/-- The reader in front of what is left of the statements, once the block is entered. -/
def inside (opening : Opening) : TokenReader :=
  if opening.before.isEmpty then opening.rest.enter else opening.rest.enter.skipOver [.semicolon]

/-- The statements of a block that is entered, and the reader behind them, which is still in it. -/
def body (inner : BlockReader) (opening : Opening) : Array Statement × TokenReader :=
  opening.inside.statements inner opening.before

theorem before_subgraph (reader : TokenReader) : (subgraph reader).before = #[] :=
  Array.map_empty

theorem moves_brace (opening : Opening) : opening.reader.Moves opening.brace := by
  match opening with
  | subgraph reader => exact moves_subgraphName reader
  | braces reader => exact Moves.refl

theorem moves_inside (opening : Opening) : opening.rest.enter.Moves opening.inside :=
  moves_separator opening.before opening.rest.enter

theorem block_rest (inner : BlockReader) (opening : Opening) :
    opening.rest.block inner opening.before =
      ((opening.body inner).1.toList, ((opening.body inner).2.leave.expect .rBrace).2) := rfl

theorem moves_rest (opening : Opening) : opening.reader.Moves opening.rest := by
  refine opening.moves_brace.trans ?_
  match opening with
  | subgraph reader => exact moves_expect _ _
  | braces reader => exact (moves_expect _ _).trans (moves_nodeIds _ _)

end Opening

section

variable (inner : BlockReader)

theorem subgraph_eq (reader : TokenReader) :
    reader.subgraph inner =
      (⟨reader.position,
        (if reader.kind = .subgraph then reader.advance.ident? else (none, reader)).1,
        ((Opening.subgraph reader).read inner).1⟩, ((Opening.subgraph reader).read inner).2) := by
  rw [Opening.read, Opening.before_subgraph]
  rfl

theorem groupOrSubgraph_eq (reader : TokenReader) :
    reader.groupOrSubgraph inner =
      if (Opening.braces reader).isGroup then
        (.group reader.position (Opening.braces reader).nodes.toList,
          (Opening.braces reader).rest.advance)
      else
        (.subgraph ⟨reader.position, none, ((Opening.braces reader).read inner).1⟩,
          ((Opening.braces reader).read inner).2) := rfl

/-- The block that an endpoint is, if it is one. -/
def endpointOpening? (reader : TokenReader) : Option Opening :=
  if reader.kind = .subgraph then some (.subgraph reader)
  else if reader.kind = .lBrace ∧ ¬ (Opening.braces reader).isGroup then some (.braces reader)
  else none

/-- The blocks that are endpoints of an edge, from an edge operator on. -/
def hopsOpenings (reader : TokenReader) : List Opening :=
  if _h : reader.kind.isEdgeOp then
    let next := reader.advance.endpoint inner
    reader.advance.endpointOpening?.toList ++
      match next.1 with
      | some _ => hopsOpenings next.2
      | none => []
  else []
termination_by reader.size
decreasing_by
  exact Nat.lt_of_le_of_lt (size_endpoint_le inner _)
    (size_advance_lt (Token.Kind.ne_endOfInput_of_isEdgeOp _h))

def statementOpenings (reader : TokenReader) : List Opening :=
  if reader.kind = .subgraph ∨ reader.kind = .lBrace then
    .subgraph reader :: (reader.subgraph inner).2.hopsOpenings inner
  else if reader.kind.isId ∧ reader.ident.2.kind ≠ .equal then
    reader.ident.2.port?.2.hopsOpenings inner
  else []

/-- The blocks in some statements, but not those in other blocks. -/
def openings (reader : TokenReader) : List Opening :=
  if _h : reader.endsBlock then []
  else
    reader.statementOpenings inner ++
      openings ((reader.statement inner).2.skipOver [.semicolon])
termination_by reader.size
decreasing_by
  exact Nat.lt_of_le_of_lt (size_skipOver_le _ _)
    (size_statement_lt inner (by rintro h; simp [endsBlock, h] at _h))

end

/-- What becomes of a block: it is entered, and left by the reader behind its statements, or it is
refused. -/
inductive Turn where
  | enter (opening : Opening)
  | leave (opening : Opening) (last : TokenReader) (statements : List Statement)
  | refuse (opening : Opening)

namespace Turn

/-- The blocks that are open where the turn is taken, as the reader counts them. -/
def depth : Turn → Nat
  | enter opening | refuse opening => opening.rest.depth
  | leave _ last _ => last.depth

/-- A block that has been read, or refused, with the depth that it stands at and the statements that
are left of it. -/
def ended? : Turn → Option (Nat × List Statement)
  | enter _ => none
  | leave opening _ statements => some (opening.rest.depth, statements)
  | refuse opening => some (opening.rest.depth, opening.before.toList)

def refused? : Turn → Option Opening
  | refuse opening => some opening
  | enter _ | leave _ _ _ => none

end Turn

/-- What becomes of a block, and of those in it, that a reader for some levels comes to. -/
def turnsOf : (levels : Nat) → Opening → List Turn
  | 0, opening => [.refuse opening]
  | levels + 1, opening =>
      if opening.rest.depth < maxNesting then
        .enter opening ::
          (opening.inside.openings (blockReader levels)).flatMap (turnsOf levels) ++
          [.leave opening (opening.body (blockReader levels)).2
            (opening.body (blockReader levels)).1.toList]
      else [.refuse opening]

/-- What becomes of all blocks of a description. -/
def turns (reader : TokenReader) : List Turn :=
  let reader := if reader.kind = .strict then reader.advance else reader
  if reader.kind = .graph || reader.kind = .digraph then
    ((reader.advance.ident?.2.expect .lBrace).2.openings (blockReader maxNesting)).flatMap
      (turnsOf maxNesting)
  else []

end DotGraph.TokenReader

namespace DotGraph.Tree

/-- The body that ends here, with the number of bodies around it. -/
def Event.ended? : Event → Option (Nat × List Statement)
  | .close around body => some (around.length, body.statements)
  | .node _ _ | .assign _ _ _ => none

end DotGraph.Tree

namespace DotGraph.TokenReader

open DotGraph.Tree

/-- Between two readers, outside of which as many blocks are open, those blocks have been refused
that the turns refuse, and the bodies in the events are those that end in the turns. -/
structure Accounts (source target : TokenReader) (events : List Event) (turns : List Turn) :
    Prop where
  refusals : target.refusals =
    source.refusals ++ (turns.filterMap Turn.refused?).map fun opening => opening.brace.position
  ended : events.filterMap Event.ended? = turns.filterMap Turn.ended?
  depth_eq : target.depth = source.depth

namespace Accounts

variable {first second third : TokenReader} {front back events : List Event}
  {before after turns : List Turn}

theorem append (h : first.Accounts second front before) (k : second.Accounts third back after) :
    first.Accounts third (front ++ back) (before ++ after) where
  refusals := by
    rw [k.refusals, h.refusals, List.filterMap_append, List.map_append, List.append_assoc]
  ended := by rw [List.filterMap_append, List.filterMap_append, h.ended, k.ended]
  depth_eq := k.depth_eq.trans h.depth_eq

theorem of_moves (h : first.Moves second) (hevents : events.filterMap Event.ended? = []) :
    first.Accounts second events [] where
  refusals := by rw [h.refusals_eq]; exact (List.append_nil _).symm
  ended := hevents
  depth_eq := h.depth_eq

theorem moves_trans (h : first.Moves second) (k : second.Accounts third events turns) :
    first.Accounts third events turns where
  refusals := by rw [k.refusals, h.refusals_eq]
  ended := k.ended
  depth_eq := k.depth_eq.trans h.depth_eq

theorem trans_moves (h : first.Accounts second events turns) (k : second.Moves third) :
    first.Accounts third events turns where
  refusals := by rw [k.refusals_eq, h.refusals]
  ended := h.ended
  depth_eq := k.depth_eq.trans h.depth_eq

/-- What has been read of a block before it was entered ends no body. -/
theorem enclose {opening : Opening} {last : TokenReader}
    (h : opening.rest.enter.Accounts last events turns)
    (hfront : front.filterMap Event.ended? = []) {around : List Subgraph}
    (haround : opening.rest.depth = around.length) (body : Subgraph) :
    opening.rest.Accounts last.leave (front ++ events ++ [.close around body])
      (.enter opening :: turns ++ [.leave opening last body.statements]) where
  refusals := by
    rw [refusals_leave, h.refusals, refusals_enter]
    simp [Turn.refused?, List.filterMap_cons]
  ended := by simp [h.ended, hfront, haround, Event.ended?, Turn.ended?, List.filterMap_cons]
  depth_eq := congrArg (· - 1) h.depth_eq

end Accounts

/-- How the blocks are told of that a reader of blocks reads, each in as many bodies as the reader
counts. -/
def BlockReader.AccountedBy (inner : BlockReader) (tell : Opening → List Turn) : Prop :=
  ∀ (opening : Opening) (around : List Subgraph) (body : Subgraph),
    opening.rest.depth = around.length → body.statements = (opening.read inner).1 →
    Accounts opening.rest (opening.read inner).2 (body.events around) (tell opening)

theorem ended_group (around : List Subgraph) (position : Position) (nodes : List NodeId) :
    ((Endpoint.group position nodes).events around).filterMap Event.ended? = [] := by
  simp [Endpoint.events, Event.ended?, Function.comp_def]

theorem eventsOfAll_append (around : List Subgraph) (front back : List Statement) :
    eventsOfAll around (front ++ back) = eventsOfAll around front ++ eventsOfAll around back := by
  induction front with
  | nil => rw [eventsOfAll]; rfl
  | cons statement front ih =>
      rw [List.cons_append, eventsOfAll, eventsOfAll, ih, List.append_assoc]

theorem ended_before (around : List Subgraph) (opening : Opening) :
    (eventsOfAll around opening.before.toList).filterMap Event.ended? = [] := by
  rw [Opening.before, Array.toList_map]
  induction opening.nodes.toList with
  | nil => rw [List.map_nil, eventsOfAll]; rfl
  | cons node nodes ih =>
      rw [List.map_cons, bareStatement, eventsOfAll, Statement.events, List.filterMap_append]
      exact ih

section

variable {inner : BlockReader} {tell : Opening → List Turn} (hinner : inner.AccountedBy tell)
  {around : List Subgraph} {reader : TokenReader}
include hinner

theorem accounts_subgraph (haround : reader.depth = around.length) :
    Accounts reader (reader.subgraph inner).2 ((reader.subgraph inner).1.events around)
      (tell (.subgraph reader)) := by
  rw [subgraph_eq]
  have hmoves := Opening.moves_rest (.subgraph reader)
  exact .moves_trans hmoves (hinner _ _ _ (hmoves.depth_eq.trans haround) rfl)

theorem accounts_endpoint (haround : reader.depth = around.length) :
    Accounts reader (reader.endpoint inner).2
      ((reader.endpoint inner).1.toList.flatMap (Endpoint.events around))
      (reader.endpointOpening?.toList.flatMap tell) := by
  unfold endpoint endpointOpening?
  by_cases hsubgraph : reader.kind = .subgraph
  · simp only [hsubgraph, if_true, Option.toList_some, List.flatMap_singleton, Endpoint.events]
    exact accounts_subgraph hinner haround
  by_cases hbrace : reader.kind = .lBrace
  · rw [if_neg hsubgraph, if_neg hsubgraph, if_pos hbrace, groupOrSubgraph_eq]
    by_cases hgroup : (Opening.braces reader).isGroup
    · rw [if_pos hgroup, if_neg fun h => h.2 hgroup]
      simp only [Option.toList_some, List.flatMap_singleton]
      exact .of_moves (Opening.moves_rest (.braces reader)).advance (ended_group _ _ _)
    · rw [if_neg hgroup, if_pos ⟨hbrace, hgroup⟩]
      simp only [Option.toList_some, List.flatMap_singleton, Endpoint.events]
      have hmoves := Opening.moves_rest (.braces reader)
      exact .moves_trans hmoves (hinner _ _ _ (hmoves.depth_eq.trans haround) rfl)
  · have hnone : ¬ (reader.kind = .lBrace ∧ ¬ (Opening.braces reader).isGroup) :=
      fun h => hbrace h.1
    rw [if_neg hsubgraph, if_neg hsubgraph, if_neg hbrace, if_neg hnone]
    split
    · refine .of_moves (moves_nodeId reader) ?_
      simp [Endpoint.events, Event.ended?]
    · exact .of_moves (Moves.refl.report nofun) rfl

theorem accounts_hops (before : Array Hop) (haround : reader.depth = around.length) :
    ∃ hops, (reader.hops inner before).1.toList = before.toList ++ hops ∧
      Accounts reader (reader.hops inner before).2 (eventsOfHops around hops)
        ((reader.hopsOpenings inner).flatMap tell) := by
  fun_induction hops inner before reader with
  | case1 before reader hop next endpoint hnext ih =>
      have hendpoint := @accounts_endpoint inner tell hinner around reader.advance haround
      obtain ⟨hops, hhops, haccounts⟩ := ih (hendpoint.depth_eq.trans haround)
      refine ⟨_ :: hops, by rw [hhops, Array.toList_push, List.append_assoc]; rfl, ?_⟩
      rw [hopsOpenings, dif_pos hop, List.flatMap_append, eventsOfHops]
      simp only [next] at hnext haccounts ⊢
      simp only [hnext, Option.toList_some, List.flatMap_singleton] at hendpoint ⊢
      exact (Accounts.moves_trans Moves.refl.advance hendpoint).append haccounts
  | case2 before reader hop next hnext =>
      refine ⟨[], (List.append_nil _).symm, ?_⟩
      have hendpoint := @accounts_endpoint inner tell hinner around reader.advance haround
      rw [hopsOpenings, dif_pos hop, eventsOfHops]
      simp only [next] at hnext ⊢
      simp only [hnext, Option.toList_none, List.flatMap_nil, List.append_nil] at hendpoint ⊢
      exact Accounts.moves_trans Moves.refl.advance hendpoint
  | case3 before reader hop =>
      refine ⟨[], (List.append_nil _).symm, ?_⟩
      rw [hopsOpenings, dif_neg hop, eventsOfHops]
      exact .of_moves .refl rfl

theorem accounts_edgeStatement {first : TokenReader} (haround : first.depth = around.length)
    (left : Endpoint) {turns : List Turn}
    (hleft : Accounts first reader (left.events around) turns) :
    Accounts first (reader.edgeStatement inner left).2
      ((reader.edgeStatement inner left).1.events around)
      (turns ++ (reader.hopsOpenings inner).flatMap tell) := by
  obtain ⟨hops, hhops, haccounts⟩ := accounts_hops hinner #[] (hleft.depth_eq.trans haround)
  have hevents : (reader.edgeStatement inner left).1.events around =
      left.events around ++ eventsOfHops around hops := by
    change Statement.events around (.edge _ _ (reader.hops inner #[]).1.toList _) = _
    rw [Statement.events, hhops]
    rfl
  rw [hevents]
  exact (hleft.append haccounts).trans_moves (moves_attributeList? _)

theorem accounts_identStatement (haround : reader.depth = around.length)
    (hid : reader.kind.isId) :
    Accounts reader (reader.identStatement inner).2
      ((reader.identStatement inner).1.toList.flatMap (Statement.events around))
      ((reader.statementOpenings inner).flatMap tell) := by
  have hkind : ¬ (reader.kind = .subgraph ∨ reader.kind = .lBrace) := by
    rintro (h | h) <;> exact absurd (h ▸ hid) (by decide)
  rw [statementOpenings, if_neg hkind]
  unfold identStatement
  simp only
  by_cases hequal : reader.ident.2.kind = .equal
  · rw [if_pos hequal, if_neg fun h => h.2 hequal]
    refine .of_moves ((moves_ident reader).trans (moves_assignment _ _)) ?_
    unfold assignment
    simp only
    split <;> simp [Statement.events, Event.ended?]
  have hedge : reader.kind.isId ∧ reader.ident.2.kind ≠ .equal := ⟨hid, hequal⟩
  rw [if_neg hequal, if_pos hedge]
  have hnode : Accounts reader reader.ident.2.port?.2 (Endpoint.events around
      (.node ⟨reader.ident.1.position, reader.ident.1, reader.ident.2.port?.1⟩)) [] :=
    .of_moves ((moves_ident reader).trans (moves_port? _)) (by simp [Endpoint.events, Event.ended?])
  split
  · simp only [Option.toList_some, List.flatMap_singleton]
    exact accounts_edgeStatement hinner haround _ hnode
  · rename_i hop
    rw [hopsOpenings, dif_neg hop]
    refine .of_moves (((moves_ident reader).trans (moves_port? _)).trans (moves_attributeList? _)) ?_
    simp [Statement.events, Event.ended?]

theorem accounts_subgraphStatement (haround : reader.depth = around.length) :
    Accounts reader (reader.subgraphStatement inner).2
      ((reader.subgraphStatement inner).1.events around)
      (tell (.subgraph reader) ++ ((reader.subgraph inner).2.hopsOpenings inner).flatMap tell) := by
  have hsubgraph := accounts_subgraph hinner haround
  unfold subgraphStatement
  simp only
  split
  · exact accounts_edgeStatement hinner haround (.subgraph _) hsubgraph
  · rename_i hop
    rw [hopsOpenings, dif_neg hop, List.flatMap_nil, List.append_nil]
    exact hsubgraph

theorem accounts_statement (haround : reader.depth = around.length) :
    Accounts reader (reader.statement inner).2
      ((reader.statement inner).1.toList.flatMap (Statement.events around))
      ((reader.statementOpenings inner).flatMap tell) := by
  by_cases hsubgraph : reader.kind = .subgraph ∨ reader.kind = .lBrace
  · have hstatement : reader.statement inner = (reader.subgraphStatement inner).map some id := by
      rcases hsubgraph with h | h <;> simp only [statement, h]
    rw [statementOpenings, if_pos hsubgraph, hstatement, List.flatMap_cons]
    simp only [Prod.map_fst, Prod.map_snd, id_eq, Option.toList_some, List.flatMap_singleton]
    exact accounts_subgraphStatement hinner haround
  by_cases hid : reader.kind.isId
  · rw [statement_of_isId hid]
    exact accounts_identStatement hinner haround hid
  rw [statementOpenings, if_neg hsubgraph, if_neg fun h => hid h.1]
  have hdefaults (subject : Subject) :
      Accounts reader (reader.defaultsStatement subject).2
        ((some (reader.defaultsStatement subject).1).toList.flatMap (Statement.events around)) [] :=
    .of_moves (moves_defaultsStatement subject reader)
      (by simp [defaultsStatement, Statement.events])
  unfold statement
  split
  · exact hdefaults .graph
  · exact hdefaults .node
  · exact hdefaults .edge
  · rename_i h; exact absurd (.inl h) hsubgraph
  · rename_i h; exact absurd (.inr h) hsubgraph
  · rename_i h; exact absurd (h ▸ rfl) hid
  · rename_i h; exact absurd (h ▸ rfl) hid
  · rename_i h; exact absurd (h ▸ rfl) hid
  · have hfault : ParseFault.unexpectedToken reader.kind ≠ .nestingTooDeep := nofun
    exact .of_moves (Moves.refl.report hfault).advance rfl

theorem accounts_statements (before : Array Statement) (haround : reader.depth = around.length) :
    ∃ statements, (reader.statements inner before).1.toList = before.toList ++ statements ∧
      Accounts reader (reader.statements inner before).2 (eventsOfAll around statements)
        ((reader.openings inner).flatMap tell) := by
  fun_induction statements inner before reader with
  | case1 before reader hends =>
      refine ⟨[], (List.append_nil _).symm, ?_⟩
      rw [openings, dif_pos hends, eventsOfAll]
      exact .of_moves .refl rfl
  | case2 before reader hends next ih =>
      have hfirst :=
        (accounts_statement hinner haround).trans_moves (moves_skipOver _ [.semicolon])
      obtain ⟨statements, hstatements, haccounts⟩ := ih (hfirst.depth_eq.trans haround)
      have hevents (statement : Option Statement) :
          eventsOfAll around statement.toList =
            statement.toList.flatMap (Statement.events around) := by
        cases statement with
        | none => rw [Option.toList_none, eventsOfAll]; rfl
        | some statement =>
            rw [Option.toList_some, eventsOfAll, eventsOfAll, List.flatMap_singleton,
              List.append_nil]
      refine ⟨next.1.toList ++ statements, by simp [hstatements], ?_⟩
      rw [openings, dif_neg hends, List.flatMap_append, eventsOfAll_append, hevents]
      exact hfirst.append haccounts

theorem accounts_body {opening : Opening} (haround : opening.rest.depth + 1 = around.length) :
    ∃ statements, (opening.body inner).1.toList = opening.before.toList ++ statements ∧
      Accounts opening.rest.enter (opening.body inner).2 (eventsOfAll around statements)
        ((opening.inside.openings inner).flatMap tell) := by
  have hmoves := opening.moves_inside
  obtain ⟨statements, hstatements, haccounts⟩ :=
    accounts_statements hinner opening.before (hmoves.depth_eq.trans haround)
  exact ⟨statements, hstatements, haccounts.moves_trans hmoves⟩

end

theorem accounts_tooDeep {opening : Opening} {around : List Subgraph} {body : Subgraph}
    (haround : opening.rest.depth = around.length)
    (hbody : body.statements = opening.before.toList) :
    Accounts opening.rest
      (opening.rest.tooDeep opening.brace.position opening.before).2 (body.events around)
      [.refuse opening] where
  refusals := by
    change ((opening.rest.reportAt _ .nestingTooDeep).skipBlock 0).refusals = _
    rw [(moves_skipBlock 0 _).refusals_eq, refusals_reportAt, if_pos rfl]
    rfl
  ended := by
    rw [Subgraph.events_eq, Subgraph.inside, hbody, List.filterMap_append, ended_before,
      List.nil_append]
    simp only [List.filterMap_cons, List.filterMap_nil, Event.ended?, Turn.ended?, haround, hbody]
  depth_eq := (proceeds_tooDeep _ _ _).depth_eq

theorem accounted_blockReader (levels : Nat) :
    (blockReader levels).AccountedBy (turnsOf levels) := by
  induction levels with
  | zero => exact fun opening around body haround hbody => accounts_tooDeep haround hbody
  | succ levels ih =>
      intro opening around body haround hbody
      rw [Opening.read, read_blockReader_succ] at hbody ⊢
      rw [turnsOf]
      split at hbody
      · rename_i hopen
        have hinside : opening.rest.depth + 1 = (body :: around).length := congrArg (· + 1) haround
        obtain ⟨statements, hstatements, haccounts⟩ := accounts_body ih hinside
        have hall : body.statements = (opening.body (blockReader levels)).1.toList := hbody
        have hevents : body.events around = eventsOfAll (body :: around) opening.before.toList ++
            eventsOfAll (body :: around) statements ++ [.close around body] := by
          rw [Subgraph.events_eq, Subgraph.inside, hall.trans hstatements, eventsOfAll_append]
        rw [if_pos hopen, if_pos hopen, Opening.block_rest, ← hall, hevents]
        exact (haccounts.enclose (ended_before _ opening) haround body).trans_moves
          (moves_expect _ _)
      · rename_i hfull
        rw [if_neg hfull, if_neg hfull]
        exact accounts_tooDeep haround hbody

theorem accounts_document {reader : TokenReader} (hdepth : reader.depth = 0) :
    Accounts reader reader.document.2 reader.document.1.events reader.turns := by
  have hstrict := moves_strict reader
  have hsecond :
      (if reader.kind = .strict then (true, reader.advance) else (false, reader)).2 =
        if reader.kind = .strict then reader.advance else reader := by split <;> rfl
  unfold document turns
  rw [← hsecond]
  generalize (if reader.kind = .strict then (true, reader.advance) else (false, reader)) = next
    at hstrict ⊢
  refine .moves_trans hstrict ?_
  simp only
  split
  · have hmoves := moves_header next.2
    have haround : (next.2.advance.ident?.2.expect .lBrace).2.depth = ([] : List Subgraph).length :=
      (hstrict.trans hmoves).depth_eq.trans hdepth
    obtain ⟨statements, hstatements, haccounts⟩ :=
      accounts_statements (accounted_blockReader maxNesting) #[] haround
    rw [Document.events, hstatements]
    exact (haccounts.moves_trans hmoves).trans_moves (moves_expect _ _)
  · have hfault : ParseFault.missingHeader next.2.kind ≠ .nestingTooDeep := nofun
    refine .of_moves (Moves.refl.report hfault) ?_
    rw [Document.events, eventsOfAll]
    rfl

end DotGraph.TokenReader

namespace DotGraph

open TokenReader

/-- The reader in front of all tokens of a description. -/
def firstReader (filename : String) (bytes : ByteArray) : TokenReader :=
  TokenReader.start (TokenStream.ofBytes filename bytes)

theorem accounts_parse (filename : String) (bytes : ByteArray) :
    Accounts (firstReader filename bytes) (firstReader filename bytes).document.2
      (parse filename bytes).document.events (firstReader filename bytes).turns :=
  accounts_document rfl

theorem filter_isRefusal_parse (filename : String) (bytes : ByteArray) :
    (parse filename bytes).diagnostics.filter Diagnostic.isRefusal =
      ((firstReader filename bytes).turns.filterMap Turn.refused?).map fun opening =>
        .refusal opening.brace.position := by
  have hrefusals := (accounts_parse filename bytes).refusals
  have hdiagnostics : (parse filename bytes).diagnostics.filter Diagnostic.isRefusal =
      (firstReader filename bytes).document.2.refusals.map Diagnostic.refusal :=
    TokenStream.filter_isRefusal _
  rw [hdiagnostics, hrefusals, List.map_append, List.map_map]
  rfl

end DotGraph
