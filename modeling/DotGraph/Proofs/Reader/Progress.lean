import DotGraph.Proofs.Reader.Cascade

namespace DotGraph.TokenReader

/-! Reading goes on until it ends.  Nothing that is read is given back, each round of a loop takes
at least one token, and at the end of input only a few more tokens are asked for. -/

open DotGraph.Tree

/-- What there is a reader for. -/
inductive Part where
  | anyToken
  | token (wanted : Token.Kind)
  | separator (kinds : List Token.Kind)
  | ident
  | ident?
  | compass?
  | port
  | port?
  | nodeId
  | nodeIds (before : Array NodeId)
  | attributeValue (key : Ident)
  | oneAttribute
  | attributes (before : Array Attribute)
  | bracket (before : Array Attribute)
  | brackets (before : Array Attribute)
  | attributeList?
  | assignment (key : Ident)
  | defaultsStatement (subject : Subject)
  | subgraph (levels : Nat)
  | groupOrSubgraph (levels : Nat)
  | endpoint (levels : Nat)
  | hops (levels : Nat) (before : Array Hop)
  | edgeStatement (levels : Nat) (left : Endpoint)
  | identStatement (levels : Nat)
  | subgraphStatement (levels : Nat)
  | statement (levels : Nat)
  | statements (levels : Nat) (before : Array Statement)
  | block (levels : Nat) (before : Array Statement)
  | restOfBlock (levels : Nat) (opened : Position) (before : Array Statement)
  | skippedBlock (opened : Nat)
  | document

/-- The reader behind the part. -/
def Part.behind (reader : TokenReader) : Part → TokenReader
  | anyToken => reader.advance
  | token wanted => (reader.expect wanted).2
  | separator kinds => reader.skipOver kinds
  | ident => reader.ident.2
  | ident? => reader.ident?.2
  | compass? => reader.compass?.2
  | port => reader.port.2
  | port? => reader.port?.2
  | nodeId => reader.nodeId.2
  | nodeIds before => (reader.nodeIds before).2
  | attributeValue key => (reader.attributeValue key).2
  | oneAttribute => reader.oneAttribute.2
  | attributes before => (reader.attributes before).2
  | bracket before => (reader.bracket before).2
  | brackets before => (reader.brackets before).2
  | attributeList? => reader.attributeList?.2
  | assignment key => (reader.assignment key).2
  | defaultsStatement subject => (reader.defaultsStatement subject).2
  | subgraph levels => (reader.subgraph (blockReader levels)).2
  | groupOrSubgraph levels => (reader.groupOrSubgraph (blockReader levels)).2
  | endpoint levels => (reader.endpoint (blockReader levels)).2
  | hops levels before => (reader.hops (blockReader levels) before).2
  | edgeStatement levels left => (reader.edgeStatement (blockReader levels) left).2
  | identStatement levels => (reader.identStatement (blockReader levels)).2
  | subgraphStatement levels => (reader.subgraphStatement (blockReader levels)).2
  | statement levels => (reader.statement (blockReader levels)).2
  | statements levels before => (reader.statements (blockReader levels) before).2
  | block levels before => (reader.block (blockReader levels) before).2
  | restOfBlock levels opened before => ((blockReader levels).read opened before reader).2
  | skippedBlock opened => reader.skipBlock opened
  | document => reader.document.2

theorem Pulls.size_le {source target : TokenReader} (h : source.Pulls target) :
    target.size ≤ source.size := by
  rw [size, h.unread_eq, List.length_drop]
  exact Nat.sub_le _ _

theorem proceeds_part (part : Part) (reader : TokenReader) :
    reader.Proceeds (part.behind reader) := by
  have hinner := proceeds_blockReader
  cases part with
  | anyToken => exact (Proceeds.refl reader).advance
  | token wanted => exact (moves_expect reader wanted).proceeds
  | separator kinds => exact (moves_skipOver reader kinds).proceeds
  | ident => exact (moves_ident reader).proceeds
  | ident? => exact (moves_ident? reader).proceeds
  | compass? => exact (moves_compass? reader).proceeds
  | port => exact (moves_port reader).proceeds
  | port? => exact (moves_port? reader).proceeds
  | nodeId => exact (moves_nodeId reader).proceeds
  | nodeIds before => exact (moves_nodeIds before reader).proceeds
  | attributeValue key => exact (moves_attributeValue reader key).proceeds
  | oneAttribute => exact (moves_oneAttribute reader).proceeds
  | attributes before => exact (moves_attributes before reader).proceeds
  | bracket before => exact (moves_bracket before reader).proceeds
  | brackets before => exact (moves_brackets before reader).proceeds
  | attributeList? => exact (moves_attributeList? reader).proceeds
  | assignment key => exact (moves_assignment key reader).proceeds
  | defaultsStatement subject => exact (moves_defaultsStatement subject reader).proceeds
  | subgraph levels => exact proceeds_subgraph (hinner levels) reader
  | groupOrSubgraph levels => exact proceeds_groupOrSubgraph (hinner levels) reader
  | endpoint levels => exact proceeds_endpoint (hinner levels) reader
  | hops levels before => exact proceeds_hops (hinner levels) before reader
  | edgeStatement levels left => exact proceeds_edgeStatement (hinner levels) left reader
  | identStatement levels => exact proceeds_identStatement (hinner levels) reader
  | subgraphStatement levels => exact proceeds_subgraphStatement (hinner levels) reader
  | statement levels => exact proceeds_statement (hinner levels) reader
  | statements levels before => exact proceeds_statements (hinner levels) before reader
  | block levels before => exact proceeds_block (hinner levels) before reader
  | restOfBlock levels opened before => exact hinner levels opened before reader
  | skippedBlock opened => exact (moves_skipBlock opened reader).proceeds
  | document => exact proceeds_document reader

/-- What is read in rounds. -/
inductive Loop where
  | statements (levels : Nat)
  | hops (levels : Nat)
  | nodeIds
  | attributes
  | brackets
  | skippedBlock

namespace Loop

/-- What a single round of the loop reads.  The last round of a chain may find no endpoint. -/
inductive Round : Loop → TokenReader → TokenReader → Prop where
  | statement (levels : Nat) {reader : TokenReader} (h : reader.endsBlock = false) :
      Round (.statements levels) reader
        ((reader.statement (blockReader levels)).2.skipOver [.semicolon])
  | hop (levels : Nat) {reader : TokenReader} (h : reader.kind.isEdgeOp) :
      Round (.hops levels) reader (reader.advance.endpoint (blockReader levels)).2
  | nodeId {reader : TokenReader} (h : reader.kind.isId) : Round .nodeIds reader reader.nodeId.2
  | entry {reader : TokenReader} (h : reader.kind.isId) :
      Round .attributes reader reader.oneAttribute.2
  | bracket (before : Array Attribute) {reader : TokenReader} (h : reader.kind = .lBracket) :
      Round .brackets reader (reader.bracket before).2
  | skip {reader : TokenReader} (h : reader.kind ≠ .endOfInput) :
      Round .skippedBlock reader reader.advance

/-- What the whole loop reads. -/
inductive Runs : Loop → TokenReader → TokenReader → Prop where
  | statements (levels : Nat) (before : Array Statement) (reader : TokenReader) :
      Runs (.statements levels) reader (reader.statements (blockReader levels) before).2
  | hops (levels : Nat) (before : Array Hop) (reader : TokenReader) :
      Runs (.hops levels) reader (reader.hops (blockReader levels) before).2
  | nodeIds (before : Array NodeId) (reader : TokenReader) :
      Runs .nodeIds reader (reader.nodeIds before).2
  | attributes (before : Array Attribute) (reader : TokenReader) :
      Runs .attributes reader (reader.attributes before).2
  | brackets (before : Array Attribute) (reader : TokenReader) :
      Runs .brackets reader (reader.brackets before).2
  | skippedBlock (opened : Nat) (reader : TokenReader) :
      Runs .skippedBlock reader (reader.skipBlock opened)

/-- So many rounds of the loop lead from one reader to the other. -/
inductive Rounds (loop : Loop) : TokenReader → Nat → TokenReader → Prop where
  | none (reader : TokenReader) : Rounds loop reader 0 reader
  | more {first second third : TokenReader} {rounds : Nat} (h : loop.Round first second)
      (k : Rounds loop second rounds third) : Rounds loop first (rounds + 1) third

variable {loop : Loop} {source next target : TokenReader}

theorem size_lt_of_round (h : loop.Round source target) : target.size < source.size := by
  cases h with
  | statement _ h =>
      have hkind : source.kind ≠ .endOfInput :=
        kind_ne_endOfInput_of_not_endsBlock (by simp [h])
      exact Nat.lt_of_le_of_lt (size_skipOver_le _ _) (size_statement_lt _ hkind)
  | hop _ h =>
      exact Nat.lt_of_le_of_lt (size_endpoint_le _ _)
        (size_advance_lt (Token.Kind.ne_endOfInput_of_isEdgeOp h))
  | nodeId h => exact size_nodeId_lt (Token.Kind.ne_endOfInput_of_isId h)
  | entry h => exact size_oneAttribute_lt (Token.Kind.ne_endOfInput_of_isId h)
  | bracket before h => exact size_bracket_lt before (by simp [h])
  | skip h => exact size_advance_lt h

/-- There are no more rounds than tokens. -/
theorem rounds_le {rounds : Nat} (h : loop.Rounds source rounds target) :
    rounds + target.size ≤ source.size := by
  induction h with
  | none reader => exact Nat.le_of_eq (Nat.zero_add _)
  | more h _ ih =>
      have := size_lt_of_round h
      omega

theorem exists_rounds_more (h : loop.Round source next)
    (k : ∃ rounds, loop.Rounds next rounds target) : ∃ rounds, loop.Rounds source rounds target :=
  k.imp' (· + 1) fun _ => .more h

end Loop

/-- A loop does nothing but its rounds. -/
theorem exists_rounds {loop : Loop} {source target : TokenReader} (h : loop.Runs source target) :
    ∃ rounds, loop.Rounds source rounds target := by
  cases h with
  | statements levels before =>
      fun_induction statements (blockReader levels) before source with
      | case1 before reader _ => exact ⟨0, .none reader⟩
      | case2 before reader hend _ ih =>
          exact Loop.exists_rounds_more (.statement levels (Bool.eq_false_iff.mpr hend)) ih
  | hops levels before =>
      fun_induction hops (blockReader levels) before source with
      | case1 before reader hedge _ _ _ ih => exact Loop.exists_rounds_more (.hop levels hedge) ih
      | case2 before reader hedge _ _ =>
          exact Loop.exists_rounds_more (.hop levels hedge) ⟨0, .none _⟩
      | case3 before reader _ => exact ⟨0, .none reader⟩
  | nodeIds before =>
      fun_induction nodeIds before source with
      | case1 before reader hid _ ih => exact Loop.exists_rounds_more (.nodeId hid) ih
      | case2 before reader _ => exact ⟨0, .none reader⟩
  | attributes before =>
      fun_induction attributes before source with
      | case1 before reader hid _ ih => exact Loop.exists_rounds_more (.entry hid) ih
      | case2 before reader _ => exact ⟨0, .none reader⟩
  | brackets before =>
      fun_induction brackets before source with
      | case1 before reader hkind _ ih => exact Loop.exists_rounds_more (.bracket before hkind) ih
      | case2 before reader _ => exact ⟨0, .none reader⟩
  | skippedBlock opened =>
      fun_induction skipBlock opened source with
      | case1 opened reader _ => exact ⟨0, .none reader⟩
      | case3 reader hend _ _ => exact Loop.exists_rounds_more (.skip hend) ⟨0, .none _⟩
      | case2 opened reader hend _ ih | case4 reader hend _ _ opened ih
      | case5 opened reader hend _ _ ih => exact Loop.exists_rounds_more (.skip hend) ih

end DotGraph.TokenReader

namespace DotGraph

open TokenReader

/-- Reading advances and ends, wherever it starts from.  A statement takes at least one token.  No
part leaves more tokens than there were.  All loops are made of rounds, and each round takes at
least one token.  Behind the last token a parse asks for few others, at most two more than there may
be blocks open. -/
theorem reading_advances_and_ends (filename : String) (bytes : ByteArray) :
    (∀ (levels : Nat) (reader : TokenReader), reader.kind ≠ .rBrace → reader.kind ≠ .endOfInput →
      (reader.statement (blockReader levels)).2.size < reader.size) ∧
    (∀ (part : Part) (reader : TokenReader), (part.behind reader).size ≤ reader.size) ∧
    (∀ (loop : Loop) (source target : TokenReader), loop.Round source target →
      target.size < source.size) ∧
    (∀ (loop : Loop) (source target : TokenReader), loop.Runs source target →
      ∃ rounds, loop.Rounds source rounds target ∧ rounds + target.size ≤ source.size) ∧
    (lastReader filename bytes).pulled ≤ (tokenize filename bytes).1.length + maxNesting + 3 := by
  refine ⟨fun levels reader _ hkind => size_statement_lt _ hkind,
    fun part reader => (proceeds_part part reader).pulls.size_le,
    fun loop source target h => Loop.size_lt_of_round h, fun loop source target h => ?_, ?_⟩
  · obtain ⟨rounds, hrounds⟩ := exists_rounds h
    exact ⟨rounds, hrounds, Loop.rounds_le hrounds⟩
  · have horderly := orderly_lastReader filename bytes
    by_cases hend : (lastReader filename bytes).kind = .endOfInput
    · obtain ⟨overrun, hoverrun, hpulled, -⟩ := horderly.finish hend
      omega
    · have hpulled := (horderly.here hend).2
      omega

end DotGraph
