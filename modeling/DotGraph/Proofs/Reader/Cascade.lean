import DotGraph.Proofs.Reader.Layout
import DotGraph.Proofs.Reader.SourceOrder
import DotGraph.Proofs.Reader.Orderly

namespace DotGraph.TokenReader

/-! One fault does not lead to many others.  What a parse reports about the order of the tokens
comes in the order of the source.  At most two faults are at one token, and at the end of input
there is about one for each block that is open there. -/

open DotGraph.Tree

variable {reader source target : TokenReader} {count token slack excess : Nat} {opened : Position}

/-- A reader that has gone over the place at which a block opens.  A single fault may have been
noted there, unless it is at the end of input itself. -/
structure Opened (reader : TokenReader) (count : Nat) (opened : Position) : Prop where
  orderly : reader.Orderly count 0 0 1
  behind : ∀ fault ∈ reader.faults.toList, fault.position.offset ≤ opened.offset
  place : (opened.offset < reader.offset ∧ reader.noted opened.offset ≤ 1) ∨
    (opened.offset = reader.offset ∧ reader.kind = .endOfInput)

namespace Opened

theorem of_brace (h : reader.Orderly count 1 slack excess) (hkind : reader.kind = .lBrace) :
    (reader.expect .lBrace).2.Opened count reader.position := by
  have hend : reader.kind ≠ .endOfInput := by simp [hkind]
  rw [expect_of_kind hkind]
  exact ⟨(h.advance (Nat.le_succ 1) hend).mono (Nat.le_refl 0) (Nat.le_refl 0) (Nat.zero_le 1),
    h.behind, .inl ⟨h.sorted.offset_lt_advance hend, (h.here hend).1⟩⟩

/-- Where no brace is, a fault is noted, and that is the first one at this place. -/
theorem of_expect (h : reader.Orderly count 0 0 0) :
    (reader.expect .lBrace).2.Opened count reader.position := by
  by_cases hkind : reader.kind = .lBrace
  · exact of_brace (h.mono (Nat.zero_le 1) (Nat.le_refl 0) (Nat.le_refl 0)) hkind
  have hexpect : (reader.expect .lBrace).2 =
      (reader.report (.expected .lBrace reader.kind)).advance := by
    rw [TokenReader.expect, if_neg hkind]
  have hreport := h.report (.expected .lBrace reader.kind)
  refine ⟨h.expect (Nat.zero_le 1) .lBrace, ?_, ?_⟩
  · rw [hexpect]
    exact hreport.behind
  · rw [hexpect]
    by_cases hend : reader.kind = .endOfInput
    · rw [advance_of_end hreport.tokens hend]
      exact .inr ⟨rfl, hend⟩
    · exact .inl ⟨hreport.sorted.offset_lt_advance hend, (hreport.here hend).1⟩

theorem goesOver (h : source.Opened count opened) (k : source.GoesOver target) :
    target.Opened count opened := by
  induction k with
  | refl => exact h
  | advance _ hkind ih =>
      refine ⟨h.orderly.goesOver (Nat.zero_le 2) (.advance ‹_› hkind), ih.behind, ?_⟩
      rcases ih.place with ⟨hlt, hnoted⟩ | ⟨-, hend⟩
      · exact .inl ⟨Nat.lt_trans hlt (ih.orderly.sorted.offset_lt_advance hkind), hnoted⟩
      · exact absurd hend hkind

/-- A block that is too deep is reported where it opens. -/
theorem reportAt (h : reader.Opened count opened) (fault : ParseFault) :
    (reader.reportAt opened fault).Orderly count 0 1 1 := by
  have hle : opened.offset ≤ reader.offset := by
    rcases h.place with ⟨hlt, -⟩ | ⟨heq, -⟩
    · exact Nat.le_of_lt hlt
    · exact Nat.le_of_eq heq
  refine ⟨h.orderly.sorted, h.orderly.tokens, ordered_reportAt h.orderly.ordered h.behind fault,
    behind_reportAt h.orderly.behind hle fault, fun offset hoffset => ?_, fun hkind => ?_,
    fun hend => ?_⟩
  · have hless : offset < reader.offset := hoffset
    rw [noted_reportAt]
    split
    · rename_i hplace
      rcases h.place with ⟨-, hnoted⟩ | ⟨heq, -⟩
      · rw [hplace] at hnoted
        exact Nat.succ_le_succ hnoted
      · omega
    · exact h.orderly.left offset hless
  · obtain ⟨hnoted, hpulled⟩ := h.orderly.here hkind
    refine ⟨?_, hpulled⟩
    rcases h.place with ⟨hlt, -⟩ | ⟨-, hend⟩
    · change (reader.reportAt opened fault).noted reader.offset ≤ 0
      rw [noted_reportAt, if_neg (Nat.ne_of_lt hlt)]
      exact hnoted
    · exact absurd hend hkind
  · obtain ⟨overrun, hoverrun, hpulled, hnoted⟩ := h.orderly.finish hend
    refine ⟨overrun, hoverrun, hpulled, ?_⟩
    change (reader.reportAt opened fault).noted reader.offset ≤ overrun + 1
    rw [noted_reportAt]
    split <;> omega

end Opened

/-- What is left of a block is read with a bound on the faults at the end of input. -/
def BlockReader.KeepsOrder (inner : BlockReader) (excess : Nat) : Prop :=
  ∀ count opened before reader, reader.Opened count opened →
    (inner.read opened before reader).2.Orderly count 0 1 excess

section

variable {inner : BlockReader} (hinner : inner.KeepsOrder excess)
include hinner

theorem orderly_subgraph {slack excess' : Nat} (h : reader.Orderly count 1 slack excess')
    (hkind : reader.kind = .subgraph ∨ reader.kind = .lBrace) :
    (reader.subgraph inner).2.Orderly count 0 1 excess := by
  unfold subgraph
  rcases hkind with hkind | hkind
  · simp only [hkind, if_true]
    have hname := (h.advance (Nat.le_succ 1) (by simp [hkind])).goesOver (Nat.zero_le 2)
      (goesOver_ident? _)
    exact hinner _ _ _ _ (.of_expect hname)
  · simp only [hkind, reduceCtorEq, if_false]
    exact hinner _ _ _ _ (.of_brace h hkind)

theorem orderly_groupOrSubgraph (h : reader.Orderly count 0 0 0) :
    (reader.groupOrSubgraph inner).2.Orderly count 0 1 excess := by
  have hnodes := (Opened.of_expect h).goesOver (goesOver_nodeIds #[] _)
  unfold groupOrSubgraph
  simp only
  split
  · rename_i hclose
    have hbrace : ((reader.expect .lBrace).2.nodeIds #[]).2.kind = .rBrace := by
      simp_all
    exact (hnodes.orderly.advance (Nat.zero_le 2) (by simp [hbrace])).mono (Nat.le_refl 0)
      (Nat.zero_le 1) (Nat.zero_le _)
  · exact hinner _ _ _ _ hnodes

theorem orderly_endpoint (h : reader.Orderly count 0 0 0) :
    (reader.endpoint inner).2.Orderly count 1 1 excess := by
  unfold endpoint
  split
  · exact (orderly_subgraph hinner (h.mono (Nat.zero_le 1) (Nat.le_refl 0) (Nat.le_refl 0))
      (.inl ‹_›)).mono (Nat.zero_le 1) (Nat.le_refl 1) (Nat.le_refl _)
  split
  · exact (orderly_groupOrSubgraph hinner h).mono (Nat.zero_le 1) (Nat.le_refl 1)
      (Nat.le_refl _)
  split
  · exact ((h.ident (Nat.zero_le 2) ‹_›).goesOver (Nat.zero_le 2) (goesOver_port? _)).mono
      (Nat.zero_le 1) (Nat.zero_le 1) (Nat.zero_le _)
  · exact (h.report _).mono (Nat.le_refl 1) (Nat.le_refl 1) (Nat.zero_le _)

theorem orderly_hops (before : Array Hop) (reader : TokenReader)
    (h : reader.Orderly count 1 1 excess) :
    (reader.hops inner before).2.Orderly count 1 1 excess := by
  have hnext : ∀ reader : TokenReader, reader.Orderly count 1 1 excess → reader.kind.isEdgeOp →
      (reader.advance.endpoint inner).2.Orderly count 1 1 excess := fun reader h hedge =>
    orderly_endpoint hinner
      (h.advance (Nat.le_succ 1) (Token.Kind.ne_endOfInput_of_isEdgeOp hedge))
  fun_induction hops inner before reader with
  | case1 before reader hedge _ _ _ ih => exact ih (hnext reader h hedge)
  | case2 before reader hedge _ _ => exact hnext reader h hedge
  | case3 before reader _ => exact h

variable (hexcess : 1 ≤ excess)
include hexcess

theorem orderly_edgeStatement (left : Endpoint) (h : reader.Orderly count 1 1 excess) :
    (reader.edgeStatement inner left).2.Orderly count 1 1 excess :=
  orderly_attributeList? (orderly_hops hinner #[] reader h) (Nat.le_succ 1) hexcess

theorem orderly_identStatement (h : reader.Orderly count 1 1 excess) (hid : reader.kind.isId) :
    (reader.identStatement inner).2.Orderly count 1 1 excess := by
  have hident := h.ident (Nat.le_succ 1) hid
  have hport := (hident.goesOver (Nat.zero_le 2) (goesOver_port? _)).mono (Nat.zero_le 1)
    (Nat.zero_le 1) (Nat.zero_le excess)
  unfold identStatement
  simp only
  split
  · exact (orderly_assignment hident (Nat.zero_le 2) ‹_› _).mono (Nat.le_refl 1) (Nat.le_refl 1)
      (Nat.zero_le _)
  split
  · exact orderly_edgeStatement hinner hexcess
      (.node ⟨reader.ident.1.position, reader.ident.1, reader.ident.2.port?.1⟩) hport
  · exact orderly_attributeList? hport (Nat.le_succ 1) hexcess

theorem orderly_subgraphStatement (h : reader.Orderly count 1 1 excess)
    (hkind : reader.kind = .subgraph ∨ reader.kind = .lBrace) :
    (reader.subgraphStatement inner).2.Orderly count 1 1 excess := by
  have hsubgraph := (orderly_subgraph hinner h hkind).mono (Nat.zero_le 1) (Nat.le_refl 1)
    (Nat.le_refl excess)
  unfold subgraphStatement
  simp only
  split
  · exact orderly_edgeStatement hinner hexcess _ hsubgraph
  · exact hsubgraph

theorem orderly_statement (h : reader.Orderly count 1 1 excess)
    (hkind : reader.kind ≠ .endOfInput) :
    (reader.statement inner).2.Orderly count 1 1 excess := by
  have hafter : reader.advance.Orderly count 1 1 excess :=
    (h.advance (Nat.le_succ 1) hkind).mono (Nat.zero_le 1) (Nat.zero_le 1) (Nat.zero_le _)
  have hdefaults (subject : Subject) :
      (reader.defaultsStatement subject).2.Orderly count 1 1 excess :=
    orderly_attributeList? hafter (Nat.le_succ 1) hexcess
  unfold statement
  split
  · exact hdefaults .graph
  · exact hdefaults .node
  · exact hdefaults .edge
  · exact orderly_subgraphStatement hinner hexcess h (.inl ‹_›)
  · exact orderly_subgraphStatement hinner hexcess h (.inr ‹_›)
  · exact orderly_identStatement hinner hexcess h (by simp [Token.Kind.isId, *])
  · exact orderly_identStatement hinner hexcess h (by simp [Token.Kind.isId, *])
  · exact orderly_identStatement hinner hexcess h (by simp [Token.Kind.isId, *])
  · exact ((h.report _).advance (Nat.le_refl 2) hkind).mono (Nat.zero_le 1) (Nat.zero_le 1)
      (Nat.zero_le _)

theorem orderly_statements (before : Array Statement) (reader : TokenReader)
    (h : reader.Orderly count 1 1 excess) :
    (reader.statements inner before).2.Orderly count 1 1 excess := by
  fun_induction statements inner before reader with
  | case1 before reader _ => exact h
  | case2 before reader hend _ ih =>
      have hkind : reader.kind ≠ .endOfInput := kind_ne_endOfInput_of_not_endsBlock hend
      exact ih ((orderly_statement hinner hexcess h hkind).goesOver (Nat.le_succ 1)
        (goesOver_skipOver (by decide) _))

/-- Each block that is open at the end of input misses its closing brace there. -/
theorem orderly_block (before : Array Statement) (h : reader.Orderly count 0 0 1) :
    (reader.block inner before).2.Orderly count 0 1 (excess + 1) := by
  have hfirst : (if before.isEmpty then reader.enter
      else reader.enter.skipOver [.semicolon]).Orderly count 0 0 1 := by
    split
    · exact h.enter
    · exact h.enter.goesOver (Nat.zero_le 2) (goesOver_skipOver (by decide) _)
  exact (orderly_statements hinner hexcess before _
    (hfirst.mono (Nat.zero_le 1) (Nat.zero_le 1) hexcess)).leave.expect (Nat.le_refl 1) .rBrace

end

/-- The bound grows by one with each level.  A block that is too deep misses no brace, but what is
reported of it may be at the end of input as well. -/
theorem keepsOrder_blockReader (levels : Nat) : (blockReader levels).KeepsOrder (levels + 1) := by
  have hrefused (count : Nat) (opened : Position) (before : Array Statement) (reader : TokenReader)
      (h : reader.Opened count opened) : (reader.tooDeep opened before).2.Orderly count 0 1 1 :=
    (h.reportAt .nestingTooDeep).goesOver (Nat.zero_le 2) (goesOver_skipBlock 0 _)
  induction levels with
  | zero => exact hrefused
  | succ levels ih =>
      intro count opened before reader h
      rw [read_blockReader_succ]
      split
      · exact orderly_block ih (Nat.le_add_left 1 levels) before h.orderly
      · exact (hrefused count opened before reader h).mono (Nat.le_refl 0) (Nat.le_refl 1)
          (Nat.le_add_left 1 _)

theorem orderly_document (h : reader.Orderly count 0 0 0) :
    reader.document.2.Orderly count 1 1 (maxNesting + 2) := by
  have hstrict : (if reader.kind = .strict then (true, reader.advance)
      else (false, reader)).2.Orderly count 0 0 0 := by
    split
    · rename_i hkind
      exact h.advance (Nat.zero_le 2) (by simp [hkind])
    · exact h
  unfold document
  generalize (if reader.kind = .strict then (true, reader.advance) else (false, reader)) = next
    at hstrict ⊢
  simp only
  split
  · rename_i hkind
    have hend : next.2.kind ≠ .endOfInput := by
      rintro hend
      simp [hend] at hkind
    have hname := (hstrict.advance (Nat.zero_le 2) hend).goesOver (Nat.zero_le 2)
      (goesOver_ident? _)
    have hbrace := (hname.expect (Nat.zero_le 1) .lBrace).mono (Nat.zero_le 1) (Nat.zero_le 1)
      (Nat.le_add_left 1 maxNesting)
    exact ((orderly_statements (keepsOrder_blockReader maxNesting) (Nat.le_add_left 1 _) #[] _
      hbrace).expect (Nat.le_refl 1) .rBrace).mono (Nat.zero_le 1) (Nat.le_refl 1) (Nat.le_refl _)
  · exact (hstrict.report _).mono (Nat.le_refl 1) (Nat.le_refl 1) (Nat.zero_le _)

end DotGraph.TokenReader

namespace DotGraph

open TokenReader

theorem TokenStream.orderly_start (filename : String) (bytes : ByteArray) :
    (TokenReader.start (ofBytes filename bytes)).Orderly
      (tokenize filename bytes).1.length 0 0 0 := by
  have hlength : (tokenize filename bytes).1.length = (ofBytes filename bytes).tokens.length := by
    rw [tokenize, List.length_map]
  have htokens : ∀ lexeme ∈ (ofBytes filename bytes).tokens, lexeme.isEnd = false :=
    fun _ => isEnd_of_mem_tokens
  rw [hlength]
  refine ⟨sorted_start filename bytes, htokens, .nil, List.forall_mem_nil _,
    fun _ _ => Nat.zero_le 2, fun _ => ⟨Nat.le_refl 0, Nat.add_comm 1 _⟩,
    fun hend => ⟨0, Nat.le_refl 0, ?_, Nat.le_refl 0⟩⟩
  have hunread : (ofBytes filename bytes).tokens = [] := unread_of_end htokens hend
  rw [hunread]
  rfl

theorem orderly_lastReader (filename : String) (bytes : ByteArray) :
    (lastReader filename bytes).Orderly (tokenize filename bytes).1.length 1 1 (maxNesting + 2) :=
  orderly_document (TokenStream.orderly_start filename bytes)

/-- Behind all tokens the end of input is seen at its place. -/
theorem position_lastReader {filename : String} {bytes : ByteArray}
    (hend : (lastReader filename bytes).kind = .endOfInput) :
    (lastReader filename bytes).position =
      (TokenStream.ofBytes filename bytes).finish.position := by
  rw [position, unread_of_end (orderly_lastReader filename bytes).tokens hend]
  exact (pulls_lastReader filename bytes).finish_eq

/-- Whatever a source looks like, what is wrong with the order of its tokens is reported in the
order of the source, and at a token or at the end of input.  At most two faults are reported at one
token, and at the end of input at most two more than there may be blocks open. -/
theorem faults_do_not_cascade (filename : String) (bytes : ByteArray) :
    let tokens := (tokenize filename bytes).1
    let finish := (TokenStream.ofBytes filename bytes).finish.position
    let syntactic := (parse filename bytes).syntactic
    (syntactic.map (·.position.offset)).Pairwise (· ≤ ·) ∧
    (∀ diagnostic ∈ syntactic,
      (∃ token ∈ tokens, diagnostic.position = token.position) ∨ diagnostic.position = finish) ∧
    (∀ token ∈ tokens, syntactic.countP (·.position = token.position) ≤ 2) ∧
    syntactic.countP (·.position = finish) ≤ maxNesting + 3 := by
  intro tokens finish syntactic
  have horderly := orderly_lastReader filename bytes
  have hpulls := pulls_lastReader filename bytes
  have hsyntactic : syntactic =
      (lastReader filename bytes).faults.toList.map ParseFault.diagnostic :=
    syntactic_parse filename bytes
  have hcount (position : Position) : syntactic.countP (·.position = position) ≤
      (lastReader filename bytes).noted position.offset := by
    rw [hsyntactic, List.countP_map]
    refine List.countP_mono_left fun fault _ hposition => ?_
    exact decide_eq_true (congrArg Position.offset (of_decide_eq_true hposition))
  refine ⟨?_, ?_, ?_, ?_⟩
  · rw [hsyntactic, List.map_map, List.pairwise_map]
    exact horderly.ordered
  · intro diagnostic hmem
    rw [hsyntactic] at hmem
    obtain ⟨fault, hfault, rfl⟩ := List.mem_map.mp hmem
    obtain ⟨lexeme, hlexeme, hposition⟩ :=
      List.mem_map.mp (position_fault_mem filename bytes hfault)
    rcases List.mem_append.mp hlexeme with htoken | hfinish
    · exact .inl ⟨lexeme.located, List.mem_map_of_mem htoken, hposition.symm⟩
    · rw [List.mem_singleton.mp hfinish] at hposition
      exact .inr hposition.symm
  · intro token hmem
    refine Nat.le_trans (hcount _) (horderly.noted_le (Nat.le_succ 1) fun hend => ?_)
    rw [offset, position_lastReader hend]
    exact Nat.ne_of_lt (offset_lt_finish hmem)
  · have hfinish := hcount finish
    by_cases hend : (lastReader filename bytes).kind = .endOfInput
    · obtain ⟨overrun, hoverrun, -, hnoted⟩ := horderly.finish hend
      rw [offset, position_lastReader hend] at hnoted
      calc
        _ ≤ overrun + 1 := Nat.le_trans hfinish hnoted
        _ ≤ maxNesting + 3 := Nat.succ_le_succ hoverrun
    · calc
        _ ≤ 2 := Nat.le_trans hfinish (horderly.noted_le (Nat.le_succ 1) fun h => absurd h hend)
        _ ≤ maxNesting + 3 := by omega

/-- An endpoint is missing at a token that starts no statement either. -/
example : (parse "" "graph\x7ba--]\x7d".toUTF8).syntactic.map (·.position.offset) = [9, 9] := by
  decide +kernel

end DotGraph
