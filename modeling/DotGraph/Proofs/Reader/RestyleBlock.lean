import DotGraph.Proofs.Reader.RestyleName
import DotGraph.Tree.Document

namespace DotGraph.TokenReader

/-! Statements and whole descriptions are read in another style as well. -/

open DotGraph.Tree

/-- Reading a block in another style gives the same in that style. -/
def BlockReader.Restyles (style : Style) (inner : BlockReader) : Prop :=
  ∀ opened before reader,
    inner.read (style.place opened) (before.map (·.restyle style)) (restyle style reader) =
      (inner.read opened before reader).map (List.map (·.restyle style)) (restyle style)

theorem isEmpty_map {α β : Type} (f : α → β) (xs : Array α) : (xs.map f).isEmpty = xs.isEmpty := by
  simp [Array.isEmpty]

variable {style : Style} (reader : TokenReader)

section

variable {inner : BlockReader} (hinner : inner.Restyles style)
include hinner

theorem subgraph_restyle :
    (restyle style reader).subgraph inner =
      (reader.subgraph inner).map (·.restyle style) (restyle style) := by
  have hkeyword := reader.kind_restyle_eq style .subgraph rfl
  have hident : (if (restyle style reader).kind = .subgraph
      then (restyle style reader).advance.ident? else (none, restyle style reader)) =
      (if reader.kind = .subgraph then reader.advance.ident? else (none, reader)).map
        (Option.map (·.restyle style)) (restyle style) := by
    simp only [hkeyword, advance_restyle, ident?_restyle]
    split <;> rfl
  have hread := fun opened reader => hinner opened #[] reader
  simp only [Array.map_empty] at hread
  unfold subgraph
  simp only [hident, Prod.map_fst, Prod.map_snd, position_restyle]
  rw [expect_restyle style _ rfl]
  simp only [Prod.map_fst, Prod.map_snd, hread, Prod.map_apply, Subgraph.restyle, restyleAll_eq]

theorem groupOrSubgraph_restyle :
    (restyle style reader).groupOrSubgraph inner =
      (reader.groupOrSubgraph inner).map (·.restyle style) (restyle style) := by
  have hclosing := fun reader : TokenReader => reader.kind_restyle_eq style .rBrace rfl
  have hnodes := fun reader : TokenReader => reader.nodeIds_restyle style #[]
  simp only [Array.map_empty] at hnodes
  have hbare : ∀ nodes : Array NodeId, (nodes.map (·.restyle style)).map bareStatement =
      (nodes.map bareStatement).map (·.restyle style) := by
    intro nodes
    simp only [Array.map_map]
    apply Array.map_congr_left
    intro node _
    simp [bareStatement, Statement.restyle, NodeId.restyle]
  unfold groupOrSubgraph
  rw [expect_restyle style _ rfl]
  simp only [Prod.map_fst, Prod.map_snd, hnodes, hclosing, isEmpty_map, hbare, hinner _ _ _,
    advance_restyle]
  split
  · simp [Endpoint.restyle]
  · simp [Endpoint.restyle, Subgraph.restyle, restyleAll_eq]

theorem endpoint_restyle :
    (restyle style reader).endpoint inner =
      (reader.endpoint inner).map (Option.map (·.restyle style)) (restyle style) := by
  have hkeyword := reader.kind_restyle_eq style .subgraph rfl
  have hopening := reader.kind_restyle_eq style .lBrace rfl
  unfold endpoint
  simp only [hkeyword, hopening, isId_kind_restyle, subgraph_restyle reader hinner,
    groupOrSubgraph_restyle reader hinner, nodeId_restyle]
  split
  · simp [Endpoint.restyle]
  split
  · rfl
  split
  · simp [Endpoint.restyle]
  · have hreport := reader.report_restyle style .missingEndpoint
    rw [Style.fault] at hreport
    rw [hreport]
    rfl

theorem hops_restyle (before : Array Hop) :
    (restyle style reader).hops inner (before.map (·.restyle style)) =
      (reader.hops inner before).map (Array.map (·.restyle style)) (restyle style) := by
  fun_induction hops inner before reader with
  | case1 before reader h _ endpoint hendpoint ih =>
      have harrow := reader.kind_restyle_eq style .arrow rfl
      change (reader.advance.endpoint inner).1 = some endpoint at hendpoint
      rw [hops, dif_pos ((reader.isEdgeOp_kind_restyle style).trans h), advance_restyle,
        endpoint_restyle reader.advance hinner]
      simp only [Prod.map_fst, Prod.map_snd, hendpoint, Option.map_some, harrow,
        Endpoint.position_restyle]
      rw [Array.map_push] at ih
      exact ih
  | case2 before reader h _ hendpoint =>
      change (reader.advance.endpoint inner).1 = none at hendpoint
      rw [hops, dif_pos ((reader.isEdgeOp_kind_restyle style).trans h), advance_restyle,
        endpoint_restyle reader.advance hinner]
      simp only [Prod.map_fst, Prod.map_snd, hendpoint, Option.map_none]
      rfl
  | case3 before reader h =>
      rw [hops, dif_neg (by rwa [isEdgeOp_kind_restyle])]
      rfl

theorem edgeStatement_restyle (left : Endpoint) :
    (restyle style reader).edgeStatement inner (left.restyle style) =
      (reader.edgeStatement inner left).map (·.restyle style) (restyle style) := by
  have hhops := hops_restyle reader hinner #[]
  rw [Array.map_empty] at hhops
  unfold edgeStatement
  simp only [hhops, Prod.map_fst, Prod.map_snd, attributeList?_restyle, Endpoint.position_restyle,
    Array.toList_map, Prod.map_apply, Statement.restyle, restyleHops_eq]

omit hinner in
theorem assignment_restyle (key : Ident) :
    (restyle style reader).assignment (key.restyle style) =
      (reader.assignment key).map (Option.map (·.restyle style)) (restyle style) := by
  unfold assignment
  simp only [advance_restyle, isId_kind_restyle, ident_restyle, Prod.map_fst, Prod.map_snd]
  split
  · simp [Statement.restyle, Ident.restyle]
  · have hreport := reader.advance.report_restyle style .missingAssignedValue
    rw [Style.fault] at hreport
    rw [hreport]
    rfl

theorem identStatement_restyle :
    (restyle style reader).identStatement inner =
      (reader.identStatement inner).map (Option.map (·.restyle style)) (restyle style) := by
  have hequal := fun reader : TokenReader =>
    reader.kind_restyle_eq style .equal rfl
  unfold identStatement
  simp only [ident_restyle, Prod.map_fst, Prod.map_snd, hequal, assignment_restyle, port?_restyle,
    isEdgeOp_kind_restyle, attributeList?_restyle]
  split
  · rfl
  split
  · have hedge := edgeStatement_restyle reader.ident.2.port?.2 hinner
      (.node ⟨reader.ident.1.position, reader.ident.1, reader.ident.2.port?.1⟩)
    rw [Endpoint.restyle] at hedge
    exact congrArg (Prod.map some id) hedge
  · simp only [Prod.map_apply, Option.map_some, Statement.restyle]
    rfl

omit hinner in
theorem defaultsStatement_restyle (subject : Subject) :
    (restyle style reader).defaultsStatement subject =
      (reader.defaultsStatement subject).map (·.restyle style) (restyle style) := by
  unfold defaultsStatement
  simp only [advance_restyle, attributeList?_restyle, Prod.map_fst, Prod.map_snd, position_restyle,
    Prod.map_apply, Statement.restyle]

theorem subgraphStatement_restyle :
    (restyle style reader).subgraphStatement inner =
      (reader.subgraphStatement inner).map (·.restyle style) (restyle style) := by
  unfold subgraphStatement
  simp only [subgraph_restyle reader hinner, Prod.map_fst, Prod.map_snd, isEdgeOp_kind_restyle]
  split
  · have hedge := edgeStatement_restyle (reader.subgraph inner).2 hinner
      (.subgraph (reader.subgraph inner).1)
    rw [Endpoint.restyle] at hedge
    exact hedge
  · simp only [Prod.map_apply, Statement.restyle]

theorem statement_restyle :
    (restyle style reader).statement inner =
      (reader.statement inner).map (Option.map (·.restyle style)) (restyle style) := by
  -- the kind of a name may change, but all names open the same statements
  cases hid : reader.kind.isId with
  | true =>
      rw [statement_of_isId hid, statement_of_isId ((reader.isId_kind_restyle style).trans hid)]
      exact identStatement_restyle reader hinner
  | false =>
      have hkind : (restyle style reader).kind = reader.kind := by
        rw [kind_restyle, style.kind_of_not_isId hid]
      have hreport := reader.report_restyle style (.unexpectedToken reader.kind)
      rw [Style.fault, style.kind_of_not_isId hid] at hreport
      unfold statement
      rw [hkind]
      simp only [defaultsStatement_restyle, subgraphStatement_restyle reader hinner]
      split
      · rfl
      · rfl
      · rfl
      · rfl
      · rfl
      · simp_all [Token.Kind.isId]
      · simp_all [Token.Kind.isId]
      · simp_all [Token.Kind.isId]
      · rw [hreport, advance_restyle]
        rfl

theorem statements_restyle (before : Array Statement) :
    (restyle style reader).statements inner (before.map (·.restyle style)) =
      (reader.statements inner before).map (Array.map (·.restyle style)) (restyle style) := by
  have hends : ∀ reader : TokenReader, (restyle style reader).endsBlock = reader.endsBlock := by
    intro reader
    unfold endsBlock
    simp only [kind_restyle_eq style reader .rBrace rfl,
      kind_restyle_eq style reader .endOfInput rfl]
  fun_induction statements inner before reader with
  | case1 before reader h =>
      rw [statements, dif_pos ((hends reader).trans h)]
      rfl
  | case2 before reader h _ ih =>
      rw [statements, dif_neg (by rwa [hends]), statement_restyle reader hinner]
      have happend : (before ++ (reader.statement inner).1.toArray).map (·.restyle style) =
          before.map (·.restyle style) ++
            ((reader.statement inner).1.map (·.restyle style)).toArray := by
        rw [Array.map_append, Option.toArray_map]
      simp only [Prod.map_fst, Prod.map_snd, ← happend]
      rw [skipOver_restyle style _ (by decide)]
      exact ih

theorem block_restyle (before : Array Statement) :
    (restyle style reader).block inner (before.map (·.restyle style)) =
      (reader.block inner before).map (List.map (·.restyle style)) (restyle style) := by
  have hbefore : (if before.isEmpty then restyle style reader.enter
      else (restyle style reader.enter).skipOver [.semicolon]) =
      restyle style
        (if before.isEmpty then reader.enter else reader.enter.skipOver [.semicolon]) := by
    split
    · rfl
    · rw [skipOver_restyle style _ (by decide)]
  unfold block
  simp only [isEmpty_map, enter_restyle, hbefore, statements_restyle _ hinner, Prod.map_fst,
    Prod.map_snd, leave_restyle]
  rw [expect_restyle style _ rfl]
  simp only [Prod.map_apply, Prod.map_snd, Array.toList_map]

end

theorem skipBlock_restyle (opened : Nat) :
    (restyle style reader).skipBlock opened = restyle style (reader.skipBlock opened) := by
  have hend := fun reader : TokenReader => reader.kind_restyle_eq style .endOfInput rfl
  have hopening := fun reader : TokenReader => reader.kind_restyle_eq style .lBrace rfl
  have hclosing := fun reader : TokenReader => reader.kind_restyle_eq style .rBrace rfl
  fun_induction skipBlock opened reader with
  | case1 opened reader h => rw [skipBlock.eq_def, dif_pos ((hend reader).mpr h)]
  | case2 opened reader h hkind ih =>
      rw [skipBlock.eq_def _ (restyle style reader), dif_neg (mt (hend reader).mp h),
        if_pos ((hopening reader).mpr hkind), advance_restyle, ih]
  | case3 reader h hkind hother =>
      rw [skipBlock.eq_def _ (restyle style reader), dif_neg (mt (hend reader).mp h),
        if_neg (mt (hopening reader).mp hkind), if_pos ((hclosing reader).mpr hother),
        advance_restyle]
  | case4 reader h hkind hother opened ih =>
      rw [skipBlock.eq_def _ (restyle style reader), dif_neg (mt (hend reader).mp h),
        if_neg (mt (hopening reader).mp hkind), if_pos ((hclosing reader).mpr hother),
        advance_restyle]
      exact ih
  | case5 opened reader h hkind hother ih =>
      rw [skipBlock.eq_def _ (restyle style reader), dif_neg (mt (hend reader).mp h),
        if_neg (mt (hopening reader).mp hkind), if_neg (mt (hclosing reader).mp hother),
        advance_restyle, ih]

theorem tooDeep_restyle (opened : Position) (before : Array Statement) :
    (restyle style reader).tooDeep (style.place opened) (before.map (·.restyle style)) =
      (reader.tooDeep opened before).map (List.map (·.restyle style)) (restyle style) := by
  have hreport := reader.reportAt_restyle style opened .nestingTooDeep
  rw [Style.fault] at hreport
  unfold tooDeep
  rw [hreport, skipBlock_restyle, Array.toList_map]
  rfl

theorem blockReader_restyles (style : Style) (levels : Nat) :
    (blockReader levels).Restyles style := by
  induction levels with
  | zero => exact fun opened before reader => tooDeep_restyle reader opened before
  | succ levels ih =>
      intro opened before reader
      rw [read_blockReader_succ, read_blockReader_succ, depth_restyle]
      split
      · exact block_restyle reader ih before
      · exact tooDeep_restyle reader opened before

theorem document_restyle (style : Style) (reader : TokenReader) :
    (restyle style reader).document =
      reader.document.map (·.restyle style) (restyle style) := by
  have hstrict : (if (restyle style reader).kind = .strict
      then (true, (restyle style reader).advance) else (false, restyle style reader)) =
      (if reader.kind = .strict then (true, reader.advance) else (false, reader)).map id
        (restyle style) := by
    simp only [reader.kind_restyle_eq style .strict rfl, advance_restyle]
    split <;> rfl
  have hstatements := fun reader : TokenReader =>
    statements_restyle reader (blockReader_restyles style maxNesting) #[]
  simp only [Array.map_empty] at hstatements
  unfold document
  simp only [hstrict, position_restyle]
  generalize (if reader.kind = .strict then (true, reader.advance) else (false, reader)) = next
  obtain ⟨strict, next⟩ := next
  have hgraph := next.kind_restyle_eq style .graph rfl
  have hdigraph := next.kind_restyle_eq style .digraph rfl
  simp only [Prod.map_apply, id, hgraph, hdigraph, advance_restyle, ident?_restyle, Prod.map_fst,
    Prod.map_snd]
  rw [expect_restyle style _ rfl]
  simp only [Prod.map_snd, hstatements, Prod.map_fst]
  rw [expect_restyle style _ rfl]
  split
  · simp only [Prod.map_apply, Prod.map_snd, Document.restyle, restyleAll_eq, Array.toList_map]
  · have hreport := next.report_restyle style (.missingHeader next.kind)
    rw [Style.fault] at hreport
    rw [kind_restyle, hreport]
    simp [Document.restyle, restyleAll]

end DotGraph.TokenReader
