import DotGraph.Proofs.Reader.Moves

namespace DotGraph.TokenReader

/-! Whatever is read, the reader goes on from token to token, notes faults, and goes out of each
block that it goes into. -/

open DotGraph.Tree

/-- Going on, noting faults, and going through blocks from end to end lead from one reader to the
other. -/
inductive Proceeds : TokenReader → TokenReader → Prop where
  | refl (reader : TokenReader) : Proceeds reader reader
  | advance {source target : TokenReader} (h : Proceeds source target) :
      Proceeds source target.advance
  | reportAt {source target : TokenReader} (h : Proceeds source target) (position : Position)
      (fault : ParseFault) : Proceeds source (target.reportAt position fault)
  | block {source target last : TokenReader} (h : Proceeds source target)
      (hinside : Proceeds target.enter last) : Proceeds source last.leave

namespace Proceeds

theorem trans {first second third : TokenReader} (h : first.Proceeds second)
    (k : second.Proceeds third) : first.Proceeds third := by
  induction k with
  | refl _ => exact h
  | advance _ ih => exact (ih h).advance
  | reportAt _ position fault ih => exact (ih h).reportAt position fault
  | block _ hinside ih _ => exact (ih h).block hinside

theorem report {source target : TokenReader} (h : source.Proceeds target) (fault : ParseFault) :
    source.Proceeds (target.report fault) :=
  h.reportAt _ fault

/-- As many blocks are open behind as in front. -/
theorem depth_eq {source target : TokenReader} (h : source.Proceeds target) :
    target.depth = source.depth := by
  induction h with
  | refl _ => rfl
  | advance _ ih => exact ih
  | reportAt _ _ _ ih => exact ih
  | @block source target last _ _ ih ihinside =>
      change last.depth - 1 = source.depth
      rw [ihinside, ← ih]
      rfl

end Proceeds

open Proceeds (refl)

theorem Moves.proceeds {source target : TokenReader} (h : source.Moves target) :
    source.Proceeds target := by
  induction h with
  | refl => exact Proceeds.refl source
  | advance _ ih => exact ih.advance
  | reportAt _ position _ ih => exact ih.reportAt position _

theorem Moves.depth_eq {source target : TokenReader} (h : source.Moves target) :
    target.depth = source.depth :=
  h.proceeds.depth_eq

/-- Reading a block goes on like this. -/
def BlockReader.Proceeds (inner : BlockReader) : Prop :=
  ∀ opened before reader, TokenReader.Proceeds reader (inner.read opened before reader).2

section

variable {inner : BlockReader} (hinner : inner.Proceeds)
include hinner

theorem proceeds_subgraph (reader : TokenReader) : reader.Proceeds (reader.subgraph inner).2 :=
  ((moves_subgraphName reader).trans (moves_expect _ _)).proceeds.trans (hinner _ _ _)

theorem proceeds_groupOrSubgraph (reader : TokenReader) :
    reader.Proceeds (reader.groupOrSubgraph inner).2 := by
  have hnodes := ((moves_expect reader .lBrace).trans (moves_nodeIds #[] _)).proceeds
  unfold groupOrSubgraph
  simp only
  split
  · exact hnodes.advance
  · exact hnodes.trans (hinner _ _ _)

theorem proceeds_endpoint (reader : TokenReader) : reader.Proceeds (reader.endpoint inner).2 := by
  unfold endpoint
  split
  · exact proceeds_subgraph hinner reader
  split
  · exact proceeds_groupOrSubgraph hinner reader
  split
  · exact (moves_nodeId reader).proceeds
  · exact (refl reader).report _

theorem proceeds_hops (before : Array Hop) (reader : TokenReader) :
    reader.Proceeds (reader.hops inner before).2 := by
  fun_induction hops inner before reader with
  | case1 before reader _ _ _ _ ih =>
      exact ((refl reader).advance.trans (proceeds_endpoint hinner _)).trans ih
  | case2 before reader _ _ _ => exact (refl reader).advance.trans (proceeds_endpoint hinner _)
  | case3 before reader _ => exact refl reader

theorem proceeds_edgeStatement (left : Endpoint) (reader : TokenReader) :
    reader.Proceeds (reader.edgeStatement inner left).2 :=
  (proceeds_hops hinner #[] reader).trans (moves_attributeList? _).proceeds

theorem proceeds_identStatement (reader : TokenReader) :
    reader.Proceeds (reader.identStatement inner).2 := by
  refine (moves_ident reader).proceeds.trans ?_
  unfold identStatement
  simp only
  split
  · exact (moves_assignment _ _).proceeds
  split
  · exact (moves_port? _).proceeds.trans (proceeds_edgeStatement hinner
      (.node ⟨reader.ident.1.position, reader.ident.1, reader.ident.2.port?.1⟩) _)
  · exact ((moves_port? _).trans (moves_attributeList? _)).proceeds

theorem proceeds_subgraphStatement (reader : TokenReader) :
    reader.Proceeds (reader.subgraphStatement inner).2 := by
  refine (proceeds_subgraph hinner reader).trans ?_
  unfold subgraphStatement
  simp only
  split
  · exact proceeds_edgeStatement hinner _ _
  · exact refl _

theorem proceeds_statement (reader : TokenReader) : reader.Proceeds (reader.statement inner).2 := by
  unfold statement
  split
  · exact (moves_defaultsStatement .graph reader).proceeds
  · exact (moves_defaultsStatement .node reader).proceeds
  · exact (moves_defaultsStatement .edge reader).proceeds
  · exact proceeds_subgraphStatement hinner reader
  · exact proceeds_subgraphStatement hinner reader
  · exact proceeds_identStatement hinner reader
  · exact proceeds_identStatement hinner reader
  · exact proceeds_identStatement hinner reader
  · exact ((refl reader).report _).advance

theorem proceeds_statements (before : Array Statement) (reader : TokenReader) :
    reader.Proceeds (reader.statements inner before).2 := by
  fun_induction statements inner before reader with
  | case1 before reader _ => exact refl reader
  | case2 before reader _ _ ih =>
      exact ((proceeds_statement hinner reader).trans (moves_skipOver _ _).proceeds).trans ih

theorem proceeds_block (before : Array Statement) (reader : TokenReader) :
    reader.Proceeds (reader.block inner before).2 :=
  ((refl reader).block ((moves_separator before reader.enter).proceeds.trans
    (proceeds_statements hinner before _))).trans (moves_expect _ _).proceeds

end

theorem proceeds_tooDeep (opened : Position) (before : Array Statement) (reader : TokenReader) :
    reader.Proceeds (reader.tooDeep opened before).2 :=
  ((refl reader).reportAt opened _).trans (moves_skipBlock _ _).proceeds

theorem proceeds_blockReader (levels : Nat) : (blockReader levels).Proceeds := by
  induction levels with
  | zero => exact proceeds_tooDeep
  | succ levels ih =>
      intro opened before reader
      rw [read_blockReader_succ]
      split
      · exact proceeds_block ih before reader
      · exact proceeds_tooDeep opened before reader

theorem proceeds_document (reader : TokenReader) : reader.Proceeds reader.document.2 := by
  have hstrict := (moves_strict reader).proceeds
  unfold document
  generalize (if reader.kind = .strict then (true, reader.advance) else (false, reader)) = next
    at hstrict ⊢
  refine hstrict.trans ?_
  simp only
  split
  · exact (moves_header next.2).proceeds.trans
      ((proceeds_statements (proceeds_blockReader _) _ _).trans (moves_expect _ _).proceeds)
  · exact (refl _).report _

end DotGraph.TokenReader
