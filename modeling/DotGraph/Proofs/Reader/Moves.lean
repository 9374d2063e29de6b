import DotGraph.Tree.Document

namespace DotGraph.TokenReader

/-! Readers of what is flat go on from token to token and note what does not fit, and do nothing
else. -/

open DotGraph.Tree

/-- Going on, and noting faults other than that a block is too deep, leads from one reader to the
other. -/
inductive Moves (source : TokenReader) : TokenReader → Prop where
  | refl : Moves source source
  | advance {target : TokenReader} (h : Moves source target) : Moves source target.advance
  | reportAt {target : TokenReader} (h : Moves source target) (position : Position)
      {fault : ParseFault} (hfault : fault ≠ .nestingTooDeep) :
      Moves source (target.reportAt position fault)

namespace Moves

theorem trans {first second third : TokenReader} (h : first.Moves second)
    (k : second.Moves third) : first.Moves third := by
  induction k with
  | refl => exact h
  | advance _ ih => exact ih.advance
  | reportAt _ position hfault ih => exact ih.reportAt position hfault

theorem report {source target : TokenReader} (h : source.Moves target) {fault : ParseFault}
    (hfault : fault ≠ .nestingTooDeep) : source.Moves (target.report fault) :=
  h.reportAt _ hfault

end Moves

open Moves (refl)

theorem moves_expect (reader : TokenReader) (wanted : Token.Kind) :
    reader.Moves (reader.expect wanted).2 := by
  unfold expect
  split
  · exact refl.advance
  · exact Moves.advance (refl.report nofun)

theorem moves_skipOver (reader : TokenReader) (kinds : List Token.Kind) :
    reader.Moves (reader.skipOver kinds) := by
  unfold skipOver
  split
  · exact refl.advance
  · exact refl

theorem moves_ident (reader : TokenReader) : reader.Moves reader.ident.2 := by
  unfold ident
  split
  · exact refl.advance
  · exact Moves.advance (refl.report nofun)

theorem moves_ident? (reader : TokenReader) : reader.Moves reader.ident?.2 := by
  unfold ident?
  split
  · exact moves_ident reader
  · exact refl

theorem moves_subgraphName (reader : TokenReader) :
    reader.Moves (if reader.kind = .subgraph then reader.advance.ident? else (none, reader)).2 := by
  split
  · exact refl.advance.trans (moves_ident? _)
  · exact refl

theorem moves_strict (reader : TokenReader) :
    reader.Moves
      (if reader.kind = .strict then (true, reader.advance) else (false, reader)).2 := by
  split
  · exact refl.advance
  · exact refl

/-- From the keyword of a description into its braces. -/
theorem moves_header (reader : TokenReader) :
    reader.Moves (reader.advance.ident?.2.expect .lBrace).2 :=
  (refl.advance.trans (moves_ident? _)).trans (moves_expect _ _)

theorem moves_separator (before : Array Statement) (reader : TokenReader) :
    reader.Moves (if before.isEmpty then reader else reader.skipOver [.semicolon]) := by
  split
  · exact refl
  · exact moves_skipOver _ _

theorem moves_compass? (reader : TokenReader) : reader.Moves reader.compass?.2 := by
  unfold compass?
  split
  · exact refl.advance.trans (moves_ident? _)
  · exact refl

theorem moves_port (reader : TokenReader) : reader.Moves reader.port.2 :=
  ((moves_expect reader .colon).trans (moves_ident? _)).trans (moves_compass? _)

theorem moves_port? (reader : TokenReader) : reader.Moves reader.port?.2 := by
  unfold port?
  split
  · exact moves_port reader
  · exact refl

theorem moves_nodeId (reader : TokenReader) : reader.Moves reader.nodeId.2 :=
  (moves_ident reader).trans (moves_port? _)

theorem moves_attributeValue (reader : TokenReader) (key : Ident) :
    reader.Moves (reader.attributeValue key).2 := by
  unfold attributeValue
  split
  · simp only
    split
    · exact refl.advance.trans (moves_ident _)
    · exact refl.advance.report nofun
  · exact refl

theorem moves_oneAttribute (reader : TokenReader) : reader.Moves reader.oneAttribute.2 :=
  ((moves_ident reader).trans (moves_attributeValue _ _)).trans (moves_skipOver _ _)

theorem moves_nodeIds (before : Array NodeId) (reader : TokenReader) :
    reader.Moves (reader.nodeIds before).2 := by
  fun_induction nodeIds before reader with
  | case1 before reader _ _ ih => exact (moves_nodeId reader).trans ih
  | case2 before reader _ => exact refl

theorem moves_attributes (before : Array Attribute) (reader : TokenReader) :
    reader.Moves (reader.attributes before).2 := by
  fun_induction attributes before reader with
  | case1 before reader _ _ ih => exact (moves_oneAttribute reader).trans ih
  | case2 before reader _ => exact refl

theorem moves_bracket (before : Array Attribute) (reader : TokenReader) :
    reader.Moves (reader.bracket before).2 :=
  (refl.advance.trans (moves_attributes _ _)).trans (moves_expect _ _)

theorem moves_brackets (before : Array Attribute) (reader : TokenReader) :
    reader.Moves (reader.brackets before).2 := by
  fun_induction brackets before reader with
  | case1 before reader _ _ ih => exact (moves_bracket before reader).trans ih
  | case2 before reader _ => exact refl

theorem moves_attributeList? (reader : TokenReader) :
    reader.Moves reader.attributeList?.2 := by
  unfold attributeList?
  split
  · exact moves_brackets #[] reader
  · exact refl

theorem moves_assignment (key : Ident) (reader : TokenReader) :
    reader.Moves (reader.assignment key).2 := by
  unfold assignment
  simp only
  split
  · exact refl.advance.trans (moves_ident _)
  · exact refl.advance.report nofun

theorem moves_defaultsStatement (subject : Subject) (reader : TokenReader) :
    reader.Moves (reader.defaultsStatement subject).2 :=
  refl.advance.trans (moves_attributeList? _)

theorem moves_skipBlock (opened : Nat) (reader : TokenReader) :
    reader.Moves (reader.skipBlock opened) := by
  fun_induction skipBlock opened reader with
  | case1 opened reader _ => exact refl
  | case3 reader _ _ _ => exact refl.advance
  | case2 opened reader _ _ ih | case4 reader _ _ _ opened ih | case5 opened reader _ _ _ ih =>
      exact refl.advance.trans ih

end DotGraph.TokenReader
