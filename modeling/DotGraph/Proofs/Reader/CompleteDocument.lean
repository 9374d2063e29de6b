import DotGraph.Proofs.Reader.CompleteBlock

namespace DotGraph.TokenReader

open DotGraph.Grammar

variable {inner : BlockReader} {levels : Nat} {rest : List Lexeme}

theorem leading_body (semicolon : Option (Sign .semicolon)) (body : Statements)
    (closing : Sign .rBrace) :
    leading .endOfInput
        (semicolon.elim [] Terminal.yield ++ (body.yield ++ (closing.yield ++ rest))) =
      leading .rBrace (semicolon.elim [] Terminal.yield ++ body.yield) := by
  simp only [leading_append, leading_sign]

/-- No statement starts with a semicolon. -/
theorem leading_body_ne (body : Statements) (closing : Sign .rBrace) :
    leading .endOfInput (body.yield ++ (closing.yield ++ rest)) ≠ .semicolon := by
  cases body with
  | nil => simp [Statements.yield, leading_append]
  | cons statement semicolon body =>
      have hstarts := startsStatement_leading .endOfInput statement
        (semicolon.elim [] Terminal.yield ++ (body.yield ++ (closing.yield ++ rest)))
      rw [Statements.yield, List.append_assoc, List.append_assoc]
      exact ne_of_admits hstarts (by decide)

theorem endsBlock_of_startsStatement {reader : TokenReader} (h : startsStatement reader.kind) :
    reader.endsBlock = false := by
  revert h
  unfold endsBlock
  cases reader.kind <;> decide

theorem statements_returns (hinner : inner.Complete levels) (closing : Sign .rBrace) :
    (body : Statements) → (before : Array Tree.Statement) → {reader : TokenReader} →
    reader.HasRoom levels →
    reader.unread = body.yield ++ (closing.yield ++ rest) → body.Eager → body.nesting ≤ levels →
    reader.Returns (reader.statements inner before) body.yield (before ++ body.trees.toArray)
  | .nil, before, reader, _, h, _, _ => by
      have hkind : reader.kind = .rBrace := by
        rw [kind_eq_leading, h, Statements.yield, List.nil_append, leading_append, leading_sign]
      rw [TokenReader.statements, dif_pos (by simp [endsBlock, hkind])]
      exact ⟨reader, by simp [Statements.trees], .refl reader⟩
  | .cons statement semicolon body, before, reader, hroom, h, heager, hnesting => by
      have hunread : reader.unread = statement.yield ++ (semicolon.elim [] Terminal.yield ++
          (body.yield ++ (closing.yield ++ rest))) := by
        rw [h]
        simp only [Statements.yield, List.append_assoc]
      have hstarts : startsStatement reader.kind := by
        rw [kind_eq_leading, hunread]
        exact startsStatement_leading _ _ _
      obtain ⟨second, hstatement, htakes⟩ := statement_returns hinner hroom hunread
        (followsStatement_leading semicolon body closing .endOfInput rest)
        (by rw [leading_body]; exact heager.1) (Nat.le_trans (Nat.le_max_left _ _) hnesting)
      have hsecond := htakes.unread_of_append hunread
      have hskip := skipOver_takes [.semicolon] hsecond
        (by intro kind; cases kind <;> decide)
        (fun _ hmem => leading_body_ne body closing (List.mem_singleton.mp hmem))
      obtain ⟨third, hbody, htakesBody⟩ := statements_returns hinner closing body
        (before.push statement.tree) ((htakes.trans hskip).hasRoom hroom)
        (hskip.unread_of_append hsecond) heager.2
        (Nat.le_trans (Nat.le_max_right _ _) hnesting)
      refine ⟨third, ?_, ?_⟩
      · rw [TokenReader.statements, dif_neg (by rw [endsBlock_of_startsStatement hstarts]; decide)]
        have hpush : before ++ (some statement.tree).toArray = before.push statement.tree := by
          simp
        simp only [hstatement, hpush, hbody]
        simp [Statements.trees]
      · simpa only [Statements.yield, List.append_assoc] using
          htakes.trans (hskip.trans htakesBody)

theorem hasRoom_enter {reader : TokenReader} (h : reader.HasRoom (levels + 1)) :
    reader.enter.HasRoom levels := by
  unfold HasRoom at h ⊢
  change reader.depth + 1 + levels ≤ maxNesting
  omega

theorem block_returns (hinner : inner.Complete levels) (before : Array Tree.Statement)
    {reader : TokenReader} {semicolon : Option (Sign .semicolon)} {body : Statements}
    {closing : Sign .rBrace} (hroom : reader.HasRoom (levels + 1))
    (h : reader.unread =
      semicolon.elim [] Terminal.yield ++ (body.yield ++ (closing.yield ++ rest)))
    (hsemicolon : before.isEmpty → semicolon = none) (heager : body.Eager)
    (hnesting : body.nesting ≤ levels) :
    reader.Returns (reader.block inner before)
      (semicolon.elim [] Terminal.yield ++ (body.yield ++ closing.yield))
      (before.toList ++ body.trees) := by
  have henter : reader.enter.unread =
      semicolon.elim [] Terminal.yield ++ (body.yield ++ (closing.yield ++ rest)) := h
  have hskip : reader.enter.Takes (semicolon.elim [] Terminal.yield)
      (if before.isEmpty then reader.enter else reader.enter.skipOver [.semicolon]) := by
    split
    · rename_i hempty
      obtain rfl := hsemicolon hempty
      exact .refl reader.enter
    · apply skipOver_takes [.semicolon] henter
      · intro kind
        cases kind <;> decide
      · intro _ hmem
        exact leading_body_ne body closing (List.mem_singleton.mp hmem)
  obtain ⟨third, hbody, htakes⟩ := statements_returns hinner closing body before
    (hskip.hasRoom (hasRoom_enter hroom)) (hskip.unread_of_append henter) heager hnesting
  have hinside := (hskip.trans htakes).enclose
  rw [← List.append_assoc] at h
  obtain ⟨fourth, hexpect, htakesClosing⟩ := expect_returns (hinside.unread_of_append h)
  refine ⟨fourth, ?_, by simpa only [List.append_assoc] using hinside.trans htakesClosing⟩
  simp only [block, hbody, hexpect]
  simp

theorem blockReader_complete (levels : Nat) : (blockReader levels).Complete levels := by
  induction levels with
  | zero =>
      intro opened before reader semicolon body closing rest _ _ _ _ hnesting
      exact absurd hnesting (Nat.not_lt_zero _)
  | succ levels ih =>
      intro opened before reader semicolon body closing rest hroom h hsemicolon heager hnesting
      have hopen : reader.depth < maxNesting := Nat.lt_of_lt_of_le (by omega) hroom
      rw [read_blockReader_succ, if_pos hopen]
      exact block_returns ih before hroom h hsemicolon heager (Nat.le_of_lt_succ hnesting)

/-- A reader that comes to an eager derivation of a description returns its tree, and notes no
fault. -/
theorem document_returns {reader : TokenReader} {document : Grammar.Document}
    (hdepth : reader.depth = 0) (h : reader.unread = document.yield ++ rest)
    (heager : document.Eager)
    (hnesting : document.nesting ≤ maxNesting) :
    reader.Returns reader.document document.yield document.tree := by
  have hunread : reader.unread = document.strict.elim [] Terminal.yield ++
      (document.header.yield ++ (document.id.elim [] Terminal.yield ++ (document.opening.yield ++
        (document.statements.yield ++ (document.closing.yield ++ rest))))) := by
    rw [h]
    simp only [Document.yield, List.append_assoc]
  have hstrict : ∃ second, reader.Takes (document.strict.elim [] Terminal.yield) second ∧
      (if reader.kind = .strict then (true, reader.advance) else (false, reader)) =
        (document.strict.isSome, second) ∧
      reader.position = document.strict.elim document.header.position Terminal.position := by
    cases hstrict : document.strict with
    | none =>
        rw [hstrict] at hunread
        refine ⟨reader, .refl reader, ?_, position_eq hunread⟩
        rw [if_neg]
        · rfl
        · rw [kind_of_unread_terminal hunread]
          exact document.header.kind_ne rfl
    | some strict =>
        rw [hstrict] at hunread
        refine ⟨reader.advance, takes_advance_terminal hunread, ?_, position_eq hunread⟩
        rw [if_pos (kind_of_unread_sign hunread)]
        rfl
  obtain ⟨second, htakesStrict, hstrict, hposition⟩ := hstrict
  have hsecond := htakesStrict.unread_of_append hunread
  have hheader : document.header.kind = .graph ∨ document.header.kind = .digraph := by
    have hadmitted : isHeader document.header.kind := document.header.admitted
    simpa [isHeader] using hadmitted
  obtain ⟨third, hid, htakesId⟩ := ident?_returns (unread_advance hsecond)
    (by simp [leading_append, Token.Kind.isId])
  have hthird := htakesId.unread_of_append (unread_advance hsecond)
  obtain ⟨fourth, hexpect, htakesOpening⟩ := expect_returns hthird
  have hfourth := htakesOpening.unread_of_append hthird
  have htakesHeader := htakesStrict.trans ((takes_advance_terminal hsecond).trans
    (htakesId.trans htakesOpening))
  have hroom : reader.HasRoom maxNesting := Nat.le_of_eq (by rw [hdepth, Nat.zero_add])
  obtain ⟨fifth, hbody, htakesBody⟩ := statements_returns (blockReader_complete maxNesting)
    document.closing document.statements #[] (htakesHeader.hasRoom hroom) hfourth heager hnesting
  obtain ⟨sixth, hexpectClosing, htakesClosing⟩ :=
    expect_returns (htakesBody.unread_of_append hfourth)
  refine ⟨sixth, ?_, ?_⟩
  · simp only [TokenReader.document, hstrict, hid, hexpect, hbody, hexpectClosing, hposition,
      kind_of_unread_terminal hsecond]
    rw [if_pos (by simpa using hheader)]
    simp [Document.tree, Terminal.kind]
  · simpa only [Document.yield, List.append_assoc] using
      htakesHeader.trans (htakesBody.trans htakesClosing)

end DotGraph.TokenReader
