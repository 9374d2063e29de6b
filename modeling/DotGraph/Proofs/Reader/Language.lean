import DotGraph.Proofs.Reader.CompleteDocument
import DotGraph.Proofs.Reader.SoundBlock
import DotGraph.Proofs.Tree.Idents

namespace DotGraph

/-! The language that is read, and what is read of it. -/

open Lexeme (Distinct)

namespace TokenStream

theorem diagnostics_parse (stream : TokenStream) :
    stream.parse.diagnostics =
      ((stream.lexemes.take (TokenReader.start stream).document.2.pulled).filterMap
          Lexeme.fault).map LexFault.diagnostic ++
        (TokenReader.start stream).document.2.faults.toList.map ParseFault.diagnostic := rfl

theorem noParseDiagnostic_iff (stream : TokenStream) :
    (∀ diagnostic ∈ stream.parse.diagnostics, diagnostic.kind ≠ .parse) ↔
      (TokenReader.start stream).document.2.faults = #[] := by
  have hlex : ∀ faults : List (Located LexFault),
      ∀ diagnostic ∈ faults.map LexFault.diagnostic, diagnostic.kind ≠ .parse := by
    intro faults diagnostic hmem
    obtain ⟨fault, _, rfl⟩ := List.mem_map.mp hmem
    exact Diagnostic.Kind.noConfusion
  rw [diagnostics_parse]
  constructor
  · intro h
    apply Array.toList_eq_nil_iff.mp
    apply List.eq_nil_iff_forall_not_mem.mpr
    intro fault hmem
    exact h _ (List.mem_append_right _ (List.mem_map_of_mem hmem)) rfl
  · intro h diagnostic hmem
    rcases List.mem_append.mp hmem with hmem | hmem
    · exact hlex _ diagnostic hmem
    · rw [h] at hmem
      exact absurd hmem List.not_mem_nil

/-- An eager derivation of the first tokens is what is read of them. -/
theorem parse_of_eager {stream : TokenStream} {derivation : Grammar.Document}
    (hyields : derivation.yield <+: stream.tokens) (heager : derivation.Eager)
    (hnesting : derivation.nesting ≤ TokenReader.maxNesting) :
    stream.parse.document = derivation.tree ∧
      (TokenReader.start stream).document.2.pulled = derivation.yield.length + 1 ∧
      (TokenReader.start stream).document.2.faults = #[] := by
  obtain ⟨rest, hrest⟩ := hyields
  obtain ⟨target, hdocument, htakes⟩ :=
    @TokenReader.document_returns rest (.start stream) derivation rfl hrest.symm heager hnesting
  refine ⟨?_, ?_, ?_⟩
  · simp only [TokenStream.parse, hdocument]
  · rw [hdocument, htakes.pulled_eq, Nat.add_comm]
    rfl
  · rw [hdocument, htakes.faults_eq]
    rfl

/-- What is read without a fault is an eager derivation of the first tokens. -/
theorem exists_derivation {stream : TokenStream}
    (h : (TokenReader.start stream).document.2.faults = #[]) :
    ∃ derivation : Grammar.Document, derivation.yield <+: stream.tokens ∧ derivation.Eager ∧
      derivation.nesting ≤ TokenReader.maxNesting := by
  obtain ⟨spelling, htakes, derivation, rfl, _, heager, hnesting⟩ :=
    (TokenReader.faultOr_document (.start stream)).takes h
  exact ⟨derivation, ⟨_, htakes.unread_eq.symm⟩, heager, hnesting⟩

end TokenStream

/-- Nothing is reported about the order of the tokens exactly when the first of them have an eager
derivation that is not nested too deep. -/
theorem noParseDiagnostic_iff_eager (filename : String) (bytes : ByteArray) :
    (∀ diagnostic ∈ (parse filename bytes).diagnostics, diagnostic.kind ≠ .parse) ↔
      ∃ derivation : Grammar.Document,
        derivation.yield <+: (TokenStream.ofBytes filename bytes).tokens ∧ derivation.Eager ∧
        derivation.nesting ≤ TokenReader.maxNesting := by
  refine (TokenStream.noParseDiagnostic_iff _).trans ⟨TokenStream.exists_derivation, ?_⟩
  intro ⟨derivation, hyields, heager, hnesting⟩
  exact (TokenStream.parse_of_eager hyields heager hnesting).2.2

private def lexemeAt (offset : Nat) (kind : Token.Kind) (text : String) : Lexeme :=
  ⟨⟨"", offset, 1, offset + 1⟩, ⟨kind, text⟩, none⟩

private def idAt (offset : Nat) (text : String) : Grammar.Id :=
  ⟨lexemeAt offset .ident text, rfl⟩

private def signAt (kind : Token.Kind) (offset : Nat) : Grammar.Sign kind :=
  ⟨lexemeAt offset kind "", beq_self_eq_true kind⟩

/-- Behind an edge operator, braces around a node with attributes are derived as the body of a
subgraph.  They are not read as one. -/
theorem braces_after_edge_rejected :
    (∃ derivation : Grammar.Document, derivation.nesting ≤ TokenReader.maxNesting ∧
      derivation.yield =
        (TokenStream.ofBytes "" "digraph\x7bx->\x7ba[color=red]\x7d\x7d".toUTF8).tokens) ∧
      ∃ diagnostic ∈ (parse "" "digraph\x7bx->\x7ba[color=red]\x7d\x7d".toUTF8).diagnostics,
        diagnostic.kind = .parse := by
  refine ⟨⟨⟨none, ⟨lexemeAt 0 .digraph "digraph", rfl⟩, none, signAt .lBrace 7,
    .cons (.edge (.node ⟨idAt 8 "x", none⟩)
      ⟨⟨lexemeAt 9 .arrow "", rfl⟩, .subgraph (.bare (signAt .lBrace 11)
        (.cons (.node ⟨idAt 12 "a", none⟩ (some ⟨⟨signAt .lBracket 13,
          [⟨idAt 14 "color", some ⟨signAt .equal 19, idAt 20 "red"⟩, none⟩],
          signAt .rBracket 23⟩, []⟩)) none .nil)
        (signAt .rBrace 24))⟩ .nil none) none .nil,
    signAt .rBrace 25⟩, ?_, ?_⟩, ?_⟩
  · decide
  · decide +kernel
  · decide +kernel

/-- What is read without a complaint about the order of the tokens is derived by the grammar, and the
tree is that of the derivation: no token is lost, and no name is read twice. -/
theorem exists_derivation_of_parse (filename : String) (bytes : ByteArray)
    (h : ∀ diagnostic ∈ (parse filename bytes).diagnostics, diagnostic.kind ≠ .parse) :
    ∃ (derivation : Grammar.Document) (lookAhead : Lexeme) (rest : List Lexeme),
      (TokenStream.ofBytes filename bytes).lexemes = derivation.yield ++ lookAhead :: rest ∧
      (TokenReader.start (TokenStream.ofBytes filename bytes)).document.2.pulled =
        derivation.yield.length + 1 ∧
      (parse filename bytes).document = derivation.tree ∧
      (parse filename bytes).document.idents = Lexeme.idents derivation.yield := by
  obtain ⟨derivation, hyields, heager, hnesting⟩ :=
    TokenStream.exists_derivation ((TokenStream.noParseDiagnostic_iff _).mp h)
  obtain ⟨htree, hpulled, _⟩ := TokenStream.parse_of_eager hyields heager hnesting
  have htree : (parse filename bytes).document = derivation.tree := htree
  obtain ⟨behind, hbehind⟩ := hyields
  have hlexemes : (TokenStream.ofBytes filename bytes).lexemes =
      derivation.yield ++ (behind ++ [(TokenStream.ofBytes filename bytes).finish]) := by
    rw [TokenStream.lexemes, ← hbehind, List.append_assoc]
  obtain ⟨lookAhead, rest, hrest⟩ := List.exists_cons_of_ne_nil
    (List.append_ne_nil_of_right_ne_nil behind
      (List.cons_ne_nil (TokenStream.ofBytes filename bytes).finish []))
  have hdistinct : Distinct (TokenStream.ofBytes filename bytes).lexemes :=
    TokenStream.position_nodup filename _
  rw [hlexemes] at hdistinct
  exact ⟨derivation, lookAhead, rest, hlexemes.trans (congrArg _ hrest), hpulled, htree,
    htree ▸ derivation.idents_tree hdistinct.left⟩

theorem exists_derivation_of_parse_attributes :
    (∀ diagnostic ∈ (parse "" "graph\x7ba:n[b c=\"d\"]; a--\x7be; f\x7d\x7d".toUTF8).diagnostics,
      diagnostic.kind ≠ .parse) ∧
    ∃ (derivation : Grammar.Document) (lookAhead : Lexeme) (rest : List Lexeme),
      (TokenStream.ofBytes "" "graph\x7ba:n[b c=\"d\"]; a--\x7be; f\x7d\x7d".toUTF8).lexemes =
        derivation.yield ++ lookAhead :: rest ∧
      (TokenReader.start (TokenStream.ofBytes ""
        "graph\x7ba:n[b c=\"d\"]; a--\x7be; f\x7d\x7d".toUTF8)).document.2.pulled =
        derivation.yield.length + 1 ∧
      (parse "" "graph\x7ba:n[b c=\"d\"]; a--\x7be; f\x7d\x7d".toUTF8).document =
        derivation.tree ∧
      (parse "" "graph\x7ba:n[b c=\"d\"]; a--\x7be; f\x7d\x7d".toUTF8).document.idents =
        Lexeme.idents derivation.yield :=
  ⟨by decide +kernel, exists_derivation_of_parse "" _ (by decide +kernel)⟩

end DotGraph
