import DotGraph.Proofs.Reader.Layout
import DotGraph.Proofs.Token.Coordinates

namespace DotGraph

/-! Whatever is told about a text, tokens and diagnostics alike, is told with its true place. -/

open Scanner (Run)

variable (filename : String) (bytes : ByteArray)

theorem standsIn_tokenize :
    ∀ token ∈ (tokenize filename bytes).1,
      Token.StandsIn filename (Text.decodeLossy bytes) token := by
  intro token hmem
  obtain ⟨lexeme, hlexeme, rfl⟩ := List.mem_map.mp hmem
  obtain ⟨place, hplace, rfl⟩ := List.mem_iff_getElem.mp hlexeme
  have hrun := Run.afterTokens filename (Text.decodeLossy bytes) place
  have hread : ((Scanner.ofText filename (Text.decodeLossy bytes)).afterTokens place).nextToken.1 =
      ((TokenStream.ofBytes filename bytes).lexemeAt place).located :=
    Scanner.nextToken_afterTokens_ofText filename (Text.decodeLossy bytes) place
  rw [TokenStream.lexemeAt_of_lt hplace] at hread
  have hend := TokenStream.isEnd_of_mem_tokens hlexeme
  have hkind : (TokenStream.ofBytes filename bytes).tokens[place].token.kind ≠ .endOfInput :=
    of_decide_eq_false hend
  have hstands := hrun.standsIn_of_token (by rw [hread]; exact hkind)
  rw [hread] at hstands
  exact hstands

theorem isIn_lexemeAt (place : Nat) :
    ((TokenStream.ofBytes filename bytes).lexemeAt place).position.IsIn filename
      (Text.decodeLossy bytes) := by
  have hrun := (Run.afterTokens filename (Text.decodeLossy bytes) place).isIn_nextToken
  rw [Scanner.nextToken_afterTokens_ofText] at hrun
  exact hrun

theorem isIn_diagnostics_tokenize :
    ∀ diagnostic ∈ (tokenize filename bytes).2,
      diagnostic.position.IsIn filename (Text.decodeLossy bytes) := by
  have hall := Scanner.diagnostics_afterTokens_of_lt (Nat.lt_succ_self
    (TokenStream.ofText filename (Text.decodeLossy bytes)).tokens.length)
  have hrun := (Run.afterTokens filename (Text.decodeLossy bytes)
    ((TokenStream.ofText filename (Text.decodeLossy bytes)).tokens.length + 1)).position_diagnostics
  rw [hall] at hrun
  exact hrun

theorem isIn_diagnostics_parse :
    ∀ diagnostic ∈ (parse filename bytes).diagnostics,
      diagnostic.position.IsIn filename (Text.decodeLossy bytes) := by
  intro diagnostic hmem
  rw [diagnostics_parse, ← syntactic_parse] at hmem
  rcases List.mem_append.mp hmem with hlexical | hsyntactic
  · exact (Run.afterTokens filename (Text.decodeLossy bytes) _).position_diagnostics _ hlexical
  · have hposition := List.mem_map_of_mem (f := Diagnostic.position) hsyntactic
    rw [positions_syntactic] at hposition
    obtain ⟨place, _, hplace⟩ := List.mem_map.mp hposition
    rw [← hplace]
    exact isIn_lexemeAt filename bytes place

/-- Whoever reads a text in whatever way is told its true places, and tokens come in their order. -/
theorem positions_are_coordinates :
    (∀ scanner, Run filename (Text.decodeLossy bytes) scanner →
      (scanner.nextToken.1.value.kind = .endOfInput →
        scanner.nextToken.1.position = .coordinates filename (Text.decodeLossy bytes)) ∧
      (scanner.nextToken.1.value.kind ≠ .endOfInput →
        Token.StandsIn filename (Text.decodeLossy bytes) scanner.nextToken.1 ∧
        scanner.nextToken.1.position.offset < scanner.nextToken.2.nextToken.1.position.offset) ∧
      ∀ diagnostic ∈ scanner.diagnostics,
        diagnostic.position.IsIn filename (Text.decodeLossy bytes)) ∧
    (∀ token ∈ (tokenize filename bytes).1,
      Token.StandsIn filename (Text.decodeLossy bytes) token) ∧
    ((tokenize filename bytes).1.map (·.position.offset)).Pairwise (· < ·) ∧
    (∀ diagnostic ∈ (tokenize filename bytes).2,
      diagnostic.position.IsIn filename (Text.decodeLossy bytes)) ∧
    ∀ diagnostic ∈ (parse filename bytes).diagnostics,
      diagnostic.position.IsIn filename (Text.decodeLossy bytes) := by
  exact ⟨fun scanner hrun => ⟨hrun.position_of_end, fun htoken =>
    ⟨hrun.standsIn_of_token htoken, scanner.offset_lt_nextToken htoken⟩,
    hrun.position_diagnostics⟩, standsIn_tokenize filename bytes,
    offset_pairwise_tokenize filename bytes, isIn_diagnostics_tokenize filename bytes,
    isIn_diagnostics_parse filename bytes⟩

end DotGraph
