import DotGraph.Proofs.Reader.Pulls
import DotGraph.Proofs.Token.Scanning

namespace DotGraph

/-! A parser meets the faults of a text in their order, as far as it reads. -/

def TokenReader.lookAhead (reader : TokenReader) : Located Token :=
  ⟨reader.position, ⟨reader.kind, reader.text⟩⟩

namespace TokenReader

variable {filename : String} {text : List Char} {reader : TokenReader}

theorem Pulls.unread_start {stream : TokenStream} (h : (start stream).Pulls reader) :
    reader.unread = stream.tokens.drop (reader.pulled - 1) :=
  h.unread_eq

/-- What a reader sees of a stream is the token whose turn it is. -/
theorem Pulls.lookAhead_eq (h : (start (TokenStream.ofText filename text)).Pulls reader) :
    reader.lookAhead =
      ((TokenStream.ofText filename text).lexemeAt (reader.pulled - 1)).located := by
  have hunread := h.unread_start
  have hfinish : reader.finish = (TokenStream.ofText filename text).finish.position := h.finish_eq
  rw [TokenStream.lexemeAt, ← List.head?_drop, ← hunread]
  cases hleft : reader.unread with
  | nil =>
      have hlook : reader.lookAhead = ⟨reader.finish, .punctuation .endOfInput⟩ := by
        simp only [lookAhead, position, kind, TokenReader.text, hleft]
        rfl
      rw [hlook, hfinish, List.head?_nil, Option.getD_none, Lexeme.located,
        TokenStream.token_finish]
  | cons lexeme rest =>
      simp only [lookAhead, position, kind, TokenReader.text, hleft]
      rfl

/-- A reader that sees the end of input has gone over all tokens. -/
theorem Pulls.length_lt_pulled (h : (start (TokenStream.ofText filename text)).Pulls reader)
    (hend : reader.kind = .endOfInput) :
    (TokenStream.ofText filename text).tokens.length < reader.pulled := by
  have hpulled : 1 ≤ reader.pulled := h.pulled_le
  have hunread := h.unread_start
  cases hleft : reader.unread with
  | nil =>
      rw [hleft] at hunread
      have hlength := List.drop_eq_nil_iff.mp hunread.symm
      omega
  | cons lexeme rest =>
      have hmem : lexeme ∈ (TokenStream.ofText filename text).tokens := by
        apply List.mem_of_mem_drop
        rw [← hunread, hleft]
        exact List.mem_cons_self
      have hkind : lexeme.token.kind = .endOfInput := by
        rw [← hend]
        simp only [kind, hleft]
      have hother := TokenStream.isEnd_of_mem_tokens hmem
      simp [Lexeme.isEnd, hkind] at hother

end TokenReader

/-- The reader that a parse ends with. -/
def lastReader (filename : String) (bytes : ByteArray) : TokenReader :=
  (TokenReader.start (TokenStream.ofBytes filename bytes)).document.2

theorem pulls_lastReader (filename : String) (bytes : ByteArray) :
    (TokenReader.start (TokenStream.ofBytes filename bytes)).Pulls (lastReader filename bytes) :=
  (TokenReader.proceeds_document _).pulls

theorem diagnostics_parse (filename : String) (bytes : ByteArray) :
    (parse filename bytes).diagnostics =
      ((Scanner.ofBytes filename bytes).afterTokens
          (lastReader filename bytes).pulled).diagnostics ++
        (lastReader filename bytes).faults.toList.map ParseFault.diagnostic := by
  rw [Scanner.diagnostics, Scanner.ofBytes, Scanner.faults_afterTokens_ofText]
  rfl

/-- What a parse reports is what is wrong with the tokens that it pulled, its look-ahead the last of
them, and then what is wrong with their order. -/
theorem lexicalPart_parse (filename : String) (bytes : ByteArray) :
    ∃ before lexical syntactic,
      (parse filename bytes).diagnostics = lexical ++ syntactic ∧
      (∀ diagnostic ∈ lexical, diagnostic.kind = .lex) ∧
      (∀ diagnostic ∈ syntactic, diagnostic.kind = .parse) ∧
      (lastReader filename bytes).pulled = before + 1 ∧
      ((Scanner.ofBytes filename bytes).afterTokens before).nextToken.1 =
        (lastReader filename bytes).lookAhead ∧
      lexical = ((Scanner.ofBytes filename bytes).afterTokens (before + 1)).diagnostics ∧
      lexical <+: (tokenize filename bytes).2 ∧
      ((lastReader filename bytes).kind = .endOfInput →
        lexical = (tokenize filename bytes).2 ∧
        ∀ more, ((Scanner.ofBytes filename bytes).afterTokens (before + 1 + more)).diagnostics =
          lexical) ∧
      (tokenize filename bytes).2.Nodup := by
  have hpulls := pulls_lastReader filename bytes
  obtain ⟨before, hbefore⟩ := Nat.exists_eq_add_of_le' hpulls.pulled_le
  have hparse := diagnostics_parse filename bytes
  have hlook := hpulls.lookAhead_eq
  rw [hbefore] at hparse hlook
  refine ⟨before, _, _, hparse, ?_, ?_, hbefore, ?_, rfl, ?_, ?_, ?_⟩
  · intro diagnostic hmem
    obtain ⟨_, _, rfl⟩ := List.mem_map.mp hmem
    rfl
  · intro diagnostic hmem
    obtain ⟨_, _, rfl⟩ := List.mem_map.mp hmem
    rfl
  · rw [hlook]
    exact Scanner.nextToken_afterTokens_ofText filename _ before
  · exact Scanner.diagnostics_afterTokens_isPrefix filename _ _
  · intro hend
    have hlength := hpulls.length_lt_pulled hend
    rw [hbefore] at hlength
    have hall : ∀ more,
        ((Scanner.ofBytes filename bytes).afterTokens (before + 1 + more)).diagnostics =
          (tokenize filename bytes).2 := fun more =>
      Scanner.diagnostics_afterTokens_of_lt (Nat.lt_of_lt_of_le hlength (Nat.le_add_right _ more))
    exact ⟨hall 0, fun more => (hall more).trans (hall 0).symm⟩
  · exact TokenStream.diagnostics_nodup filename _

/-- A parse that stops before a text that is never closed does not hear of it. -/
example :
    (parse "" "x \"".toUTF8).diagnostics.map Diagnostic.kind = [.parse] ∧
      (tokenize "" "x \"".toUTF8).2.map Diagnostic.kind = [.lex] := by
  decide +kernel

end DotGraph
