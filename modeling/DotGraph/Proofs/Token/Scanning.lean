import DotGraph.Proofs.Token.Places

namespace DotGraph

/-! One token at a time, a scanner reads the tokens of the stream, and then the end of input for
ever. -/

theorem filterMap_cons_toList {α β : Type} (select : α → Option β) (x : α) (xs : List α) :
    (x :: xs).filterMap select = (select x).toList ++ xs.filterMap select := by
  cases h : select x with
  | none => exact List.filterMap_cons_none h
  | some _ => exact List.filterMap_cons_some h

def Lexeme.located (lexeme : Lexeme) : Located Token :=
  ⟨lexeme.position, lexeme.token⟩

/-- The token at a place of the stream; past the last one it is the end of input. -/
def TokenStream.lexemeAt (stream : TokenStream) (place : Nat) : Lexeme :=
  stream.tokens[place]?.getD stream.finish

namespace TokenStream

theorem lexemeAt_eq (stream : TokenStream) (place : Nat) :
    stream.lexemes[place]?.getD stream.finish = stream.lexemeAt place := by
  rw [lexemes, lexemeAt, List.getElem?_append]
  split
  · rfl
  · rename_i h
    rw [List.getElem?_eq_none (Nat.le_of_not_lt h)]
    cases place - stream.tokens.length <;> rfl

theorem lexemeAt_of_lt {stream : TokenStream} {place : Nat} (h : place < stream.tokens.length) :
    stream.lexemeAt place = stream.tokens[place] := by
  rw [lexemeAt, List.getElem?_eq_getElem h]
  rfl

theorem lexemeAt_length (stream : TokenStream) :
    stream.lexemeAt stream.tokens.length = stream.finish := by
  rw [lexemeAt, List.getElem?_eq_none (Nat.le_refl _)]
  rfl

theorem token_finish_readFrom (cursor : Cursor) (before : Array Lexeme) :
    (readFrom cursor before).finish.token = .punctuation .endOfInput := by
  induction cursor, before using readFrom.induct with
  | case1 cursor before read h =>
      rw [readFrom, dif_pos h]
      exact (Lexeme.read_of_isEnd h).2.2
  | case2 cursor before read h ih =>
      rw [readFrom, dif_neg h]
      exact ih

theorem isEnd_tokens_readFrom (cursor : Cursor) (before : Array Lexeme) :
    ∀ lexeme ∈ (readFrom cursor before).tokens, lexeme ∈ before ∨ lexeme.isEnd = false := by
  induction cursor, before using readFrom.induct with
  | case1 cursor before read h =>
      intro lexeme hmem
      rw [readFrom, dif_pos h] at hmem
      exact .inl (Array.mem_toList_iff.mp hmem)
  | case2 cursor before read h ih =>
      intro lexeme hmem
      rw [readFrom, dif_neg h] at hmem
      rcases ih lexeme hmem with hbefore | hend
      · rcases Array.mem_push.mp hbefore with hbefore | rfl
        · exact .inl hbefore
        · exact .inr (Bool.eq_false_iff.mpr h)
      · exact .inr hend

theorem token_finish (filename : String) (text : List Char) :
    (ofText filename text).finish.token = .punctuation .endOfInput :=
  token_finish_readFrom _ _

theorem isEnd_of_mem_tokens {filename : String} {text : List Char} {lexeme : Lexeme}
    (h : lexeme ∈ (ofText filename text).tokens) : lexeme.isEnd = false :=
  (isEnd_tokens_readFrom _ #[] lexeme h).resolve_left fun hmem => nomatch hmem

/-- No two faults of a text are the same. -/
theorem diagnostics_nodup (filename : String) (text : List Char) :
    ((ofText filename text).faults.map LexFault.diagnostic).Nodup := by
  have h := Lexeme.fault_pairwise_readAll (.start filename text)
  rw [← lexemes_ofText] at h
  refine List.pairwise_map.mpr (h.imp ?_)
  intro first second hlt heq
  have hposition : first.position = second.position := congrArg Diagnostic.position heq
  rw [hposition] at hlt
  exact Nat.lt_irrefl _ hlt

end TokenStream

namespace Scanner

/-- The scanner after so many calls for a token. -/
def afterTokens (scanner : Scanner) : (count : Nat) → Scanner
  | 0 => scanner
  | count + 1 => (scanner.afterTokens count).nextToken.2

theorem afterTokens_nextToken (scanner : Scanner) (count : Nat) :
    scanner.nextToken.2.afterTokens count = scanner.afterTokens (count + 1) := by
  induction count with
  | zero => rfl
  | succ count ih =>
      rw [afterTokens, ih]
      rfl

end Scanner

namespace Lexeme

theorem readAll_ne_nil (cursor : Cursor) : readAll cursor ≠ [] := by
  by_cases h : (read cursor).1.isEnd
  · rw [readAll_of_isEnd h]
    exact List.cons_ne_nil _ _
  · rw [readAll_of_not_isEnd h]
    exact List.cons_ne_nil _ _

/-- Behind the end of input there is nothing but the end of input, and no fault any more. -/
theorem readAll_of_isEnd_before {cursor : Cursor} (h : (read cursor).1.isEnd) :
    readAll (read cursor).2 = [⟨(read cursor).1.position, .punctuation .endOfInput, none⟩] := by
  obtain ⟨_, hnext, _⟩ := read_of_isEnd h
  rw [hnext, readAll_of_isEnd rfl]
  rfl

end Lexeme

namespace Scanner

theorem faults_afterTokens (scanner : Scanner) (count : Nat) :
    (scanner.afterTokens count).faults = scanner.faults ++
      ((Lexeme.readAll scanner.cursor).take count).filterMap Lexeme.fault := by
  induction count generalizing scanner with
  | zero => rw [List.take_zero, List.filterMap_nil, List.append_nil, afterTokens]
  | succ count ih =>
      rw [← afterTokens_nextToken, ih]
      change (scanner.faults ++ (Lexeme.read scanner.cursor).1.fault.toList) ++
        ((Lexeme.readAll (Lexeme.read scanner.cursor).2).take count).filterMap Lexeme.fault = _
      rw [List.append_assoc]
      by_cases h : (Lexeme.read scanner.cursor).1.isEnd
      · -- further calls read the end of input again, and that has nothing to note
        rw [Lexeme.readAll_of_isEnd h, Lexeme.readAll_of_isEnd_before h, List.take_succ_cons,
          filterMap_cons_toList]
        cases count <;> simp
      · rw [Lexeme.readAll_of_not_isEnd h, List.take_succ_cons, filterMap_cons_toList]

/-- Each call gives the token whose turn it is, and the end of input once there is none. -/
theorem nextToken_afterTokens (scanner : Scanner) (count : Nat) {finish : Lexeme}
    (hfinish : (Lexeme.readAll scanner.cursor).getLast? = some finish) :
    (scanner.afterTokens count).nextToken.1 =
      ((Lexeme.readAll scanner.cursor)[count]?.getD finish).located := by
  induction count generalizing scanner finish with
  | zero =>
      by_cases h : (Lexeme.read scanner.cursor).1.isEnd
      · rw [Lexeme.readAll_of_isEnd h]
        rfl
      · rw [Lexeme.readAll_of_not_isEnd h]
        rfl
  | succ count ih =>
      rw [← afterTokens_nextToken]
      by_cases h : (Lexeme.read scanner.cursor).1.isEnd
      · have hrest := Lexeme.readAll_of_isEnd_before h
        rw [Lexeme.readAll_of_isEnd h] at hfinish ⊢
        obtain rfl := Option.some.inj hfinish
        rw [ih scanner.nextToken.2 (congrArg List.getLast? hrest)]
        change ((Lexeme.readAll (Lexeme.read scanner.cursor).2)[count]?.getD _).located = _
        rw [hrest]
        have htoken := (Lexeme.read_of_isEnd h).2.2
        cases count <;> simp [Lexeme.located, htoken]
      · rw [Lexeme.readAll_of_not_isEnd h] at hfinish ⊢
        rw [List.getLast?_cons_of_ne_nil (Lexeme.readAll_ne_nil _)] at hfinish
        rw [ih scanner.nextToken.2 hfinish]
        rfl

variable (filename : String) (text : List Char) (count : Nat)

/-- What has been noted after some calls is what is wrong with as many tokens. -/
theorem faults_afterTokens_ofText :
    ((ofText filename text).afterTokens count).faults =
      ((TokenStream.ofText filename text).lexemes.take count).filterMap Lexeme.fault := by
  rw [faults_afterTokens, TokenStream.lexemes_ofText]
  rfl

theorem nextToken_afterTokens_ofText :
    ((ofText filename text).afterTokens count).nextToken.1 =
      ((TokenStream.ofText filename text).lexemeAt count).located := by
  have hlexemes := TokenStream.lexemes_ofText filename text
  have hlast : (TokenStream.ofText filename text).lexemes.getLast? =
      some (TokenStream.ofText filename text).finish := List.getLast?_concat
  rw [hlexemes] at hlast
  rw [nextToken_afterTokens (ofText filename text) count hlast]
  change ((Lexeme.readAll (.start filename text))[count]?.getD _).located = _
  rw [← hlexemes, TokenStream.lexemeAt_eq]

theorem diagnostics_afterTokens_isPrefix :
    ((ofText filename text).afterTokens count).diagnostics <+:
      (TokenStream.ofText filename text).faults.map LexFault.diagnostic := by
  rw [diagnostics, faults_afterTokens_ofText]
  exact ((List.take_prefix _ _).filterMap _).map _

variable {filename text count}

/-- Once the end of input has been read, all faults have been noted, and none is noted any more. -/
theorem diagnostics_afterTokens_of_lt
    (h : (TokenStream.ofText filename text).tokens.length < count) :
    ((ofText filename text).afterTokens count).diagnostics =
      (TokenStream.ofText filename text).faults.map LexFault.diagnostic := by
  have hlength : (TokenStream.ofText filename text).lexemes.length ≤ count := by
    rw [TokenStream.lexemes, List.length_append]
    exact h
  rw [diagnostics, faults_afterTokens_ofText, List.take_of_length_le hlength]
  rfl

end Scanner

end DotGraph
