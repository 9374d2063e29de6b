import DotGraph.Proofs.Token.Scanning

namespace DotGraph

/-! However the calls of a scanner are mixed, it goes over one stream: tokens come in their order,
whichever call asks for them, and so do the diagnostics, whenever they are taken. -/

namespace TokenStream

variable {filename : String} {text : List Char} {place : Nat}

theorem lexemeAt_of_le {stream : TokenStream} (h : stream.tokens.length ≤ place) :
    stream.lexemeAt place = stream.finish := by
  rw [lexemeAt, List.getElem?_eq_none h]
  rfl

theorem located_finish (filename : String) (text : List Char) :
    (ofText filename text).finish.located =
      ⟨(ofText filename text).finish.position, .punctuation .endOfInput⟩ := by
  rw [Lexeme.located, token_finish]

theorem kind_lexemeAt_of_lt (h : place < (ofText filename text).tokens.length) :
    ((ofText filename text).lexemeAt place).token.kind ≠ .endOfInput := by
  rw [lexemeAt_of_lt h]
  exact of_decide_eq_false (isEnd_of_mem_tokens (List.getElem_mem h))

end TokenStream

namespace Scanner

/-- What a scanner can be asked. -/
inductive Call where
  | nextToken
  | next?
  | diagnostics
  | takeDiagnostics
deriving DecidableEq, Repr

inductive Answer where
  | token (given : Located Token)
  | item (given : Option (Located Token))
  | held (diagnostics : List Diagnostic)
  | taken (diagnostics : List Diagnostic)
deriving DecidableEq, Repr

namespace Answer

/-- The token that is given, if it is not the end of input. -/
def token? : Answer → Option (Located Token)
  | .token given => if given.value.kind = .endOfInput then none else some given
  | .item given => given
  | .held _ | .taken _ => none

def takenDiagnostics : Answer → List Diagnostic
  | .taken diagnostics => diagnostics
  | .token _ | .item _ | .held _ => []

/-- There is no token any more. -/
def IsEnd : Answer → Prop
  | .token given => given.value.kind = .endOfInput
  | .item given => given = none
  | .held _ | .taken _ => False

/-- If a token was asked for, there is none, and the end of input is at that position. -/
def EndsAt (position : Position) : Answer → Prop
  | .token given => given = ⟨position, .punctuation .endOfInput⟩
  | .item given => given = none
  | .held _ | .taken _ => True

theorem token?_of_isEnd {given : Located Token} (h : given.value.kind = .endOfInput) :
    (Answer.token given).token? = none :=
  if_pos h

theorem token?_of_not_isEnd {given : Located Token} (h : given.value.kind ≠ .endOfInput) :
    (Answer.token given).token? = some given :=
  if_neg h

end Answer

def answer (scanner : Scanner) : Call → Answer × Scanner
  | .nextToken => (.token scanner.nextToken.1, scanner.nextToken.2)
  | .next? => (.item scanner.next?.1, scanner.next?.2)
  | .diagnostics => (.held scanner.diagnostics, scanner)
  | .takeDiagnostics => (.taken scanner.takeDiagnostics.1, scanner.takeDiagnostics.2)

/-- The answers to one call after another, and the scanner behind the last one. -/
def answers (scanner : Scanner) : List Call → List Answer × Scanner
  | [] => ([], scanner)
  | call :: calls =>
      let (first, next) := scanner.answer call
      let (more, last) := next.answers calls
      (first :: more, last)

def tokensOf (answers : List Answer) : List (Located Token) :=
  answers.filterMap Answer.token?

def takenOf (answers : List Answer) : List Diagnostic :=
  answers.flatMap Answer.takenDiagnostics

variable {filename : String} {text : List Char} {scanner : Scanner} {count : Nat}
  {delivered : List (Located Token)} {taken : List Diagnostic}

/-- A scanner that has read so many tokens of a stream, has given those before the end of input to
its callers, and has had some of its diagnostics taken from it. -/
structure Follows (filename : String) (text : List Char) (scanner : Scanner) (count : Nat)
    (delivered : List (Located Token)) (taken : List Diagnostic) : Prop where
  cursor : scanner.cursor = ((ofText filename text).afterTokens count).cursor
  diagnostics : taken ++ scanner.diagnostics =
    ((ofText filename text).afterTokens count).diagnostics
  delivered : delivered =
    ((TokenStream.ofText filename text).tokens.take count).map Lexeme.located
  finished : scanner.isFinished → (TokenStream.ofText filename text).tokens.length < count

namespace Follows

theorem start (filename : String) (text : List Char) :
    Follows filename text (ofText filename text) 0 [] [] :=
  ⟨rfl, rfl, rfl, nofun⟩

theorem located_nextToken (h : Follows filename text scanner count delivered taken) :
    scanner.nextToken.1 = ((TokenStream.ofText filename text).lexemeAt count).located := by
  rw [← nextToken_afterTokens_ofText, Scanner.nextToken, Scanner.nextToken, h.cursor]

/-- A call for a token reads the next one of the stream, whether it is given or not. -/
theorem nextToken (h : Follows filename text scanner count delivered taken) :
    Follows filename text scanner.nextToken.2 (count + 1)
      (delivered ++ (Answer.token scanner.nextToken.1).token?.toList) taken where
  cursor := by
    rw [afterTokens, Scanner.nextToken, Scanner.nextToken, h.cursor]
  diagnostics := by
    have hnew : ((ofText filename text).afterTokens (count + 1)).diagnostics =
        ((ofText filename text).afterTokens count).diagnostics ++
          ((Lexeme.read scanner.cursor).1.fault.toList).map LexFault.diagnostic := by
      rw [h.cursor]
      exact List.map_append
    rw [hnew, ← h.diagnostics, List.append_assoc]
    exact congrArg (taken ++ ·) List.map_append
  delivered := by
    rw [h.delivered, h.located_nextToken, List.take_add_one, List.map_append]
    congr 1
    by_cases hlt : count < (TokenStream.ofText filename text).tokens.length
    · rw [Answer.token?_of_not_isEnd (TokenStream.kind_lexemeAt_of_lt hlt),
        TokenStream.lexemeAt_of_lt hlt, List.getElem?_eq_getElem hlt]
      rfl
    · have hle := Nat.le_of_not_lt hlt
      rw [TokenStream.lexemeAt_of_le hle, TokenStream.located_finish,
        Answer.token?_of_isEnd rfl, List.getElem?_eq_none hle]
      rfl
  finished hfinished := Nat.lt_succ_of_lt (h.finished hfinished)

theorem length_le_of_isEnd (h : Follows filename text scanner count delivered taken)
    (hend : scanner.nextToken.1.value.kind = .endOfInput) :
    (TokenStream.ofText filename text).tokens.length ≤ count := by
  rw [h.located_nextToken] at hend
  exact Nat.le_of_not_lt fun hlt => TokenStream.kind_lexemeAt_of_lt hlt hend

theorem nextToken_of_le (h : Follows filename text scanner count delivered taken)
    (hle : (TokenStream.ofText filename text).tokens.length ≤ count) :
    scanner.nextToken.1 =
      ⟨(TokenStream.ofText filename text).finish.position, .punctuation .endOfInput⟩ := by
  rw [h.located_nextToken, TokenStream.lexemeAt_of_le hle, TokenStream.located_finish]

end Follows

/-- The answer tells the end only where the stream has ended when `later` tokens are read, and where
it had ended when `count` tokens were read it tells nothing else. -/
structure Answer.TellsEnd (stream : TokenStream) (count later : Nat) (answer : Answer) : Prop where
  reached : answer.IsEnd →
    stream.tokens.length < later ∧ answer.EndsAt stream.finish.position
  stays : stream.tokens.length < count → answer.EndsAt stream.finish.position

theorem Answer.TellsEnd.mono {stream : TokenStream} {count later first last : Nat}
    {answer : Answer} (h : answer.TellsEnd stream count later) (hfirst : first ≤ count)
    (hlast : later ≤ last) : answer.TellsEnd stream first last where
  reached hend := ⟨Nat.lt_of_lt_of_le (h.reached hend).1 hlast, (h.reached hend).2⟩
  stays hlt := h.stays (Nat.lt_of_lt_of_le hlt hfirst)

namespace Follows

theorem tellsEnd_nextToken (h : Follows filename text scanner count delivered taken) :
    (Answer.token scanner.nextToken.1).TellsEnd (TokenStream.ofText filename text) count
      (count + 1) where
  reached hend :=
    have hle := h.length_le_of_isEnd hend
    ⟨Nat.lt_succ_of_le hle, h.nextToken_of_le hle⟩
  stays hlt := h.nextToken_of_le (Nat.le_of_lt hlt)

/-- Once it has met the end of input, the call that gives no end of input does not read on. -/
theorem next? (h : Follows filename text scanner count delivered taken) :
    ∃ later, count ≤ later ∧
      Follows filename text scanner.next?.2 later (delivered ++ scanner.next?.1.toList) taken ∧
      (Answer.item scanner.next?.1).TellsEnd (TokenStream.ofText filename text) count later := by
  unfold Scanner.next?
  split
  · rename_i hfinished
    refine ⟨count, Nat.le_refl count, ?_, fun _ => ⟨h.finished hfinished, rfl⟩, fun _ => rfl⟩
    rwa [Option.toList_none, List.append_nil]
  · have hread := h.nextToken
    simp only
    split
    · rename_i hend
      rw [Answer.token?_of_isEnd hend] at hread
      have hlt := Nat.lt_succ_of_le (h.length_le_of_isEnd hend)
      exact ⟨count + 1, Nat.le_succ count,
        { hread with finished := fun _ => hlt }, fun _ => ⟨hlt, rfl⟩, fun _ => rfl⟩
    · rename_i hend
      rw [Answer.token?_of_not_isEnd hend] at hread
      refine ⟨count + 1, Nat.le_succ count, hread, nofun, fun hlt => ?_⟩
      exact absurd (congrArg (·.value.kind) (h.nextToken_of_le (Nat.le_of_lt hlt))) hend

theorem takeDiagnostics (h : Follows filename text scanner count delivered taken) :
    Follows filename text scanner.takeDiagnostics.2 count delivered
      (taken ++ scanner.diagnostics) where
  cursor := h.cursor
  diagnostics := (List.append_nil _).trans h.diagnostics
  delivered := h.delivered
  finished := h.finished

theorem answer (h : Follows filename text scanner count delivered taken) (call : Call) :
    ∃ later, count ≤ later ∧
      Follows filename text (scanner.answer call).2 later
        (delivered ++ (scanner.answer call).1.token?.toList)
        (taken ++ (scanner.answer call).1.takenDiagnostics) ∧
      (scanner.answer call).1.TellsEnd (TokenStream.ofText filename text) count later := by
  cases call with
  | nextToken =>
      refine ⟨count + 1, Nat.le_succ count, ?_, h.tellsEnd_nextToken⟩
      rw [Scanner.answer, Answer.takenDiagnostics, List.append_nil]
      exact h.nextToken
  | next? =>
      rw [Scanner.answer, Answer.takenDiagnostics, List.append_nil]
      exact h.next?
  | diagnostics =>
      refine ⟨count, Nat.le_refl count, ?_, nofun, fun _ => trivial⟩
      rwa [Scanner.answer, Answer.takenDiagnostics, Answer.token?, Option.toList_none,
        List.append_nil, List.append_nil]
  | takeDiagnostics =>
      refine ⟨count, Nat.le_refl count, ?_, nofun, fun _ => trivial⟩
      rw [Scanner.answer, Answer.takenDiagnostics, Answer.token?, Option.toList_none,
        List.append_nil]
      exact h.takeDiagnostics

theorem answers (h : Follows filename text scanner count delivered taken) (calls : List Call) :
    ∃ later, count ≤ later ∧
      Follows filename text (scanner.answers calls).2 later
        (delivered ++ tokensOf (scanner.answers calls).1)
        (taken ++ takenOf (scanner.answers calls).1) ∧
      ∀ answer ∈ (scanner.answers calls).1,
        answer.TellsEnd (TokenStream.ofText filename text) count later := by
  induction calls generalizing scanner count delivered taken with
  | nil =>
      refine ⟨count, Nat.le_refl count, ?_, fun _ hmem => nomatch hmem⟩
      simpa [Scanner.answers, tokensOf, takenOf] using h
  | cons call calls ih =>
      obtain ⟨next, hnext, hfollows, hfirst⟩ := h.answer call
      obtain ⟨later, hlater, hlast, hmore⟩ := ih hfollows
      refine ⟨later, Nat.le_trans hnext hlater, ?_, ?_⟩
      · rw [List.append_assoc, List.append_assoc] at hlast
        rw [Scanner.answers, tokensOf, filterMap_cons_toList]
        exact hlast
      · rintro answer (_ | ⟨_, hmem⟩)
        · exact hfirst.mono (Nat.le_refl count) hlater
        · exact (hmore answer hmem).mono hnext (Nat.le_refl later)

end Follows

/-- Whatever is asked of a scanner, and in whatever order, it gives the tokens of the stream and
their diagnostics from the first on, and all of them once it has told the end.  From there on it
tells nothing but the end, at one position. -/
theorem answers_follow_stream (filename : String) (bytes : ByteArray) (calls more : List Call) :
    let (given, scanner) := (ofBytes filename bytes).answers calls
    tokensOf given <+: (tokenize filename bytes).1 ∧
      takenOf given ++ scanner.diagnostics <+: (tokenize filename bytes).2 ∧
      ((∃ answer ∈ given, answer.IsEnd) →
        tokensOf given = (tokenize filename bytes).1 ∧
          takenOf given ++ scanner.diagnostics = (tokenize filename bytes).2 ∧
          ∃ finish,
            (∀ answer ∈ given, answer.IsEnd → answer.EndsAt finish) ∧
              ∀ answer ∈ (scanner.answers more).1, answer.EndsAt finish) := by
  obtain ⟨count, -, hfollows, hgiven⟩ :=
    (Follows.start filename (Text.decodeLossy bytes)).answers calls
  rw [List.nil_append, List.nil_append] at hfollows
  obtain ⟨later, -, -, hmore⟩ := hfollows.answers more
  refine ⟨?_, ?_, ?_⟩
  · rw [ofBytes, hfollows.delivered]
    exact (List.take_prefix _ _).map _
  · rw [ofBytes, hfollows.diagnostics]
    exact diagnostics_afterTokens_isPrefix _ _ _
  · rintro ⟨last, hmem, hend⟩
    have hlt := ((hgiven last hmem).reached hend).1
    refine ⟨?_, ?_, _, fun answer hmem hend => ((hgiven answer hmem).reached hend).2,
      fun answer hmem => (hmore answer hmem).stays hlt⟩
    · rw [ofBytes, hfollows.delivered, List.take_of_length_le (Nat.le_of_lt hlt)]
      rfl
    · rw [ofBytes, hfollows.diagnostics]
      exact diagnostics_afterTokens_of_lt hlt

/-- All calls, with more of them than there are tokens. -/
private def mixedCalls : List Call :=
  [.next?, .takeDiagnostics, .nextToken, .next?, .diagnostics, .nextToken, .next?]

theorem answers_follow_stream_mixed :
    let (given, scanner) := (ofBytes "" "! a !".toUTF8).answers mixedCalls
    (∃ answer ∈ given, answer.IsEnd) ∧ takenOf given ≠ [] ∧ scanner.diagnostics ≠ [] ∧
      tokensOf given = (tokenize "" "! a !".toUTF8).1 ∧
      takenOf given ++ scanner.diagnostics = (tokenize "" "! a !".toUTF8).2 := by
  have hstream := answers_follow_stream "" "! a !".toUTF8 mixedCalls []
  have hend : Answer.item none ∈ ((ofBytes "" "! a !".toUTF8).answers mixedCalls).1 := by
    decide +kernel
  have htaken : takenOf ((ofBytes "" "! a !".toUTF8).answers mixedCalls).1 ≠ [] := by
    decide +kernel
  have hheld : ((ofBytes "" "! a !".toUTF8).answers mixedCalls).2.diagnostics ≠ [] := by
    decide +kernel
  generalize (ofBytes "" "! a !".toUTF8).answers mixedCalls = result at *
  obtain ⟨given, scanner⟩ := result
  obtain ⟨-, -, hall⟩ := hstream
  obtain ⟨htokens, hdiagnostics, -⟩ := hall ⟨_, hend, rfl⟩
  exact ⟨⟨_, hend, rfl⟩, htaken, hheld, htokens, hdiagnostics⟩

end Scanner

end DotGraph
