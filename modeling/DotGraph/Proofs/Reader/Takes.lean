import DotGraph.Proofs.Grammar.Eager

namespace DotGraph.TokenReader

/-! What a step of a reader takes from the tokens.  A step is as it should be when it takes tokens
and notes nothing; a step that notes a fault has taken who knows what. -/

open DotGraph.Grammar

theorem kind_eq_leading (reader : TokenReader) :
    reader.kind = leading .endOfInput reader.unread := by
  unfold kind leading
  rfl

theorem kind_of_unread {reader : TokenReader} {front rest : List Lexeme}
    (h : reader.unread = front ++ rest) :
    reader.kind = leading (leading .endOfInput rest) front := by
  rw [kind_eq_leading, h, leading_append]

/-- Taking the tokens of `spelling` leads from one reader to the other, and nothing is noted. -/
structure Takes (source : TokenReader) (spelling : List Lexeme) (target : TokenReader) : Prop where
  unread_eq : source.unread = spelling ++ target.unread
  pulled_eq : target.pulled = source.pulled + spelling.length
  finish_eq : target.finish = source.finish
  faults_eq : target.faults = source.faults
  depth_eq : target.depth = source.depth

namespace Takes

variable {first second third : TokenReader} {front back : List Lexeme}

theorem refl (reader : TokenReader) : reader.Takes [] reader :=
  ⟨rfl, rfl, rfl, rfl, rfl⟩

theorem trans (h : first.Takes front second) (k : second.Takes back third) :
    first.Takes (front ++ back) third where
  unread_eq := by rw [h.unread_eq, k.unread_eq, List.append_assoc]
  pulled_eq := by rw [k.pulled_eq, h.pulled_eq, List.length_append, Nat.add_assoc]
  finish_eq := k.finish_eq.trans h.finish_eq
  faults_eq := k.faults_eq.trans h.faults_eq
  depth_eq := k.depth_eq.trans h.depth_eq

/-- Going into a block and out of it takes nothing. -/
theorem enclose (h : first.enter.Takes front second) : first.Takes front second.leave where
  unread_eq := h.unread_eq
  pulled_eq := h.pulled_eq
  finish_eq := h.finish_eq
  faults_eq := h.faults_eq
  depth_eq := congrArg (· - 1) h.depth_eq

theorem kind_eq (h : first.Takes front second) : first.kind = leading second.kind front := by
  rw [kind_of_unread h.unread_eq, kind_eq_leading second]

/-- What stands behind the tokens that are taken is left. -/
theorem unread_of_append (h : first.Takes front second) {rest : List Lexeme}
    (hunread : first.unread = front ++ rest) : second.unread = rest :=
  List.append_cancel_left (h.unread_eq.symm.trans hunread)

end Takes

theorem kind_eq {reader : TokenReader} {lexeme : Lexeme} {rest : List Lexeme}
    (h : reader.unread = lexeme :: rest) : reader.kind = lexeme.token.kind := by
  simp only [kind, h]

theorem position_eq {reader : TokenReader} {lexeme : Lexeme} {rest : List Lexeme}
    (h : reader.unread = lexeme :: rest) : reader.position = lexeme.position := by
  simp only [position, h]

theorem text_eq {reader : TokenReader} {lexeme : Lexeme} {rest : List Lexeme}
    (h : reader.unread = lexeme :: rest) : reader.text = lexeme.token.text := by
  simp only [text, h]

theorem takes_advance {reader : TokenReader} {lexeme : Lexeme} {rest : List Lexeme}
    (h : reader.unread = lexeme :: rest) : reader.Takes [lexeme] reader.advance where
  unread_eq := by simp [advance, h]
  pulled_eq := rfl
  finish_eq := rfl
  faults_eq := rfl
  depth_eq := rfl

/-- A look-ahead token of a kind that is none of the end of input is there. -/
theorem exists_terminal {admits : Token.Kind → Bool} {reader : TokenReader}
    (h : admits reader.kind) (hend : admits .endOfInput = false) :
    ∃ terminal : Terminal admits, reader.unread = terminal.lexeme :: reader.advance.unread := by
  unfold kind at h
  cases hunread : reader.unread with
  | nil => simp [hunread, hend] at h
  | cons lexeme rest =>
      rw [hunread] at h
      exact ⟨⟨lexeme, h⟩, by simp [advance, hunread]⟩

theorem exists_sign {kind : Token.Kind} {reader : TokenReader} (h : reader.kind = kind)
    (hend : kind ≠ .endOfInput) :
    ∃ sign : Sign kind, reader.unread = sign.lexeme :: reader.advance.unread :=
  exists_terminal (by simp [h]) (by simpa using hend.symm)

/-! A step that notes no fault takes tokens that can be told. -/

/-- Between two readers a fault has been noted, or tokens have been taken that answer to
`described`. -/
def FaultOr (source target : TokenReader) (described : List Lexeme → Prop) : Prop :=
  source.faults.size < target.faults.size ∨
    ∃ spelling, source.Takes spelling target ∧ described spelling

namespace FaultOr

variable {first second third : TokenReader} {described front back : List Lexeme → Prop}

theorem of_takes {spelling : List Lexeme} (h : first.Takes spelling second)
    (hspelling : described spelling) : FaultOr first second described :=
  .inr ⟨spelling, h, hspelling⟩

theorem nothing (reader : TokenReader) (h : described []) : FaultOr reader reader described :=
  of_takes (.refl reader) h

theorem faults_le (h : FaultOr first second described) :
    first.faults.size ≤ second.faults.size := by
  rcases h with h | ⟨spelling, h, _⟩
  · exact Nat.le_of_lt h
  · exact Nat.le_of_eq (by rw [h.faults_eq])

theorem mono (h : FaultOr first second front)
    (himp : ∀ spelling, first.Takes spelling second → front spelling → back spelling) :
    FaultOr first second back := by
  rcases h with h | ⟨spelling, htakes, hspelling⟩
  · exact .inl h
  · exact .inr ⟨spelling, htakes, himp spelling htakes hspelling⟩

theorem append (h : FaultOr first second front) (k : FaultOr second third back) :
    FaultOr first third fun spelling =>
      ∃ left right, spelling = left ++ right ∧ front left ∧ back right := by
  rcases h with h | ⟨left, hleft, hfront⟩
  · exact .inl (Nat.lt_of_lt_of_le h k.faults_le)
  rcases k with k | ⟨right, hright, hback⟩
  · exact .inl (by rwa [← hleft.faults_eq])
  · exact .inr ⟨left ++ right, hleft.trans hright, left, right, rfl, hfront, hback⟩

theorem enclose (h : FaultOr first.enter second described) :
    FaultOr first second.leave described := by
  rcases h with h | ⟨spelling, h, hspelling⟩
  · exact .inl h
  · exact .inr ⟨spelling, h.enclose, hspelling⟩

theorem and_takes (h : FaultOr first second described) :
    FaultOr first second fun spelling => first.Takes spelling second ∧ described spelling :=
  h.mono fun _ htakes hspelling => ⟨htakes, hspelling⟩

theorem takes (h : FaultOr first second described) (hfaults : second.faults = first.faults) :
    ∃ spelling, first.Takes spelling second ∧ described spelling := by
  rcases h with h | h
  · rw [hfaults] at h
    exact absurd h (Nat.lt_irrefl _)
  · exact h

end FaultOr

theorem faultOr_advance {admits : Token.Kind → Bool} {reader : TokenReader}
    {terminal : Terminal admits} (h : reader.unread = terminal.lexeme :: reader.advance.unread) :
    FaultOr reader reader.advance (· = terminal.yield) :=
  .of_takes (takes_advance h) rfl

theorem faults_report_lt (reader : TokenReader) (fault : ParseFault) :
    reader.faults.size < (reader.report fault).faults.size := by
  simp [report, reportAt]

/-- A token that is asked for is taken, or its absence is noted. -/
theorem faultOr_expect (reader : TokenReader) {kind : Token.Kind} (hend : kind ≠ .endOfInput) :
    FaultOr reader (reader.expect kind).2 fun spelling =>
      ∃ sign : Sign kind, sign.yield = spelling ∧ sign.position = (reader.expect kind).1 := by
  unfold expect
  split
  · rename_i h
    obtain ⟨sign, hunread⟩ := exists_sign h hend
    exact .of_takes (takes_advance hunread) ⟨sign, rfl, (position_eq hunread).symm⟩
  · exact .inl (faults_report_lt reader _)

theorem expect_eq {kind : Token.Kind} {reader : TokenReader} {sign : Sign kind}
    {rest : List Lexeme} (h : reader.unread = sign.lexeme :: rest) :
    reader.expect kind = (sign.position, reader.advance) := by
  have hkind : reader.kind = kind := (kind_eq h).trans (by simpa using sign.admitted)
  simp only [expect, hkind, if_true]
  rw [position_eq h]
  rfl

end DotGraph.TokenReader
