import DotGraph.Proofs.Reader.Sight

namespace DotGraph.TokenReader

/-! How many faults a reader notes at one place.  Whoever goes on from a token leaves behind what
has been noted there.  The end of input is never left, but there all faults, except for some that
are allowed, stand for a token each that has been asked for in vain. -/

open DotGraph.Tree

variable {reader source target : TokenReader}

/-- Going over tokens that are there leads from one reader to the other, and nothing is noted. -/
inductive GoesOver (source : TokenReader) : TokenReader → Prop where
  | refl : GoesOver source source
  | advance {target : TokenReader} (h : GoesOver source target)
      (hkind : target.kind ≠ .endOfInput) : GoesOver source target.advance

theorem GoesOver.trans {first second third : TokenReader} (h : first.GoesOver second)
    (k : second.GoesOver third) : first.GoesOver third := by
  induction k with
  | refl => exact h
  | advance _ hkind ih => exact ih.advance hkind

theorem goesOver_advance (hkind : reader.kind ≠ .endOfInput) : reader.GoesOver reader.advance :=
  GoesOver.refl.advance hkind

theorem goesOver_ident (hid : reader.kind.isId) : reader.GoesOver reader.ident.2 := by
  rw [ident_eq hid]
  exact goesOver_advance (Token.Kind.ne_endOfInput_of_isId hid)

theorem goesOver_ident? (reader : TokenReader) : reader.GoesOver reader.ident?.2 := by
  unfold ident?
  split
  · exact goesOver_ident ‹_›
  · exact .refl

theorem goesOver_compass? (reader : TokenReader) : reader.GoesOver reader.compass?.2 := by
  unfold compass?
  split
  · rename_i hkind
    exact (goesOver_advance (by simp [hkind])).trans (goesOver_ident? _)
  · exact .refl

/-- A token that is there is not asked for in vain. -/
theorem expect_of_kind {wanted : Token.Kind} (hkind : reader.kind = wanted) :
    reader.expect wanted = (reader.position, reader.advance) := by
  rw [expect, if_pos hkind]

theorem goesOver_port? (reader : TokenReader) : reader.GoesOver reader.port?.2 := by
  unfold port?
  split
  · rename_i hkind
    have hcolon : reader.GoesOver (reader.expect .colon).2 := by
      rw [expect_of_kind hkind]
      exact goesOver_advance (by simp [hkind])
    exact (hcolon.trans (goesOver_ident? _)).trans (goesOver_compass? _)
  · exact .refl

theorem goesOver_nodeIds (before : Array NodeId) (reader : TokenReader) :
    reader.GoesOver (reader.nodeIds before).2 := by
  fun_induction nodeIds before reader with
  | case1 before reader hid _ ih =>
      exact ((goesOver_ident hid).trans (goesOver_port? _)).trans ih
  | case2 before reader _ => exact .refl

theorem goesOver_skipOver {kinds : List Token.Kind} (hkinds : .endOfInput ∉ kinds)
    (reader : TokenReader) : reader.GoesOver (reader.skipOver kinds) := by
  unfold skipOver
  split
  · rename_i hkind
    exact goesOver_advance fun hend => hkinds (hend ▸ hkind)
  · exact .refl

theorem goesOver_skipBlock (opened : Nat) (reader : TokenReader) :
    reader.GoesOver (reader.skipBlock opened) := by
  fun_induction skipBlock opened reader with
  | case1 opened reader _ => exact .refl
  | case3 reader hend _ _ => exact goesOver_advance hend
  | case2 opened reader hend _ ih | case4 reader hend _ _ opened ih
  | case5 opened reader hend _ _ ih => exact (goesOver_advance hend).trans ih

/-- The faults that are noted at a place of the text. -/
def noted (reader : TokenReader) (offset : Nat) : Nat :=
  reader.faults.toList.countP (·.position.offset = offset)

theorem noted_reportAt (position : Position) (fault : ParseFault) (offset : Nat) :
    (reader.reportAt position fault).noted offset =
      reader.noted offset + if position.offset = offset then 1 else 0 := by
  unfold noted reportAt
  rw [Array.toList_push, List.countP_append]
  simp [List.countP_cons]

theorem toList_faults_reportAt (position : Position) (fault : ParseFault) :
    (reader.reportAt position fault).faults.toList =
      reader.faults.toList ++ [⟨position, fault⟩] :=
  Array.toList_push

/-- Faults stay in their order if the new one is not in front of an old one. -/
theorem ordered_reportAt {position : Position}
    (hordered : reader.faults.toList.Pairwise fun first second =>
      first.position.offset ≤ second.position.offset)
    (hlast : ∀ fault ∈ reader.faults.toList, fault.position.offset ≤ position.offset)
    (fault : ParseFault) :
    (reader.reportAt position fault).faults.toList.Pairwise fun first second =>
      first.position.offset ≤ second.position.offset := by
  rw [toList_faults_reportAt, List.pairwise_append]
  refine ⟨hordered, List.pairwise_singleton _ _, fun early hearly late hlate => ?_⟩
  rw [List.mem_singleton.mp hlate]
  exact hlast early hearly

theorem behind_reportAt {position : Position} {bound : Nat}
    (hbehind : ∀ fault ∈ reader.faults.toList, fault.position.offset ≤ bound)
    (hposition : position.offset ≤ bound) (fault : ParseFault) :
    ∀ other ∈ (reader.reportAt position fault).faults.toList,
      other.position.offset ≤ bound := by
  rw [toList_faults_reportAt, List.forall_mem_append]
  exact ⟨hbehind, List.forall_mem_singleton.mpr hposition⟩

theorem noted_eq_zero {offset : Nat}
    (h : ∀ fault ∈ reader.faults.toList, fault.position.offset < offset) :
    reader.noted offset = 0 := by
  rw [noted, List.countP_eq_zero]
  intro fault hmem
  simpa using Nat.ne_of_lt (h fault hmem)

/-- A reader of `count` tokens that notes faults from the first of them on.  No more than two are at
one place that it has left behind, and at its look-ahead token no more than `token`.  At the end of
input it has asked in vain for at most `excess` tokens, and besides these noted at most `slack`
faults. -/
structure Orderly (reader : TokenReader) (count token slack excess : Nat) : Prop where
  sorted : reader.Sorted
  tokens : ∀ lexeme ∈ reader.unread, lexeme.isEnd = false
  ordered : reader.faults.toList.Pairwise fun first second =>
    first.position.offset ≤ second.position.offset
  behind : ∀ fault ∈ reader.faults.toList, fault.position.offset ≤ reader.offset
  left : ∀ offset < reader.offset, reader.noted offset ≤ 2
  here : reader.kind ≠ .endOfInput →
    reader.noted reader.offset ≤ token ∧ reader.pulled + reader.size = count + 1
  finish : reader.kind = .endOfInput → ∃ overrun ≤ excess,
    reader.pulled = count + 1 + overrun ∧ reader.noted reader.offset ≤ overrun + slack

theorem unread_of_end (htokens : ∀ lexeme ∈ reader.unread, lexeme.isEnd = false)
    (hend : reader.kind = .endOfInput) : reader.unread = [] := by
  cases hunread : reader.unread with
  | nil => rfl
  | cons lexeme rest =>
      have hkind : lexeme.token.kind = .endOfInput := by
        rw [← hend, kind, hunread]
      have hlexeme := htokens lexeme (hunread ▸ List.mem_cons_self)
      simp [Lexeme.isEnd, hkind] at hlexeme

theorem advance_of_end (htokens : ∀ lexeme ∈ reader.unread, lexeme.isEnd = false)
    (hend : reader.kind = .endOfInput) :
    reader.advance = { reader with pulled := reader.pulled + 1 } := by
  rw [advance, unread_of_end htokens hend, List.tail_nil]

theorem size_eq_advance (hkind : reader.kind ≠ .endOfInput) :
    reader.size = reader.advance.size + 1 := by
  unfold kind at hkind
  unfold size advance
  split at hkind
  · exact absurd rfl hkind
  · rename_i hunread
    simp [hunread]

namespace Orderly

variable {count token slack excess : Nat}

theorem mono (h : reader.Orderly count token slack excess) {token' slack' excess' : Nat}
    (htoken : token ≤ token') (hslack : slack ≤ slack') (hexcess : excess ≤ excess') :
    reader.Orderly count token' slack' excess' where
  sorted := h.sorted
  tokens := h.tokens
  ordered := h.ordered
  behind := h.behind
  left := h.left
  here hkind := ⟨Nat.le_trans (h.here hkind).1 htoken, (h.here hkind).2⟩
  finish hend := by
    obtain ⟨overrun, hoverrun, hpulled, hnoted⟩ := h.finish hend
    exact ⟨overrun, Nat.le_trans hoverrun hexcess, hpulled,
      Nat.le_trans hnoted (Nat.add_le_add_left hslack _)⟩

theorem enter (h : reader.Orderly count token slack excess) :
    reader.enter.Orderly count token slack excess :=
  ⟨h.sorted, h.tokens, h.ordered, h.behind, h.left, h.here, h.finish⟩

theorem leave (h : reader.Orderly count token slack excess) :
    reader.leave.Orderly count token slack excess :=
  ⟨h.sorted, h.tokens, h.ordered, h.behind, h.left, h.here, h.finish⟩

/-- Only at the end of input there may be more than two faults at one place. -/
theorem noted_le (h : reader.Orderly count token slack excess) (htoken : token ≤ 2) {offset : Nat}
    (hplace : reader.kind = .endOfInput → offset ≠ reader.offset) : reader.noted offset ≤ 2 := by
  rcases Nat.lt_trichotomy offset reader.offset with hless | rfl | hmore
  · exact h.left offset hless
  · have hkind : reader.kind ≠ .endOfInput := fun hend => hplace hend rfl
    exact Nat.le_trans (h.here hkind).1 htoken
  · have hzero : reader.noted offset = 0 := noted_eq_zero fun fault hmem =>
      Nat.lt_of_le_of_lt (h.behind fault hmem) hmore
    omega

/-- Behind a token the count starts again. -/
theorem advance (h : reader.Orderly count token slack excess) (htoken : token ≤ 2)
    (hkind : reader.kind ≠ .endOfInput) : reader.advance.Orderly count 0 0 0 := by
  have hlt := h.sorted.offset_lt_advance hkind
  have hsize := size_eq_advance hkind
  obtain ⟨hnoted, hpulled⟩ := h.here hkind
  have hbehind : ∀ fault ∈ reader.advance.faults.toList,
      fault.position.offset < reader.advance.offset := fun fault hmem =>
    Nat.lt_of_le_of_lt (h.behind fault hmem) hlt
  have htokens : ∀ lexeme ∈ reader.advance.unread, lexeme.isEnd = false := fun lexeme hmem =>
    h.tokens lexeme (List.mem_of_mem_tail hmem)
  have hcount : reader.advance.pulled + reader.advance.size = count + 1 := by
    change reader.pulled + 1 + reader.advance.size = count + 1
    omega
  refine ⟨h.sorted.of_pulls (Pulls.refl reader).advance, htokens, h.ordered,
    fun fault hmem => Nat.le_of_lt (hbehind fault hmem), fun offset hoffset => ?_,
    fun _ => ⟨Nat.le_of_eq (noted_eq_zero hbehind), hcount⟩, fun hend => ?_⟩
  · exact h.noted_le htoken fun hend => absurd hend hkind
  · rw [size, unread_of_end htokens hend] at hcount
    exact ⟨0, Nat.le_refl 0, hcount, Nat.le_of_eq (noted_eq_zero hbehind)⟩

theorem goesOver (h : source.Orderly count token slack excess) (htoken : token ≤ 2)
    (k : source.GoesOver target) : target.Orderly count token slack excess := by
  induction k with
  | refl => exact h
  | advance _ hkind ih =>
      exact (ih.advance htoken hkind).mono (Nat.zero_le _) (Nat.zero_le _) (Nat.zero_le _)

theorem ident (h : reader.Orderly count token slack excess) (htoken : token ≤ 2)
    (hid : reader.kind.isId) : reader.ident.2.Orderly count 0 0 0 := by
  rw [ident_eq hid]
  exact h.advance htoken (Token.Kind.ne_endOfInput_of_isId hid)

theorem report (h : reader.Orderly count token slack excess) (fault : ParseFault) :
    (reader.report fault).Orderly count (token + 1) (slack + 1) excess := by
  have hnoted (offset : Nat) : (reader.report fault).noted offset =
      reader.noted offset + if reader.offset = offset then 1 else 0 :=
    noted_reportAt reader.position fault offset
  have hhere : (reader.report fault).noted reader.offset = reader.noted reader.offset + 1 := by
    rw [hnoted, if_pos rfl]
  refine ⟨h.sorted, h.tokens, ordered_reportAt h.ordered h.behind fault,
    behind_reportAt h.behind (Nat.le_refl _) fault, fun offset hoffset => ?_, fun hkind => ?_,
    fun hend => ?_⟩
  · have hless : offset < reader.offset := hoffset
    rw [hnoted, if_neg (Nat.ne_of_gt hless)]
    exact h.left offset hless
  · change (reader.report fault).noted reader.offset ≤ token + 1 ∧ _
    rw [hhere]
    exact ⟨Nat.succ_le_succ (h.here hkind).1, (h.here hkind).2⟩
  · obtain ⟨overrun, hoverrun, hpulled, hle⟩ := h.finish hend
    refine ⟨overrun, hoverrun, hpulled, ?_⟩
    change (reader.report fault).noted reader.offset ≤ overrun + (slack + 1)
    rw [hhere]
    exact Nat.succ_le_succ hle

/-- A token that is asked for in vain at the end of input stands for a fault. -/
theorem advance_end (h : reader.Orderly count token (slack + 1) excess)
    (hend : reader.kind = .endOfInput) : reader.advance.Orderly count 0 slack (excess + 1) := by
  obtain ⟨overrun, hoverrun, hpulled, hnoted⟩ := h.finish hend
  rw [advance_of_end h.tokens hend]
  refine ⟨h.sorted, h.tokens, h.ordered, h.behind, h.left, fun hkind => absurd hend hkind,
    fun _ => ⟨overrun + 1, Nat.succ_le_succ hoverrun, ?_, ?_⟩⟩
  · exact congrArg (· + 1) hpulled
  · change reader.noted reader.offset ≤ overrun + 1 + slack
    omega

theorem expect (h : reader.Orderly count token slack excess) (htoken : token ≤ 1)
    (wanted : Token.Kind) : (reader.expect wanted).2.Orderly count 0 slack (excess + 1) := by
  have hboth : ∀ next : TokenReader, next.kind = reader.kind →
      next.Orderly count (token + 1) (slack + 1) excess →
        next.advance.Orderly count 0 slack (excess + 1) := by
    intro next hsame hnext
    by_cases hend : reader.kind = .endOfInput
    · exact hnext.advance_end (hsame.trans hend)
    · exact (hnext.advance (Nat.succ_le_succ htoken) (hsame ▸ hend)).mono (Nat.le_refl 0)
        (Nat.zero_le _) (Nat.zero_le _)
  unfold TokenReader.expect
  split
  · exact hboth reader rfl (h.mono (Nat.le_succ _) (Nat.le_succ _) (Nat.le_refl _))
  · exact hboth (reader.report _) rfl (h.report _)

end Orderly

section

variable {count token slack excess : Nat}

theorem orderly_attributeValue (h : reader.Orderly count 0 0 0) (key : Ident) :
    (reader.attributeValue key).2.Orderly count 1 1 0 := by
  have hmono : ∀ next : TokenReader, next.Orderly count 0 0 0 → next.Orderly count 1 1 0 :=
    fun next hnext => hnext.mono (Nat.zero_le 1) (Nat.zero_le 1) (Nat.le_refl 0)
  unfold attributeValue
  split
  · rename_i hequal
    have hvalue := h.advance (Nat.zero_le 2) (by simp [hequal])
    simp only
    split
    · exact hmono _ (hvalue.goesOver (Nat.zero_le 2) (goesOver_ident ‹_›))
    · exact hvalue.report _
  · exact hmono _ h

theorem orderly_oneAttribute (h : reader.Orderly count token slack excess) (htoken : token ≤ 2)
    (hid : reader.kind.isId) : reader.oneAttribute.2.Orderly count 1 1 0 :=
  (orderly_attributeValue (h.ident htoken hid) _).goesOver (Nat.le_succ 1)
    (goesOver_skipOver (by decide) _)

theorem orderly_attributes (before : Array Attribute) (reader : TokenReader)
    (h : reader.Orderly count 1 1 0) : (reader.attributes before).2.Orderly count 1 1 0 := by
  fun_induction attributes before reader with
  | case1 before reader hid _ ih => exact ih (orderly_oneAttribute h (Nat.le_succ 1) hid)
  | case2 before reader _ => exact h

theorem orderly_bracket (before : Array Attribute) (h : reader.Orderly count token slack excess)
    (htoken : token ≤ 2) (hkind : reader.kind = .lBracket) :
    (reader.bracket before).2.Orderly count 0 1 1 := by
  have hopen := (h.advance htoken (by simp [hkind])).mono (Nat.zero_le 1) (Nat.zero_le 1)
    (Nat.le_refl 0)
  exact (orderly_attributes before _ hopen).expect (Nat.le_refl 1) _

theorem orderly_brackets (before : Array Attribute) (reader : TokenReader)
    (h : reader.Orderly count token 1 excess) (htoken : token ≤ 2) (hexcess : 1 ≤ excess) :
    (reader.brackets before).2.Orderly count token 1 excess := by
  fun_induction brackets before reader with
  | case1 before reader hkind _ ih =>
      exact ih ((orderly_bracket before h htoken hkind).mono (Nat.zero_le _) (Nat.le_refl 1)
        hexcess)
  | case2 before reader _ => exact h

theorem orderly_attributeList? (h : reader.Orderly count token 1 excess) (htoken : token ≤ 2)
    (hexcess : 1 ≤ excess) : reader.attributeList?.2.Orderly count token 1 excess := by
  unfold attributeList?
  split
  · exact orderly_brackets #[] reader h htoken hexcess
  · exact h

theorem orderly_assignment (h : reader.Orderly count token slack excess) (htoken : token ≤ 2)
    (hkind : reader.kind = .equal) (key : Ident) :
    (reader.assignment key).2.Orderly count 1 1 0 := by
  have hvalue := h.advance htoken (by simp [hkind])
  unfold assignment
  simp only
  split
  · exact (hvalue.goesOver (Nat.zero_le 2) (goesOver_ident ‹_›)).mono (Nat.zero_le 1)
      (Nat.zero_le 1) (Nat.le_refl 0)
  · exact hvalue.report _

end

end DotGraph.TokenReader
