import DotGraph.Proofs.Reader.Proceeds

namespace DotGraph.TokenReader

/-! A reader goes over the tokens from the first one on, and counts each that it pulls, also where
there is none left. -/

/-- Pulling tokens leads from one reader to the other. -/
structure Pulls (source target : TokenReader) : Prop where
  pulled_le : source.pulled ≤ target.pulled
  unread_eq : target.unread = source.unread.drop (target.pulled - source.pulled)
  finish_eq : target.finish = source.finish

namespace Pulls

theorem refl (reader : TokenReader) : reader.Pulls reader where
  pulled_le := Nat.le_refl _
  unread_eq := by rw [Nat.sub_self, List.drop_zero]
  finish_eq := rfl

theorem trans {first second third : TokenReader} (h : first.Pulls second) (k : second.Pulls third) :
    first.Pulls third where
  pulled_le := Nat.le_trans h.pulled_le k.pulled_le
  unread_eq := by
    have hfirst := h.pulled_le
    have hsecond := k.pulled_le
    rw [k.unread_eq, h.unread_eq, List.drop_drop]
    congr 1
    omega
  finish_eq := k.finish_eq.trans h.finish_eq

theorem advance {source target : TokenReader} (h : source.Pulls target) :
    source.Pulls target.advance :=
  h.trans
    { pulled_le := Nat.le_succ _
      unread_eq := by
        have hone : target.pulled + 1 - target.pulled = 1 := by omega
        change target.unread.tail = target.unread.drop (target.pulled + 1 - target.pulled)
        rw [hone, List.drop_one]
      finish_eq := rfl }

theorem reportAt {source target : TokenReader} (h : source.Pulls target) (position : Position)
    (fault : ParseFault) : source.Pulls (target.reportAt position fault) :=
  ⟨h.pulled_le, h.unread_eq, h.finish_eq⟩

theorem report {source target : TokenReader} (h : source.Pulls target) (fault : ParseFault) :
    source.Pulls (target.report fault) :=
  h.reportAt _ fault

theorem enter {source target : TokenReader} (h : source.Pulls target) :
    source.Pulls target.enter :=
  ⟨h.pulled_le, h.unread_eq, h.finish_eq⟩

theorem leave {source target : TokenReader} (h : source.Pulls target) :
    source.Pulls target.leave :=
  ⟨h.pulled_le, h.unread_eq, h.finish_eq⟩

end Pulls

theorem Proceeds.pulls {source target : TokenReader} (h : source.Proceeds target) :
    source.Pulls target := by
  induction h with
  | refl reader => exact Pulls.refl reader
  | advance _ ih => exact ih.advance
  | reportAt _ position fault ih => exact ih.reportAt position fault
  | block _ _ ih ihinside => exact (ih.enter.trans ihinside).leave

theorem Moves.pulls {source target : TokenReader} (h : source.Moves target) :
    source.Pulls target :=
  h.proceeds.pulls

end DotGraph.TokenReader
