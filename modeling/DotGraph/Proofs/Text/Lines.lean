import DotGraph.Text.Quoted
import Mathlib.Tactic.SplitIfs

namespace DotGraph.Text

/-! Texts line by line.  Numbers, and texts between quotes, are shown on one line. -/

/-- What is between newlines, the first of them and the last, even if it is empty. -/
def lines (text : String) : List String :=
  (text.toList.splitOn '\n').map String.ofList

def IsLine (text : String) : Prop :=
  '\n' ∉ text.toList

instance (text : String) : Decidable (IsLine text) :=
  inferInstanceAs (Decidable (_ ∉ _))

theorem IsLine.append {front back : String} (h : IsLine front) (k : IsLine back) :
    IsLine (front ++ back) := by
  rw [IsLine, String.toList_append, List.mem_append]
  exact not_or_intro h k

theorem isLine_ofList {text : List Char} (h : '\n' ∉ text) : IsLine (String.ofList text) := by
  rwa [IsLine, String.toList_ofList]

/-- Lines with newlines between them are the lines of the whole text. -/
theorem lines_intercalate {texts : List String} (h : ∀ text ∈ texts, IsLine text)
    (hne : texts ≠ []) : lines (String.intercalate "\n" texts) = texts := by
  have hlines : ∀ line ∈ texts.map String.toList, '\n' ∉ line := by
    intro line hmem
    obtain ⟨text, htext, rfl⟩ := List.mem_map.mp hmem
    exact h text htext
  have hsplit := List.splitOn_intercalate '\n' hlines (by simpa using hne)
  rw [lines, String.toList_intercalate]
  exact (congrArg (List.map String.ofList) hsplit).trans (by simp)

/-- Lines with a newline behind each of them are the lines of the whole text, but for an empty one
at its end. -/
theorem lines_join {texts : List String} (h : ∀ text ∈ texts, IsLine text) :
    lines (String.join (texts.map (· ++ "\n"))) = texts ++ [""] := by
  induction texts with
  | nil => rfl
  | cons text texts ih =>
      have hfirst : '\n' ∉ text.toList := h text List.mem_cons_self
      have hjoin : (String.join ((text :: texts).map (· ++ "\n"))).toList =
          text.toList ++ '\n' :: (String.join (texts.map (· ++ "\n"))).toList := by
        simp
      rw [lines, hjoin, List.splitOn_append_cons_self_of_not_mem hfirst, List.map_cons,
        String.ofList_toList, List.cons_append]
      exact congrArg (text :: ·) (ih fun line hmem => h line (List.mem_cons_of_mem _ hmem))

theorem not_mem_toDigits {base : Nat} (hbase : 1 < base) (n : Nat) :
    '\n' ∉ Nat.toDigits base n := by
  have hdigit (n : Nat) : '\n' ≠ Nat.digitChar n := by
    have hhex : ∀ n < 16, '\n' ≠ Nat.digitChar n := by decide
    by_cases hlt : n < 16
    · exact hhex n hlt
    · rw [Nat.digitChar_eq_star.mpr (Nat.le_of_not_lt hlt)]
      decide
  induction n using Nat.strongRecOn with
  | ind n ih =>
      rw [Nat.toDigits_eq_if hbase]
      split
      · rw [List.mem_singleton]
        exact hdigit n
      · have hless : n / base < n := Nat.div_lt_self (by omega) hbase
        rw [List.mem_append, List.mem_singleton]
        exact not_or_intro (ih _ hless) (hdigit _)

theorem isLine_toString (n : Nat) : IsLine (toString n) :=
  isLine_ofList (not_mem_toDigits (by decide) n)

theorem not_mem_quotedChar (c : Char) : '\n' ∉ quotedChar c := by
  unfold quotedChar
  split_ifs with _ _ hnewline
  any_goals decide
  · have hdigits : '\n' ∉ hexDigits c.toNat := not_mem_toDigits (by decide) c.toNat
    simpa using hdigits
  · rw [List.mem_singleton]
    exact Ne.symm hnewline

/-- Whatever a text holds, between quotes it is a single line. -/
theorem isLine_quoted (text : String) : IsLine (quoted text) := by
  have hchars : '\n' ∉ text.toList.flatMap quotedChar := by
    rw [List.mem_flatMap]
    rintro ⟨c, _, hmem⟩
    exact not_mem_quotedChar c hmem
  refine isLine_ofList ?_
  simpa using hchars

end DotGraph.Text
