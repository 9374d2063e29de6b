import DotGraph.Json.Scalar
import DotGraph.Proofs.Text.Run

namespace DotGraph.Json

/-! Strings and numbers that are written are read again. -/

/-- The characters of a string in which nothing is wrong, newest first. -/
def StringPrefix.ofChars (chars : List Char) : StringPrefix :=
  ⟨chars, none, false⟩

theorem hexQuad?_low : ∀ n < 0x20,
    hexQuad? '0' '0' (hexDigit (n / 16)) (hexDigit (n % 16)) = some n := by
  decide

theorem pushUnit_low {n : Nat} (h : n < 0x20) (chars : List Char) :
    (StringPrefix.ofChars chars).pushUnit n = .ofChars (Char.ofNat n :: chars) := by
  have hhigh : isHighSurrogate n = false := by
    simp [isHighSurrogate]
    omega
  have hlow : isLowSurrogate n = false := by
    simp [isLowSurrogate]
    omega
  simp [StringPrefix.ofChars, StringPrefix.pushUnit, hhigh, hlow]

theorem readString_escaped {d c : Char} (hd : d ≠ 'u') (hescaped : escaped? d = some c)
    (chars rest : List Char) :
    readString (.ofChars chars) ('\\' :: d :: rest) = readString (.ofChars (c :: chars)) rest := by
  rw [readString, if_neg hd, hescaped]
  · rfl
  · rintro _ _ _ _ _ rfl
    exact fun _ => hd rfl

theorem readString_quad {first second third fourth : Char} {unit : Nat}
    (h : hexQuad? first second third fourth = some unit) (read : StringPrefix) (rest : List Char) :
    readString read ('\\' :: 'u' :: first :: second :: third :: fourth :: rest) =
      readString (read.pushUnit unit) rest := by
  rw [readString, h]

theorem readString_unit (chars rest : List Char) {n : Nat} (h : n < 0x20) :
    readString (.ofChars chars)
        ('\\' :: 'u' :: '0' :: '0' :: hexDigit (n / 16) :: hexDigit (n % 16) :: rest) =
      readString (.ofChars (Char.ofNat n :: chars)) rest := by
  rw [readString_quad (hexQuad?_low n h), pushUnit_low h]

theorem readString_plain {c : Char} (hquote : c ≠ '"') (hslash : c ≠ '\\')
    (hcontrol : ¬ c.toNat < 0x20) (chars rest : List Char) :
    readString (.ofChars chars) (c :: rest) = readString (.ofChars (c :: chars)) rest := by
  rw [readString, if_neg hcontrol]
  · rfl
  all_goals simp_all

theorem readString_escapeChar (chars : List Char) (c : Char) (rest : List Char) :
    readString (.ofChars chars) (escapeChar c ++ rest) =
      readString (.ofChars (c :: chars)) rest := by
  unfold escapeChar
  -- seven characters have an escape of their own
  iterate 7
    split
    · subst_vars
      exact readString_escaped (by decide) rfl chars rest
  split
  · rename_i hcontrol
    have hunit := readString_unit chars rest hcontrol
    rwa [Char.ofNat_toNat] at hunit
  · exact readString_plain ‹_› ‹_› ‹_› chars rest

theorem readString_chars (chars text rest : List Char) :
    readString (.ofChars chars) (text.foldr (fun c rest => escapeChar c ++ rest) ('"' :: rest)) =
      ⟨.ok (String.ofList (chars.reverse ++ text)), .ok rest⟩ := by
  induction text generalizing chars with
  | nil =>
      rw [List.append_nil]
      rfl
  | cons c text ih => rw [List.foldr_cons, readString_escapeChar, ih, List.reverse_cons,
      List.append_assoc, List.singleton_append]

/-- A string is read up to the quote that was written behind it. -/
theorem readString_writeString (text : String) (rest : List Char) :
    ∃ written, writeString text rest = '"' :: written ∧
      readString .empty written = ⟨.ok text, .ok rest⟩ := by
  refine ⟨_, rfl, ?_⟩
  have hread := readString_chars [] text.toList rest
  rwa [List.reverse_nil, List.nil_append, String.ofList_toList] at hread

/-- A number cannot go on in the text. -/
def EndsNumber (text : List Char) : Prop :=
  ∀ c ∈ text.head?, c.isDigit = false ∧ c ≠ '.' ∧ c ≠ 'e' ∧ c ≠ 'E'

theorem digitRun_toDigits (n : Nat) {rest : List Char} (h : EndsNumber rest) :
    digitRun (Nat.toDigits 10 n ++ rest) = (Nat.toDigits 10 n, rest) := by
  have hdigits : ∀ c ∈ Nat.toDigits 10 n, c.isDigit :=
    fun c hc => Nat.isDigit_of_mem_toDigits (by decide) (by decide) hc
  have hstop : ∀ c ∈ rest.head?, c.isDigit = false := fun c hc => (h c hc).1
  rw [digitRun, takeWhile_append_stop hdigits hstop, dropWhile_append_stop hdigits hstop]

theorem digitChar_ne_zero : ∀ n < 10, 0 < n → n.digitChar ≠ '0' := by
  decide

theorem head?_toDigits {n : Nat} (h : 0 < n) : (Nat.toDigits 10 n).head? ≠ some '0' := by
  induction n using Nat.strongRecOn with
  | ind n ih =>
      rw [Nat.toDigits_eq_if (by decide)]
      split
      · rename_i hlt
        simpa using digitChar_ne_zero n hlt h
      · rename_i hle
        intro hhead
        obtain ⟨first, digits, hdigits⟩ :=
          List.exists_cons_of_ne_nil (Nat.toDigits_ne_nil (b := 10) (n := n / 10))
        refine ih (n / 10) (by omega) (by omega) ?_
        rwa [hdigits] at hhead ⊢

/-- A whole part is written without a zero in front. -/
theorem toDigits_zero_or (n : Nat) :
    ¬ ((Nat.toDigits 10 n).head? = some '0' ∧ 1 < (Nat.toDigits 10 n).length) := by
  rintro ⟨hhead, hlength⟩
  rcases Nat.eq_zero_or_pos n with rfl | hpos
  · exact absurd hlength (by decide)
  · exact head?_toDigits hpos hhead

theorem readExponent_of_ends {rest : List Char} (h : EndsNumber rest) (isNegative : Bool)
    (whole fraction : List Char) :
    readExponent isNegative whole fraction rest =
      ⟨.ok (.ofParts isNegative whole fraction none), .ok rest⟩ := by
  cases rest with
  | nil => rfl
  | cons c rest =>
      have hc := h c rfl
      unfold readExponent
      exact if_neg (not_or_intro hc.2.2.1 hc.2.2.2)

theorem readFraction_of_ends {rest : List Char} (h : EndsNumber rest) (isNegative : Bool)
    (whole : List Char) :
    readFraction isNegative whole rest =
      ⟨.ok (.ofParts isNegative whole [] none), .ok rest⟩ := by
  unfold readFraction
  split
  · exact absurd rfl (h '.' rfl).2.1
  · exact readExponent_of_ends h isNegative whole []

theorem isDigit_of_toDigits {n : Nat} {c : Char} {digits : List Char}
    (h : Nat.toDigits 10 n = c :: digits) : c.isDigit :=
  Nat.isDigit_of_mem_toDigits (by decide) (by decide) (h ▸ List.mem_cons_self)

theorem ne_of_isDigit {c d : Char} (hc : c.isDigit) (hd : d.isDigit = false) : c ≠ d := by
  rintro rfl
  rw [hd] at hc
  contradiction

/-- A number is read with all its digits. -/
theorem readNumber_toDigits (n : Nat) {rest : List Char} (h : EndsNumber rest) :
    readNumber (Nat.toDigits 10 n ++ rest) =
      ⟨.ok (.ofParts false (Nat.toDigits 10 n) [] none), .ok rest⟩ := by
  obtain ⟨c, digits, hdigits⟩ := List.exists_cons_of_ne_nil (Nat.toDigits_ne_nil (n := n))
  have hwhole : readNumber (Nat.toDigits 10 n ++ rest) =
      readWhole false (Nat.toDigits 10 n ++ rest) := by
    have hminus := ne_of_isDigit (isDigit_of_toDigits hdigits) (d := '-') rfl
    rw [hdigits, List.cons_append]
    unfold readNumber
    split <;> simp_all
  rw [hwhole, readWhole, digitRun_toDigits n h]
  simp only [toDigits_zero_or n, if_false]
  rw [if_neg (by simp [Nat.toDigits_ne_nil])]
  exact readFraction_of_ends h false _

theorem takeDigits_of_lt {value : Nat} {digits : List Char}
    (h : Nat.ofDigitChars 10 digits value < Numeral.wordBound) :
    Numeral.takeDigits value digits = (Nat.ofDigitChars 10 digits value, []) := by
  induction digits generalizing value with
  | nil => rfl
  | cons c digits ih =>
      have hsplit : Nat.ofDigitChars 10 (c :: digits) value =
          Nat.ofDigitChars 10 digits (Nat.ofDigitChars 10 [c] value) :=
        Nat.ofDigitChars_append (l := [c]) value
      have hle : Nat.ofDigitChars 10 [c] value ≤
          Nat.ofDigitChars 10 digits (Nat.ofDigitChars 10 [c] value) := by
        rw [Nat.ofDigitChars_eq_ofDigitChars_zero (l := digits)]
        exact Nat.le_add_right_of_le (Nat.le_mul_of_pos_left _ (Nat.pow_pos (by decide)))
      rw [hsplit] at h ⊢
      rw [Numeral.takeDigits, if_pos (Nat.lt_of_le_of_lt hle h), ih h]

/-- A number that fits into a word is read as itself. -/
theorem ofParts_toDigits {n : Nat} (h : n < Numeral.wordBound) :
    Numeral.ofParts false (Nat.toDigits 10 n) [] none = .natural n := by
  have hvalue := Nat.ofDigitChars_ten_toDigits (n := n)
  have htake : Numeral.takeDigits 0 (Nat.toDigits 10 n) = (n, []) := by
    rw [takeDigits_of_lt (by rwa [hvalue]), hvalue]
  simp [Numeral.ofParts, htake]

end DotGraph.Json
