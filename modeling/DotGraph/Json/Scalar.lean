import DotGraph.Binary64
import DotGraph.Json
import DotGraph.Text.Hex

namespace DotGraph.Json

/-! The strings and numbers of a JSON text.  A value that is only passed over is held to less than
one that is wanted: its escapes need not make up characters, and its size does not matter.  So both
are told here, what the value says and where the text goes on. -/

/-- Why a JSON text is no value of a type.  The text ends too early, it is not JSON, or it is JSON
of another shape. -/
inductive ReadFault where
  | endOfText
  | malformed
  | mismatch
deriving DecidableEq, Repr

def hexQuad? (first second third fourth : Char) : Option Nat := do
  let first ← Text.hexValue? first
  let second ← Text.hexValue? second
  let third ← Text.hexValue? third
  let fourth ← Text.hexValue? fourth
  return ((first * 16 + second) * 16 + third) * 16 + fourth

def isHighSurrogate (unit : Nat) : Bool :=
  0xD800 ≤ unit && unit < 0xDC00

def isLowSurrogate (unit : Nat) : Bool :=
  0xDC00 ≤ unit && unit < 0xE000

def joinSurrogates (high low : Nat) : Char :=
  Char.ofNat (0x10000 + (high - 0xD800) * 0x400 + (low - 0xDC00))

def escaped? (c : Char) : Option Char :=
  if c = '"' ∨ c = '\\' ∨ c = '/' then some c
  else if c = 'b' then some '\x08'
  else if c = 'f' then some '\x0c'
  else if c = 'n' then some '\n'
  else if c = 'r' then some '\r'
  else if c = 't' then some '\t'
  else none

/-- An escape of four hexadecimal digits that is cut off, which is told by the bytes that are left,
or has something else in it. -/
def hexFault (rest : List Char) : ReadFault :=
  if rest.foldl (fun size c => size + c.utf8Size) 0 < 4 then .endOfText else .malformed

/-- The characters of a string read so far, newest first, or the fact that its escapes make up no
characters; and the first half of a surrogate pair when the second half has to follow. -/
structure StringPrefix where
  chars : List Char
  high : Option Nat
  isFlawed : Bool

namespace StringPrefix

def empty : StringPrefix := ⟨[], none, false⟩

def push (read : StringPrefix) (c : Char) : StringPrefix :=
  ⟨c :: read.chars, none, read.isFlawed || read.high.isSome⟩

def pushUnit (read : StringPrefix) (unit : Nat) : StringPrefix :=
  match read.high with
  | some high =>
      if isLowSurrogate unit then
        ⟨joinSurrogates high unit :: read.chars, none, read.isFlawed⟩
      else ⟨read.chars, none, true⟩
  | none =>
      if isHighSurrogate unit then ⟨read.chars, some unit, read.isFlawed⟩
      else if isLowSurrogate unit then ⟨read.chars, none, true⟩
      else ⟨Char.ofNat unit :: read.chars, none, read.isFlawed⟩

/-- What the string says when it ends here. -/
def finish (read : StringPrefix) : Except ReadFault String :=
  if read.isFlawed || read.high.isSome then .error .malformed
  else .ok (String.ofList read.chars.reverse)

/-- What is wrong with the string when the text is no JSON from here on. -/
def fault (read : StringPrefix) (fault : ReadFault) : ReadFault :=
  if read.isFlawed then .malformed else fault

end StringPrefix

/-- What a piece of text says, and the text behind it. -/
structure Scanned (α : Type) where
  value : Except ReadFault α
  rest : Except ReadFault (List Char)

def Scanned.broken {α : Type} (wanted skipped : ReadFault) : Scanned α :=
  ⟨.error wanted, .error skipped⟩

/-- Reads up to the closing quote. -/
def readString (read : StringPrefix) : List Char → Scanned String
  | [] => .broken (read.fault .endOfText) .endOfText
  | '"' :: rest => ⟨read.finish, .ok rest⟩
  | '\\' :: [] => .broken (read.fault .endOfText) .endOfText
  | '\\' :: 'u' :: first :: second :: third :: fourth :: rest =>
      match hexQuad? first second third fourth with
      | some unit => readString (read.pushUnit unit) rest
      | none => .broken (read.fault .malformed) .malformed
  | '\\' :: c :: rest =>
      if c = 'u' then .broken (read.fault (hexFault rest)) (hexFault rest)
      else
        match escaped? c with
        | some c => readString (read.push c) rest
        | none => .broken (read.fault .malformed) .malformed
  | c :: rest =>
      if c.toNat < 0x20 then .broken (read.fault .malformed) .malformed
      else readString (read.push c) rest

/-- A natural number of 64 bits, or any other number, which may be beyond all floating point
numbers. -/
inductive Numeral where
  | natural (value : Nat)
  | other (isFinite : Bool)
deriving DecidableEq, Repr

namespace Numeral

def wordBound : Nat := Nat.pow 2 64

/-- Takes digits while they fit into a word behind the value so far, and leaves the others. -/
def takeDigits (value : Nat) : List Char → Nat × List Char
  | [] => (value, [])
  | c :: digits =>
      let longer := Nat.ofDigitChars 10 [c] value
      if longer < wordBound then takeDigits longer digits else (value, c :: digits)

/-- Whether the product of the two floating point numbers for the significand and for the power of
ten is one too.  From `10 ^ 309` on the power is none. -/
def isFinite (significand : Nat) (exponent : Int) : Bool :=
  significand = 0 || exponent < 0 || exponent ≤ 308 &&
    Binary64.nearest significand * Binary64.nearest (Nat.pow 10 exponent.toNat) < Binary64.bound

/-- Only digits that fit into a word count.  Each other digit of the whole part stands for a factor
of ten, and each other digit of the fraction for nothing. -/
def ofParts (isNegative : Bool) (whole fraction : List Char) (exponent : Option Int) : Numeral :=
  let (value, surplus) := takeDigits 0 whole
  if !isNegative && fraction.isEmpty && exponent.isNone && surplus.isEmpty then .natural value
  else
    let (value, ignored) := takeDigits value fraction
    let places := fraction.length - ignored.length
    .other (isFinite value (exponent.getD 0 + surplus.length - places))

end Numeral

/-- A number that is cut off is malformed where it is only passed over. -/
def numberFault {α : Type} (rest : List Char) : Scanned α :=
  .broken (if rest.isEmpty then .endOfText else .malformed) .malformed

def digitRun (text : List Char) : List Char × List Char :=
  (text.takeWhile Char.isDigit, text.dropWhile Char.isDigit)

def readExponent (isNegative : Bool) (whole fraction rest : List Char) : Scanned Numeral :=
  match rest with
  | c :: rest =>
      if c = 'e' ∨ c = 'E' then
        let (sign, rest) := match rest with
          | '-' :: rest => (-1, rest)
          | '+' :: rest => (1, rest)
          | rest => ((1 : Int), rest)
        let (digits, rest) := digitRun rest
        if digits.isEmpty then numberFault rest
        else
          ⟨.ok (.ofParts isNegative whole fraction
            (some (sign * Nat.ofDigitChars 10 digits 0))), .ok rest⟩
      else ⟨.ok (.ofParts isNegative whole fraction none), .ok (c :: rest)⟩
  | [] => ⟨.ok (.ofParts isNegative whole fraction none), .ok []⟩

def readFraction (isNegative : Bool) (whole rest : List Char) : Scanned Numeral :=
  match rest with
  | '.' :: rest =>
      let (digits, rest) := digitRun rest
      if digits.isEmpty then numberFault rest
      else readExponent isNegative whole digits rest
  | rest => readExponent isNegative whole [] rest

/-- A whole part has no zero in front. -/
def readWhole (isNegative : Bool) (text : List Char) : Scanned Numeral :=
  let (whole, rest) := digitRun text
  if whole.isEmpty then numberFault rest
  else if whole.head? = some '0' ∧ 1 < whole.length then .broken .malformed .malformed
  else readFraction isNegative whole rest

def readNumber (text : List Char) : Scanned Numeral :=
  match text with
  | '-' :: rest => readWhole true rest
  | text => readWhole false text

theorem readString_rest_le {read : StringPrefix} {text rest : List Char}
    (h : (readString read text).rest = .ok rest) : rest.length ≤ text.length := by
  fun_induction readString read text
  all_goals simp only [Scanned.broken, reduceCtorEq, Except.ok.injEq, List.length_cons] at *
  case case2 => rw [h]; omega
  case case4 ih => have := ih h; omega
  case case7 ih => have := ih h; omega
  case case10 ih => have := ih h; omega

private theorem digitRun_rest_le (text : List Char) :
    (digitRun text).2.length ≤ text.length :=
  (List.dropWhile_sublist _).length_le

private theorem digitRun_rest_lt {text : List Char} (h : (digitRun text).1.isEmpty = false) :
    (digitRun text).2.length < text.length := by
  have hsplit := congrArg List.length
    (List.takeWhile_append_dropWhile (p := Char.isDigit) (l := text))
  have hpositive := List.length_pos_iff.mpr (List.isEmpty_eq_false_iff.mp h)
  simp only [digitRun, List.length_append] at *
  omega

private theorem readExponent_rest_le {isNegative : Bool} {whole fraction text rest : List Char}
    (h : (readExponent isNegative whole fraction text).rest = .ok rest) :
    rest.length ≤ text.length := by
  unfold readExponent numberFault Scanned.broken at h
  have hrun := digitRun_rest_le
  grind

private theorem readFraction_rest_le {isNegative : Bool} {whole text rest : List Char}
    (h : (readFraction isNegative whole text).rest = .ok rest) : rest.length ≤ text.length := by
  unfold readFraction numberFault Scanned.broken at h
  have hrun := digitRun_rest_le
  have hexponent := @readExponent_rest_le
  grind

private theorem readWhole_rest_lt {isNegative : Bool} {text rest : List Char}
    (h : (readWhole isNegative text).rest = .ok rest) : rest.length < text.length := by
  unfold readWhole numberFault Scanned.broken at h
  have hrun := @digitRun_rest_lt text
  have hfraction := @readFraction_rest_le
  grind

theorem readNumber_rest_lt {text rest : List Char} (h : (readNumber text).rest = .ok rest) :
    rest.length < text.length := by
  unfold readNumber at h
  have hwhole := @readWhole_rest_lt
  grind

end DotGraph.Json
