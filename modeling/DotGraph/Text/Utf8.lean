namespace DotGraph.Text

/-! Bytes read as UTF-8.  Bytes that are no text are read with U+FFFD in the place of every
longest piece that starts a character without completing it. -/

def replacementChar : Char := '\uFFFD'

/-! A character of which some bytes have been read: how many are missing, the range that the next
one has to lie in, and the bits so far. -/

structure PartialChar where
  missing : Nat
  low : UInt8
  high : UInt8
  bits : Nat

inductive LeadByte where
  | whole (c : Char)
  | opens (partialChar : PartialChar)
  | invalid

def leadByte (b : UInt8) : LeadByte :=
  if b < 0x80 then .whole (Char.ofNat b.toNat)
  else if b < 0xC2 then .invalid
  else if b < 0xE0 then .opens ⟨1, 0x80, 0xBF, b.toNat % 0x20⟩
  else if b = 0xE0 then .opens ⟨2, 0xA0, 0xBF, 0⟩
  else if b = 0xED then .opens ⟨2, 0x80, 0x9F, 0xD⟩
  else if b < 0xF0 then .opens ⟨2, 0x80, 0xBF, b.toNat % 0x10⟩
  else if b = 0xF0 then .opens ⟨3, 0x90, 0xBF, 0⟩
  else if b < 0xF4 then .opens ⟨3, 0x80, 0xBF, b.toNat % 0x8⟩
  else if b = 0xF4 then .opens ⟨3, 0x80, 0x8F, 4⟩
  else .invalid

/-- The characters read so far, newest first, and the one being read. -/
structure Decoder where
  pending : Option PartialChar
  decoded : List Char

namespace Decoder

def empty : Decoder := ⟨none, []⟩

def openWith (b : UInt8) (decoded : List Char) : Decoder :=
  match leadByte b with
  | .whole c => ⟨none, c :: decoded⟩
  | .opens partialChar => ⟨some partialChar, decoded⟩
  | .invalid => ⟨none, replacementChar :: decoded⟩

def feed (decoder : Decoder) (b : UInt8) : Decoder :=
  match decoder.pending with
  | none => openWith b decoder.decoded
  | some p =>
      if p.low ≤ b ∧ b ≤ p.high then
        let bits := p.bits * 0x40 + b.toNat % 0x40
        if p.missing ≤ 1 then ⟨none, Char.ofNat bits :: decoder.decoded⟩
        else ⟨some ⟨p.missing - 1, 0x80, 0xBF, bits⟩, decoder.decoded⟩
      else openWith b (replacementChar :: decoder.decoded)

def finish (decoder : Decoder) : List Char :=
  match decoder.pending with
  | none => decoder.decoded.reverse
  | some _ => (replacementChar :: decoder.decoded).reverse

end Decoder

def decodeLossy (bytes : ByteArray) : List Char :=
  match String.fromUTF8? bytes with
  | some text => text.toList
  | none => (bytes.toList.foldl Decoder.feed Decoder.empty).finish

end DotGraph.Text
