import Cinder.Text

/-!
Texts as UTF-8. Decoding never fails: each longest run of bytes that begins a character and does not
complete it stands for one replacement character, and so does each byte that begins none.
-/
namespace Cinder.Text

/-- The replacement character. -/
def replacement : CodeUnit := 0xFFFD

/-- A character of which some bytes are still to come: how many, the range of the next one, and the
bits so far. -/
structure Pending where
  missing : Nat
  low : UInt8
  high : UInt8
  bits : Nat

/-- The units of a code point. -/
def ofCodePoint (n : Nat) : Text :=
  if n < 0x10000 then [n.toUInt16]
  else [(0xD800 + (n - 0x10000) / 0x400).toUInt16, (0xDC00 + (n - 0x10000) % 0x400).toUInt16]

/-- Reads the first byte of a character. -/
def decodeFirst (b : UInt8) : Text × Option Pending :=
  let bits := b.toNat
  if b < 0x80 then ([b.toUInt16], none)
  else if 0xC2 ≤ b && b ≤ 0xDF then ([], some ⟨1, 0x80, 0xBF, bits - 0xC0⟩)
  else if b = 0xE0 then ([], some ⟨2, 0xA0, 0xBF, bits - 0xE0⟩)
  else if b = 0xED then ([], some ⟨2, 0x80, 0x9F, bits - 0xE0⟩)
  else if 0xE1 ≤ b && b ≤ 0xEF then ([], some ⟨2, 0x80, 0xBF, bits - 0xE0⟩)
  else if b = 0xF0 then ([], some ⟨3, 0x90, 0xBF, bits - 0xF0⟩)
  else if b = 0xF4 then ([], some ⟨3, 0x80, 0x8F, bits - 0xF0⟩)
  else if 0xF1 ≤ b && b ≤ 0xF3 then ([], some ⟨3, 0x80, 0xBF, bits - 0xF0⟩)
  else ([replacement], none)

/-- Reads a byte after those of an unfinished character. -/
def decodeNext (p : Pending) (b : UInt8) : Text × Option Pending :=
  if p.low ≤ b && b ≤ p.high then
    let bits := p.bits * 64 + (b.toNat - 0x80)
    match p.missing with
    | 0 | 1 => (ofCodePoint bits, none)
    | missing + 1 => ([], some ⟨missing, 0x80, 0xBF, bits⟩)
  else
    let (t, pending) := decodeFirst b
    (replacement :: t, pending)

def decodeFrom : Option Pending → List UInt8 → Text
  | none, [] => []
  | some _, [] => [replacement]
  | pending, b :: rest =>
    let (t, pending) := match pending with
      | none => decodeFirst b
      | some p => decodeNext p b
    t ++ decodeFrom pending rest

def decode (bytes : List UInt8) : Text := decodeFrom none bytes

/-- The characters of a text; half a pair that stands alone becomes the replacement character. -/
def toChars : Text → List Char
  | [] => []
  | [u] => [if 0xD800 ≤ u && u ≤ 0xDFFF then '�' else Char.ofNat u.toNat]
  | u :: v :: rest =>
    if 0xD800 ≤ u && u ≤ 0xDBFF && 0xDC00 ≤ v && v ≤ 0xDFFF then
      Char.ofNat (0x10000 + (u.toNat - 0xD800) * 0x400 + (v.toNat - 0xDC00)) :: toChars rest
    else if 0xD800 ≤ u && u ≤ 0xDFFF then '�' :: toChars (v :: rest)
    else Char.ofNat u.toNat :: toChars (v :: rest)

def toString (t : Text) : String := String.ofList t.toChars

end Cinder.Text
