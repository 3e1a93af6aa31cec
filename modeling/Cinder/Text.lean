/-!
Texts are finite sequences of 16-bit code units, the unit in which Cinder counts columns and
lengths. A character outside the basic plane takes two units, and a text may hold half of such a
pair, so texts are not strings.
-/
namespace Cinder

abbrev CodeUnit := UInt16

abbrev Text := List CodeUnit

namespace CodeUnit

/-- The unit of a character of the basic plane. -/
def ofChar (c : Char) : CodeUnit := c.toNat.toUInt16

def newline : CodeUnit := 10
def quote : CodeUnit := 34
def backslash : CodeUnit := 92
def slash : CodeUnit := 47

def isDigit (u : CodeUnit) : Bool := 48 ≤ u && u ≤ 57

def isUpper (u : CodeUnit) : Bool := 65 ≤ u && u ≤ 90

def isLower (u : CodeUnit) : Bool := 97 ≤ u && u ≤ 122

/-- The number a decimal digit stands for. -/
def digitValue (u : CodeUnit) : Nat := u.toNat - 48

/-- The digit of a base up to sixteen that a unit stands for. -/
def digitIn (base : Nat) (u : CodeUnit) : Option Nat :=
  let digit? : Option Nat :=
    if u.isDigit then some u.digitValue
    else if 97 ≤ u && u ≤ 102 then some (u.toNat - 87)
    else if 65 ≤ u && u ≤ 70 then some (u.toNat - 55)
    else none
  digit?.filter (· < base)

end CodeUnit

namespace Text

/-- A character outside the basic plane becomes a high and a low half. -/
def ofChar (c : Char) : Text :=
  if c.toNat < 0x10000 then [CodeUnit.ofChar c]
  else
    let offset := c.toNat - 0x10000
    [(0xD800 + offset / 0x400).toUInt16, (0xDC00 + offset % 0x400).toUInt16]

def ofString (s : String) : Text := s.toList.flatMap ofChar

instance : Coe String Text := ⟨ofString⟩

/-- The decimal digits of a natural number. -/
def ofNat (n : Nat) : Text := (Nat.toDigits 10 n).map CodeUnit.ofChar

def ofInt : Int → Text
  | .ofNat n => ofNat n
  | .negSucc n => "-" ++ ofNat (n + 1)

/-- The number that a sequence of decimal digits stands for. -/
def decimal (digits : Text) : Nat := digits.foldl (fun n u => 10 * n + u.digitValue) 0

/-- The parts with `separator` between each two of them. -/
def join (separator : Text) (parts : List Text) : Text := separator.intercalate parts

/-- The pieces between newlines; there is one more of them than there are newlines. -/
def lines : Text → List Text
  | [] => [[]]
  | u :: rest =>
    if u = CodeUnit.newline then [] :: lines rest
    else match lines rest with
      | [] => [[u]]
      | line :: more => (u :: line) :: more

end Text

end Cinder
