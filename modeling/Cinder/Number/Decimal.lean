import Cinder.Text

/-!
Decimal numerals and the double nearest to each. A numeral is a sign, a natural number written with
all the digits, and a power of ten.
-/
namespace Cinder

structure Decimal where
  negative : Bool
  digits : Nat
  exponent : Int

namespace Decimal

def infinity : Float := 1.0 / 0.0

/-- The double nearest to the numeral. Beyond the 400th place on either side of the point the answer
is known without computing the power of ten. -/
def toFloat (d : Decimal) : Float :=
  let places : Int := (Nat.toDigits 10 d.digits).length + d.exponent
  let size :=
    if d.digits = 0 then 0.0
    else if 400 < places then infinity
    else if places < -400 then 0.0
    else Float.ofScientific d.digits (d.exponent < 0) d.exponent.natAbs
  if d.negative then -size else size

/-- Splits a sign off. -/
def sign : Text → Bool × Text
  | [] => (false, [])
  | u :: rest =>
    if u = 45 then (true, rest)
    else if u = 43 then (false, rest)
    else (false, u :: rest)

/-- Reads digits, none or more. -/
def digitRun (t : Text) : Text × Text :=
  (t.takeWhile CodeUnit.isDigit, t.dropWhile CodeUnit.isDigit)

/-- Reads a point and the digits after it, or nothing. -/
def fraction : Text → Text × Text
  | [] => ([], [])
  | u :: rest => if u = 46 then digitRun rest else ([], u :: rest)

/-- Reads `e` or `E`, an optional sign and at least one digit, or nothing if there is no `e`. -/
def power : Text → Option (Int × Text)
  | [] => some (0, [])
  | u :: rest =>
    if u = 101 || u = 69 then
      let (negative, rest) := sign rest
      let (digits, rest) := digitRun rest
      if digits = [] then none
      else some (if negative then -digits.decimal else digits.decimal, rest)
    else some (0, u :: rest)

/-- The numeral with these digits before and after the point. -/
def ofParts (negative : Bool) (whole part : Text) (exponent : Int) : Decimal :=
  ⟨negative, (whole ++ part).decimal, exponent - part.length⟩

end Decimal

end Cinder
