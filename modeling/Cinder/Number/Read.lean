import Cinder.Number.Decimal
import Cinder.Text.Blank

/-!
Reading a number from a text of any form. Blanks around it do not count, an empty text is zero, and
a text that is no number gives the double that is not a number.
-/
namespace Cinder.Number

def notANumber : Float := 0.0 / 0.0

/-- A natural number in the given base; at least one digit and nothing else. -/
def readBase (base : Nat) (digits : Text) : Option Nat :=
  if digits = [] then none
  else digits.foldlM (fun n u => (u.digitIn base).map (base * n + ·)) 0

/-- A decimal numeral: an optional sign, digits with an optional point among or around them, and an
optional power of ten. -/
def readDecimal (t : Text) : Option Decimal :=
  let (negative, t) := Decimal.sign t
  let (whole, t) := Decimal.digitRun t
  let (part, t) := Decimal.fraction t
  if whole = [] && part = [] then none
  else match Decimal.power t with
    | some (exponent, []) => some (.ofParts negative whole part exponent)
    | _ => none

/-- A text without blanks around it. -/
def readTrimmed : Text → Option Float
  | [] => some 0.0
  | t =>
    let (negative, size) := Decimal.sign t
    if size = Text.ofString "Infinity" then
      some (if negative then -Decimal.infinity else Decimal.infinity)
    else match t with
      | 48 :: u :: digits =>
        if u = 120 || u = 88 then (readBase 16 digits).map Float.ofNat
        else if u = 111 || u = 79 then (readBase 8 digits).map Float.ofNat
        else if u = 98 || u = 66 then (readBase 2 digits).map Float.ofNat
        else (readDecimal t).map Decimal.toFloat
      | _ => (readDecimal t).map Decimal.toFloat

def read (t : Text) : Float := (readTrimmed t.trim).getD notANumber

end Cinder.Number
