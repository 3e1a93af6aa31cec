import Cinder.Text

/-!
The decimal text of a double: the fewest digits that read back as the same double, and of those the
ones nearest to it.
-/
namespace Cinder.Number

/-- A finite positive double as `mantissa * 2 ^ exponent`. -/
structure Binary where
  mantissa : Nat
  exponent : Int

/-- The leading bit of a mantissa of 53 bits. -/
def leading : Nat := Nat.pow 2 52

/-- Splits the bits of a finite double; the sign is left out. -/
def Binary.ofBits (bits : UInt64) : Binary :=
  let field := (bits >>> 52).toNat % 2048
  let tail := bits.toNat % leading
  if field = 0 then ⟨tail, -1074⟩ else ⟨leading + tail, (field : Int) - 1075⟩

/-- The fraction `num / den`. -/
structure Ratio where
  num : Nat
  den : Nat

/-- A natural number times a power of two and a power of ten. -/
def Ratio.scale (n : Nat) (two ten : Int) : Ratio :=
  ⟨n * Nat.pow 2 two.toNat * Nat.pow 10 ten.toNat,
    Nat.pow 2 (-two).toNat * Nat.pow 10 (-ten).toNat⟩

/-- The multiple of `10 ^ place` that reads back as `b` and is nearest to it, if there is one, as
the factor. Readings round to the nearest double and a tie goes to the even mantissa, so the ends of
the interval around `b` belong to it exactly if the mantissa is even. -/
def Binary.factorAt (b : Binary) (place : Int) : Option Nat :=
  let two := b.exponent - 2
  let value := Ratio.scale (4 * b.mantissa) two (-place)
  let down := if b.mantissa = leading && b.exponent != -1074 then 1 else 2
  let low := Ratio.scale (4 * b.mantissa - down) two (-place)
  let high := Ratio.scale (4 * b.mantissa + 2) two (-place)
  let even := b.mantissa % 2 = 0
  let fits (n : Nat) : Bool :=
    if even then low.num ≤ n * low.den && n * high.den ≤ high.num
    else low.num < n * low.den && n * high.den < high.num
  let below := value.num / value.den
  let above := below + 1
  match below ≠ 0 && fits below, fits above with
  | true, true =>
    let gapBelow := value.num - below * value.den
    let gapAbove := above * value.den - value.num
    if gapBelow < gapAbove || gapBelow = gapAbove && below % 2 = 0 then some below else some above
  | true, false => some below
  | false, true => some above
  | false, false => none

/-- The digits and the place of the last one, from the highest place at which some number reads back.
Every finite double lies between the places tried. -/
def Binary.shortest (b : Binary) : Nat × Int :=
  ((List.range 800).findSome? fun i : Nat =>
    let place : Int := 400 - (i : Int)
    (b.factorAt place).map (·, place)).getD (0, 0)

def zeros (n : Nat) : Text := List.replicate n 48

/-- Writes digits whose last one stands at `place`: positional from the seventh place after the point
to the 21st before it, with a power of ten outside of that. -/
def layout (n : Nat) (place : Int) : Text :=
  let digits := Text.ofNat n
  let point : Int := digits.length + place
  if 0 ≤ place && point ≤ 21 then digits ++ zeros place.toNat
  else if 0 < point && point ≤ 21 then
    digits.take point.toNat ++ "." ++ digits.drop point.toNat
  else if -6 < point && point ≤ 0 then "0." ++ zeros (-point).toNat ++ digits
  else
    let power := point - 1
    let part : Text := if digits.length = 1 then [] else "." ++ digits.drop 1
    let sign : Text := if power < 0 then "-" else "+"
    digits.take 1 ++ part ++ "e" ++ sign ++ Text.ofNat power.natAbs

/-- The significant digits of a finite double other than zero and the place of the last one. -/
def digits (x : Float) : Nat × Int := (Binary.ofBits x.toBits).shortest

/-- The text of any double; both zeros are `0`. -/
def render (x : Float) : Text :=
  if x.isNaN then "NaN"
  else if x == 0.0 then "0"
  else
    let size : Text :=
      if x.isInf then "Infinity"
      else
        let (n, place) := digits x
        layout n place
    if x < 0.0 then "-" ++ size else size

end Cinder.Number
