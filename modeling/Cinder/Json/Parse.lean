import Cinder.Json
import Cinder.Number.Decimal

/-!
Reading JSON strictly: no comments, no trailing commas, no leading zeros, no raw control units in
strings. Each reader returns what it read and what is left of the text. Values and the items inside
them are read with a number of steps that the length of the text bounds.
-/
namespace Cinder.Json

def isSpace (u : CodeUnit) : Bool := u = 32 || u = 9 || u = 10 || u = 13

def skip (t : Text) : Text := t.dropWhile isSpace

/-- The unit that four hexadecimal digits stand for. -/
def hexUnit (a b c d : CodeUnit) : Option CodeUnit := do
  let a ← a.digitIn 16
  let b ← b.digitIn 16
  let c ← c.digitIn 16
  let d ← d.digitIn 16
  return (((a * 16 + b) * 16 + c) * 16 + d).toUInt16

/-- The unit that a backslash before one of `"\/bfnrt` stands for. -/
def escaped (u : CodeUnit) : Option CodeUnit :=
  if u = 34 || u = 92 || u = 47 then some u
  else if u = 98 then some 8
  else if u = 102 then some 12
  else if u = 110 then some 10
  else if u = 114 then some 13
  else if u = 116 then some 9
  else none

/-- Reads a string after its opening quote. -/
def stringBody : Text → Option (Text × Text)
  | [] => none
  | u :: rest =>
    if u = 34 then some ([], rest)
    else if u < 32 then none
    else if u = 92 then
      match rest with
      | 117 :: a :: b :: c :: d :: rest => do
        let unit ← hexUnit a b c d
        let (body, rest) ← stringBody rest
        return (unit :: body, rest)
      | e :: rest => do
        let unit ← escaped e
        let (body, rest) ← stringBody rest
        return (unit :: body, rest)
      | [] => none
    else do
      let (body, rest) ← stringBody rest
      return (u :: body, rest)

/-- The whole part of a numeral has no zero before another digit. -/
def plainWhole (whole : Text) : Bool := whole = [48] || whole != [] && whole.head? != some 48

/-- A point must be followed by a digit. -/
def pointed : Text → Option (Text × Text)
  | [] => some ([], [])
  | u :: rest =>
    if u = 46 then
      let (part, rest) := Decimal.digitRun rest
      if part = [] then none else some (part, rest)
    else some ([], u :: rest)

/-- Reads a numeral. -/
def numeral (t : Text) : Option (Decimal × Text) := do
  let (negative, t) := match t with
    | [] => (false, [])
    | u :: rest => if u = 45 then (true, rest) else (false, u :: rest)
  let (whole, t) := Decimal.digitRun t
  if !plainWhole whole then none
  let (part, t) ← pointed t
  let (exponent, t) ← Decimal.power t
  return (.ofParts negative whole part exponent, t)

/-- The constants and what they stand for. -/
def constants : List (Text × Json) := [("null", .null), ("true", .bool true), ("false", .bool false)]

/-- Reads one of the constants. -/
def constant (t : Text) : Option (Json × Text) :=
  constants.findSome? fun (word, value) =>
    if word.isPrefixOf t then some (value, t.drop word.length) else none

mutual

/-- Reads a value whose first unit is the first of the text. -/
def value : Nat → Text → Option (Json × Text)
  | 0, _ => none
  | _ + 1, [] => none
  | steps + 1, u :: rest =>
    if u = 34 then do
      let (t, rest) ← stringBody rest
      return (.string t, rest)
    else if u = 91 then
      match skip rest with
      | 93 :: rest => some (.array [], rest)
      | rest => do
        let (items, rest) ← items steps rest
        return (.array items, rest)
    else if u = 123 then
      match skip rest with
      | 125 :: rest => some (.object [], rest)
      | rest => do
        let (pairs, rest) ← pairs steps rest
        return (.object (members pairs), rest)
    else if u = 45 || u.isDigit then do
      let (d, rest) ← numeral (u :: rest)
      return (.number d.toFloat, rest)
    else constant (u :: rest)

/-- Reads the items of an array, at least one, and the closing bracket. -/
def items : Nat → Text → Option (List Json × Text)
  | 0, _ => none
  | steps + 1, t => do
    let (item, rest) ← value steps t
    match skip rest with
    | 93 :: rest => return ([item], rest)
    | 44 :: rest =>
      let (more, rest) ← items steps (skip rest)
      return (item :: more, rest)
    | _ => none

/-- Reads the members of an object, at least one, and the closing brace. -/
def pairs : Nat → Text → Option (List (Text × Json) × Text)
  | 0, _ => none
  | steps + 1, t =>
    match t with
    | 34 :: rest => do
      let (name, rest) ← stringBody rest
      match skip rest with
      | 58 :: rest =>
        let (item, rest) ← value steps (skip rest)
        match skip rest with
        | 125 :: rest => return ([(name, item)], rest)
        | 44 :: rest =>
          let (more, rest) ← pairs steps (skip rest)
          return ((name, item) :: more, rest)
        | _ => none
      | _ => none
    | _ => none

end

/-- The value that the whole text writes. A value of `n` units is read in at most `2 * n` steps. -/
def parse (t : Text) : Option Json :=
  match value (2 * t.length + 1) (skip t) with
  | some (v, rest) => if skip rest = [] then some v else none
  | none => none

end Cinder.Json
