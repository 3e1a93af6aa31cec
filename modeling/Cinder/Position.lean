/-!
Positions in a source text. Lines and columns count from one, but a tree that was not read from a
source may carry any integers.
-/
namespace Cinder

structure Position where
  line : Int
  column : Int
  deriving DecidableEq

namespace Position

/-- The position of the first unit of a text. -/
def start : Position := ⟨1, 1⟩

/-- Past `n` units of the same line. -/
def right (p : Position) (n : Nat) : Position := { p with column := p.column + n }

/-- Past a newline. -/
def nextLine (p : Position) : Position := ⟨p.line + 1, 1⟩

end Position

end Cinder
