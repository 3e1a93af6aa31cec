import Cinder.Program
import Cinder.Token

/-!
The levels of binary operators. The operators of a level associate to the left, except that
comparisons do not associate at all.
-/
namespace Cinder

/-- Levels of binary operators. -/
inductive Level where
  | disjunction
  | conjunction
  | comparison
  | sum
  | product
  deriving DecidableEq

namespace Level

/-- From the loosest to the tightest. -/
def all : List Level := [disjunction, conjunction, comparison, sum, product]

/-- Whether operators of the level may follow each other without parentheses. -/
def chains (level : Level) : Bool := level ≠ comparison

theorem chains_iff {level : Level} : level.chains ↔ level ≠ comparison := decide_eq_true_iff

end Level

def BinaryOp.level : BinaryOp → Level
  | .or => .disjunction
  | .and => .conjunction
  | .equal | .notEqual | .less | .greater | .lessEqual | .greaterEqual => .comparison
  | .plus | .minus => .sum
  | .times | .divide => .product

/-- The binary operator that a token writes. -/
def Kind.binaryOp? : Kind → Option BinaryOp
  | .plus => some .plus
  | .minus => some .minus
  | .times => some .times
  | .divide => some .divide
  | .and => some .and
  | .or => some .or
  | .equal => some .equal
  | .notEqual => some .notEqual
  | .less => some .less
  | .greater => some .greater
  | .lessEqual => some .lessEqual
  | .greaterEqual => some .greaterEqual
  | _ => none

/-- The operator of this level that a token writes. -/
def Level.operator? (level : Level) (kind : Kind) : Option BinaryOp :=
  kind.binaryOp?.filter (·.level = level)

end Cinder
