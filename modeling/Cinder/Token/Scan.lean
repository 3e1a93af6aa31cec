import Cinder.Diagnostic
import Cinder.Token.Segment

/-!
Scanning: the segments of a source are placed, lexemes become tokens and dropped text becomes
diagnostics. The token list always closes with the end of the input.
-/
namespace Cinder

structure Scan where
  tokens : List Token
  diagnostics : List Diagnostic

namespace Segment

/-- The position just after a segment. -/
def after (p : Position) : Segment → Position
  | newline => p.nextLine
  | segment => p.right segment.text.length

def isTooLarge (digits : Text) : Bool := maxInt < digits.decimal

/-- The token of a lexeme. An integer literal carries its value, at most `maxInt`. -/
def token? (p : Position) : Segment → Option Token
  | lexeme .intLiteral text => some ⟨.intLiteral, text, p, some (min text.decimal maxInt : Nat)⟩
  | lexeme kind text => some ⟨kind, text, p, none⟩
  | _ => none

/-- What a segment gives rise to: a warning for an integer literal out of range, an error for
dropped text. -/
def diagnostic? (p : Position) : Segment → Option Diagnostic
  | lexeme .intLiteral text => if isTooLarge text then some (.warning p .integerTooLarge) else none
  | badString flaw _ => some (.error p (.droppedString flaw))
  | illegal unit => some (.error p (.illegalCharacter unit))
  | _ => none

end Segment

namespace Scan

/-- Reads segments that begin at position `p`. -/
def ofSegments (p : Position) : List Segment → Scan
  | [] => ⟨[⟨.endOfInput, [], p, none⟩], []⟩
  | segment :: rest =>
    let scan := ofSegments (segment.after p) rest
    ⟨(segment.token? p).toList ++ scan.tokens, (segment.diagnostic? p).toList ++ scan.diagnostics⟩

end Scan

def Text.scan (source : Text) : Scan := .ofSegments .start (Segment.divide source)

end Cinder
