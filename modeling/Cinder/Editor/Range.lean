import Cinder.Diagnostic
import Cinder.Token.Segment

/-!
Ranges for an editor, which counts lines and characters from zero. A diagnostic is shown on the token
that begins where it points, or on one character if none does.
-/
namespace Cinder.Editor

structure Spot where
  line : Int
  character : Int
  deriving DecidableEq

/-- From `start` up to but not including `stop`. -/
structure Range where
  start : Spot
  stop : Spot
  deriving DecidableEq

/-- A diagnostic as an editor shows it. -/
structure Mark where
  severity : Severity
  range : Range
  message : Text

/-- A line of the text; lines that do not exist are empty. -/
def lineAt (lines : List Text) (line : Int) : Text :=
  match line with
  | .ofNat n => lines.getD n []
  | .negSucc _ => []

/-- What is left of a line from a character on. A negative character counts from the end. -/
def restFrom (line : Text) (character : Int) : Text :=
  match character with
  | .ofNat n => line.drop n
  | .negSucc n => line.drop (line.length - (n + 1))

/-- Ends of lines, which an escape in a string literal does not reach over. -/
def isLineEnd (u : CodeUnit) : Bool := u = 10 || u = 13 || u = 0x2028 || u = 0x2029

/-- The length of a string literal after its opening quote, as far as it goes. -/
def stringLength : Text → Nat
  | [] => 0
  | u :: rest =>
    if u = CodeUnit.newline then 0
    else if u = CodeUnit.quote then 1
    else if u = CodeUnit.backslash then
      match rest with
      | [] => 0
      | e :: rest => if isLineEnd e then 0 else 2 + stringLength rest
    else 1 + stringLength rest

/-- The length of the token at the start of a text: a word, a number, a string literal or an operator
of two units. Whatever else stands there counts as one unit. -/
def tokenLength : Text → Nat
  | [] => 1
  | u :: rest =>
    if Segment.isWordStart u then 1 + (rest.takeWhile Segment.isWordPart).length
    else if u.isDigit then 1 + (rest.takeWhile CodeUnit.isDigit).length
    else if u = CodeUnit.quote then 1 + stringLength rest
    else match rest with
      | v :: _ => if (Kind.doubles.lookup [u, v]).isSome then 2 else 1
      | [] => 1

/-- The range of the token at a position of the text with these lines. -/
def tokenRange (lines : List Text) (p : Position) : Range :=
  let line := p.line - 1
  let character := p.column - 1
  let length := tokenLength (restFrom (lineAt lines line) character)
  ⟨⟨line, character⟩, ⟨line, character + length⟩⟩

def mark (lines : List Text) (d : Diagnostic) : Mark :=
  ⟨d.severity, tokenRange lines d.position, d.message⟩

/-- Diagnostics of a text as an editor shows them. -/
def marks (text : Text) (ds : List Diagnostic) : List Mark := ds.map (mark text.lines)

end Cinder.Editor
