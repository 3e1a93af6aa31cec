import Cinder.Position
import Cinder.Problem

/-!
A diagnostic places a problem in a source text. Reports are lists of diagnostics in the order in
which they were made.
-/
namespace Cinder

inductive Severity where
  | error
  | warning
  deriving DecidableEq

structure Diagnostic where
  severity : Severity
  problem : Problem
  position : Position
  deriving DecidableEq

namespace Diagnostic

def error (position : Position) (problem : Problem) : Diagnostic := ⟨.error, problem, position⟩

def warning (position : Position) (problem : Problem) : Diagnostic := ⟨.warning, problem, position⟩

def isError (d : Diagnostic) : Bool := d.severity = .error

def message (d : Diagnostic) : Text := d.problem.message

/-- One line of a report, such as `ERROR [3:14] Type mismatch`. -/
def render (d : Diagnostic) : Text :=
  let tag : Text := match d.severity with
    | .error => "ERROR"
    | .warning => "WARN"
  tag ++ " [" ++ Text.ofInt d.position.line ++ ":" ++ Text.ofInt d.position.column ++ "] "
    ++ d.message

/-- A whole report, one diagnostic a line. -/
def renderAll (ds : List Diagnostic) : Text := Text.join [CodeUnit.newline] (ds.map render)

def errorCount (ds : List Diagnostic) : Nat := ds.countP isError

end Diagnostic

end Cinder
