import Cinder.Resolution
import Cinder.Typing

/-!
Analysis: name resolution and then type checking. The diagnostics of the two come in this order.
-/
namespace Cinder

structure Analysis where
  bindings : Bindings
  scopes : Scopes
  typing : Typing
  diagnostics : List Diagnostic

namespace Analysis

def errorCount (a : Analysis) : Nat := Diagnostic.errorCount a.diagnostics

def isClean (a : Analysis) : Bool := a.errorCount = 0

end Analysis

def Program.analyze (p : Program) : Except Fault Analysis := do
  let resolver ← p.resolve
  let typing := p.check resolver.bindings
  return ⟨resolver.bindings, resolver.scopes, typing, resolver.diagnostics ++ typing.diagnostics⟩

end Cinder
