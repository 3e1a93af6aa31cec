import Cinder.Analysis
import Cinder.Editor.Range
import Cinder.Program.Idents
import Cinder.Program.Source

/-!
Documents: what an editor learns from the text of one file.
-/
namespace Cinder

/-- All that is reported about a source text: first what scanning and parsing found, then names and
types if there is a program. -/
def Text.collect (source : Text) : Except Fault (List Diagnostic) :=
  let parsed := source.parse
  match parsed.program with
  | none => .ok parsed.diagnostics
  | some p => do return parsed.diagnostics ++ (← p.analyze).diagnostics

/-- The identifier that covers a character, counted from zero. -/
def Program.identAt (p : Program) (line character : Int) : Option Ident :=
  p.idents.find? fun id =>
    let start := id.position.column - 1
    id.position.line - 1 = line && start ≤ character && character < start + id.name.length

/-- The name of an identifier and the type of what it is bound to. -/
def Bindings.hover (b : Bindings) (id : Ident) : Option Text :=
  (b.symbolOf id).map fun s => id.name ++ ": " ++ s.render

namespace Editor

structure Document where
  /-- The program and its bindings, unless there is a syntax error. -/
  content : Option (Program × Bindings)
  marks : List Mark

namespace Document

def ofText (text : Text) : Except Fault Document :=
  let parsed := text.parse
  match parsed.program with
  | none => .ok ⟨none, Editor.marks text parsed.diagnostics⟩
  | some p => do
    let analysis ← p.analyze
    return ⟨some (p, analysis.bindings), Editor.marks text (parsed.diagnostics ++ analysis.diagnostics)⟩

def identAt (d : Document) (line character : Int) : Option Ident :=
  match d.content with
  | none => none
  | some (p, _) => p.identAt line character

/-- The hover text of an identifier. -/
def hover (d : Document) (id : Ident) : Option Text :=
  match d.content with
  | none => none
  | some (_, b) => b.hover id

/-- The hover text at a character, counted from zero. -/
def hoverAt (d : Document) (line character : Int) : Option Text := do
  d.hover (← d.identAt line character)

end Document

end Editor

end Cinder
