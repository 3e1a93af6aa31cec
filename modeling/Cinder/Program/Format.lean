import Cinder.Number.Shortest
import Cinder.Program.Layout
import Cinder.Program.Source
import Cinder.Resolution

/-!
Formatting: a program as one text in canonical layout, with identifiers annotated by their types if
bindings are given.
-/
namespace Cinder

/-- A level would have to be indented by less than nothing or without end. -/
structure BadIndent where
  width : Float

def BadIndent.message (e : BadIndent) : Text := "Invalid count value: " ++ Number.render e.width

/-- How many blanks lines of each level begin with. -/
abbrev Indent := Nat → Except BadIndent Nat

namespace Indent

/-- So many blanks per level. -/
def blanks (size : Nat) : Indent := fun level => .ok (level * size)

/-- Any number of blanks per level; the fraction of a blank is dropped. -/
def scaled (size : Float) : Indent := fun level =>
  let width := Float.ofNat level * size
  if width.isNaN then .ok 0
  else if width.isInf || width ≤ -1.0 then .error ⟨width⟩
  else .ok width.toUInt64.toNat

/-- The indent of any size; whole sizes are counted without rounding. -/
def ofFloat (size : Float) : Indent :=
  if 0.0 ≤ size && size ≤ 9007199254740992.0 && size.floor == size then blanks size.toUInt64.toNat
  else scaled size

end Indent

/-- An identifier followed by the type of what it is bound to, such as `x(int)`. -/
def Bindings.annotate (b : Bindings) (id : Ident) : Text :=
  match b.symbolOf id with
  | none => id.name
  | some s => id.name ++ "(" ++ s.render ++ ")"

namespace Line

def render (indent : Indent) (line : Line) : Except BadIndent Text := do
  return List.replicate (← indent line.level) 32 ++ line.text

def renderAll (indent : Indent) : List Line → Except BadIndent (List Text)
  | [] => .ok []
  | line :: rest => do
    let text ← line.render indent
    return text :: (← renderAll indent rest)

end Line

/-- Without the newlines at the end. -/
def Text.dropNewlines (t : Text) : Text := (t.reverse.dropWhile (· = CodeUnit.newline)).reverse

/-- Writes a program. The text ends in exactly one newline. -/
def Program.render (indent : Indent) (label : Ident → Text) (p : Program) :
    Except BadIndent Text := do
  let lines ← Line.renderAll indent (p.lines label)
  return (Text.join [CodeUnit.newline] lines).dropNewlines ++ [CodeUnit.newline]

/-- How identifiers in expressions are written: as they are, or with the types of what they are bound
to. -/
inductive Labelling where
  | plain
  /-- The bindings of name resolution, which is done first. -/
  | resolved
  | given (b : Bindings)

/-- Why a program was not formatted. -/
inductive FormatError where
  | fault (f : Fault)
  | indent (e : BadIndent)
  /-- The source has errors of scanning or parsing. -/
  | source (errors : List Diagnostic)

namespace FormatError

/-- An error inside a message. -/
def item (d : Diagnostic) : Text := d.message ++ " [" ++ Fault.place d.position ++ "]"

def message : FormatError → Text
  | fault f => f.message
  | indent e => e.message
  | source errors => "Cannot format source: " ++ Text.join "; " (errors.map item)

end FormatError

/-- How a labelling has identifiers written. -/
def Program.label (p : Program) : Labelling → Except Fault (Ident → Text)
  | .plain => .ok Ident.name
  | .given b => .ok b.annotate
  | .resolved => p.resolve.map (·.bindings.annotate)

def Program.format (indent : Indent) (labelling : Labelling) (p : Program) :
    Except FormatError Text :=
  match p.label labelling with
  | .error f => .error (.fault f)
  | .ok label => (p.render indent label).mapError .indent

/-- Formats a source text that has no errors. -/
def Text.format (indent : Indent) (labelling : Labelling) (source : Text) :
    Except FormatError Text :=
  let parsed := source.parse
  match parsed.program with
  | none => .error (.source parsed.errors)
  | some p => if parsed.hasErrors then .error (.source parsed.errors) else p.format indent labelling

end Cinder
