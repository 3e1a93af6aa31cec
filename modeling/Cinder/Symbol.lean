import Cinder.Fault
import Cinder.Ty

/-!
Symbols: what a declaration gives its name to. A struct definition holds the symbols of its fields,
which form a namespace of their own.
-/
namespace Cinder

mutual

inductive Symbol where
  /-- A variable or formal whose type is not a struct. -/
  | plain (name : Text) (type : Ty)
  | function (name : Text) (result : Ty) (params : List Ty)
  | structDef (definition : StructDef)
  /-- A variable or formal of a struct type, with the type name as it stands in the declaration. -/
  | structVar (name : Text) (typeName : Ident) (definition : StructDef)

inductive StructDef where
  | mk (name : Text) (fields : List Symbol)

end

namespace StructDef

def name : StructDef → Text
  | mk name _ => name

def fields : StructDef → List Symbol
  | mk _ fields => fields

end StructDef

namespace Symbol

def name : Symbol → Text
  | plain name _ => name
  | function name _ _ => name
  | structDef definition => definition.name
  | structVar name _ _ => name

def type : Symbol → Ty
  | plain _ type => type
  | function _ result params => .function params result
  | structDef definition => .structDef definition.name
  | structVar _ typeName _ => .struct typeName.name

/-- The text of a symbol's type. -/
def render (s : Symbol) : Text := s.type.render

/-- The text of names and their symbols, such as `\x7bx: int, f: int->bool\x7d`. -/
def renderFrame (entries : List (Text × Symbol)) : Text :=
  "\x7b" ++ Text.join ", " (entries.map fun (name, s) => name ++ ": " ++ s.render) ++ "\x7d"

end Symbol

namespace StructDef

def field? (d : StructDef) (name : Text) : Option Symbol := d.fields.find? (·.name = name)

/-- Adds a field under its own name. -/
def declare (d : StructDef) (s : Symbol) : Except Fault StructDef :=
  if s.name = [] then .error .incompleteDeclaration
  else if (d.field? s.name).isSome then .error (.duplicate s.name)
  else .ok (mk d.name (d.fields ++ [s]))

def render (d : StructDef) : Text := Symbol.renderFrame (d.fields.map fun s => (s.name, s))

end StructDef

end Cinder
