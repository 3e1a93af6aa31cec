import Cinder.Program

/-!
The types of Cinder. Besides the types of values there are types for struct names and functions, and
`error` for what already has been reported.
-/
namespace Cinder

inductive Ty where
  | int
  | bool
  | void
  | string
  /-- The type of a variable of the named struct. -/
  | struct (name : Text)
  /-- The type of the name of a struct itself. -/
  | structDef (name : Text)
  | function (params : List Ty) (result : Ty)
  | error

namespace Ty

def isError : Ty → Bool
  | error => true
  | _ => false

mutual

/-- Sameness of types. Nothing is the same as `error`, not even `error`, so that a comparison with
something already reported never succeeds. -/
def same : Ty → Ty → Bool
  | int, int => true
  | bool, bool => true
  | void, void => true
  | string, string => true
  | struct a, struct b => a = b
  | structDef a, structDef b => a = b
  | function params result, function params' result' =>
    sameAll params params' && same result result'
  | _, _ => false

/-- Sameness of type lists, place by place. -/
def sameAll : List Ty → List Ty → Bool
  | [], [] => true
  | a :: as, b :: bs => same a b && sameAll as bs
  | _, _ => false

end

mutual

/-- The text of a type, as annotations and hovers show it. -/
def render : Ty → Text
  | int => "int"
  | bool => "bool"
  | void => "void"
  | string => "String"
  | struct name => name
  | structDef _ => "struct"
  | function params result => renderAll params ++ "->" ++ render result
  | error => "error"

/-- The texts of types with commas between them. -/
def renderAll : List Ty → Text
  | [] => []
  | [a] => render a
  | a :: b :: rest => render a ++ "," ++ renderAll (b :: rest)

end

end Ty

/-- The type that is written, whether or not a struct of that name exists. -/
def TypeExp.type : TypeExp → Ty
  | int => .int
  | bool => .bool
  | void => .void
  | struct name => .struct name.name

end Cinder
