import Cinder.Program

/-!
Faults: misuses of the tables that the analyses keep. They tell of a broken analysis, never of a
problem in the program that is analysed.
-/
namespace Cinder

inductive Fault where
  /-- There is no scope on the stack. -/
  | noScope
  /-- The innermost scope has the name already. -/
  | duplicate (name : Text)
  /-- A declaration without a name or without a symbol. -/
  | incompleteDeclaration
  /-- The identifier has a symbol already. -/
  | identRebound (id : Ident)
  /-- The dot-access with this field has a struct already. -/
  | dotRebound (field : Ident)

namespace Fault

/-- A position inside a message. -/
def place (p : Position) : Text := Text.ofInt p.line ++ ":" ++ Text.ofInt p.column

def message : Fault → Text
  | noScope => "symbol table has no scopes"
  | duplicate name => "'" ++ name ++ "' is already declared in this scope"
  | incompleteDeclaration => "addDecl needs a non-empty name and a symbol"
  | identRebound id => "identifier '" ++ id.name ++ "' at " ++ place id.position ++ " is already bound"
  | dotRebound field =>
    "dot-access '." ++ field.name ++ "' at " ++ place field.position ++ " is already bound"

end Fault

end Cinder
