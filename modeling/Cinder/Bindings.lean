import Cinder.Symbol
import Cinder.Table

/-!
Bindings: the symbol that each identifier means, and the struct that a dot-access selects if its
field is of a struct type. What is bound once is never bound again.
-/
namespace Cinder

structure Bindings where
  idents : Table Nat Symbol
  dots : Table Nat StructDef

namespace Bindings

def empty : Bindings := ⟨.empty, .empty⟩

/-- The number of bound identifiers. -/
def size (b : Bindings) : Nat := b.idents.size

def symbolOf (b : Bindings) (id : Ident) : Option Symbol := b.idents.find? id.node

/-- The struct that the dot-access with this field selects. -/
def structOf (b : Bindings) (field : Ident) : Option StructDef := b.dots.find? field.node

def bind (b : Bindings) (id : Ident) (s : Symbol) : Except Fault Bindings :=
  if b.idents.contains id.node then .error (.identRebound id)
  else .ok { b with idents := b.idents.insert id.node s }

def bindStruct (b : Bindings) (field : Ident) (d : StructDef) : Except Fault Bindings :=
  if b.dots.contains field.node then .error (.dotRebound field)
  else .ok { b with dots := b.dots.insert field.node d }

/-- Completes the symbol of an identifier that is bound already. -/
def amend (b : Bindings) (id : Ident) (s : Symbol) : Bindings :=
  { b with idents := b.idents.insert id.node s }

/-- The type of an identifier; unbound ones have been reported. -/
def typeOf (b : Bindings) (id : Ident) : Ty :=
  match b.symbolOf id with
  | none => .error
  | some s => s.type

end Bindings

end Cinder
