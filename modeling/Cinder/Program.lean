import Cinder.Position
import Cinder.Text

/-!
Cinder programs as trees. Identifiers carry a node number, by which analyses refer to them: two
identifiers of a program may agree in name and position, but not in their number. A dot-access is
referred to by the number of its field.
-/
namespace Cinder

structure Ident where
  node : Nat
  name : Text
  position : Position

/-- A type as it is written. -/
inductive TypeExp where
  | int
  | bool
  | void
  | struct (name : Ident)

inductive UnaryOp where
  | negate
  | not
  deriving DecidableEq

inductive BinaryOp where
  | plus | minus | times | divide
  | and | or
  | equal | notEqual
  | less | greater | lessEqual | greaterEqual
  deriving DecidableEq

inductive Exp where
  | int (value : Int) (text : Text) (position : Position)
  | string (text : Text) (position : Position)
  | bool (value : Bool) (position : Position)
  | ident (id : Ident)
  | dot (base : Exp) (field : Ident)
  | assign (target value : Exp)
  | call (callee : Ident) (args : List Exp)
  | unary (op : UnaryOp) (operand : Exp)
  | binary (op : BinaryOp) (left right : Exp)

/-- A variable, a field or a formal. -/
structure VarDecl where
  type : TypeExp
  name : Ident

mutual

inductive Stmt where
  | assign (target value : Exp)
  | increment (target : Exp)
  | decrement (target : Exp)
  | read (target : Exp)
  | write (value : Exp)
  | ifThen (condition : Exp) (body : Block)
  | ifElse (condition : Exp) (yes no : Block)
  | whileLoop (condition : Exp) (body : Block)
  | repeatLoop (count : Exp) (body : Block)
  | call (callee : Ident) (args : List Exp)
  | giveBack (value : Option Exp) (position : Position)

inductive Block where
  | mk (decls : List VarDecl) (stmts : List Stmt)

end

def Block.decls : Block → List VarDecl
  | mk decls _ => decls

def Block.stmts : Block → List Stmt
  | mk _ stmts => stmts

structure FnDecl where
  resultType : TypeExp
  name : Ident
  formals : List VarDecl
  body : Block

structure StructDecl where
  name : Ident
  fields : List VarDecl

inductive Decl where
  | var (d : VarDecl)
  | fn (d : FnDecl)
  | struct (d : StructDecl)

structure Program where
  decls : List Decl

namespace UnaryOp

def symbol : UnaryOp → Text
  | negate => "-"
  | not => "!"

end UnaryOp

namespace BinaryOp

def symbol : BinaryOp → Text
  | plus => "+"
  | minus => "-"
  | times => "*"
  | divide => "/"
  | and => "&&"
  | or => "||"
  | equal => "=="
  | notEqual => "!="
  | less => "<"
  | greater => ">"
  | lessEqual => "<="
  | greaterEqual => ">="

def all : List BinaryOp :=
  [plus, minus, times, divide, and, or, equal, notEqual, less, greater, lessEqual, greaterEqual]

def ofSymbol? (t : Text) : Option BinaryOp := all.find? (·.symbol = t)

def isArithmetic (op : BinaryOp) : Bool := op = plus || op = minus || op = times || op = divide

def isLogical (op : BinaryOp) : Bool := op = and || op = or

def isEquality (op : BinaryOp) : Bool := op = equal || op = notEqual

end BinaryOp

namespace Exp

/-- The literal of an integer, spelled with its decimal digits. -/
def ofInt (value : Int) (position : Position) : Exp := int value (Text.ofInt value) position

/-- Where problems with an expression are reported: at a literal or identifier itself, at the field
of a dot-access, at the callee of a call, and at the first operand otherwise. -/
def position : Exp → Position
  | int _ _ p => p
  | string _ p => p
  | bool _ p => p
  | ident id => id.position
  | dot _ field => field.position
  | assign target _ => target.position
  | call callee _ => callee.position
  | unary _ operand => operand.position
  | binary _ left _ => left.position

/-- Identifiers and dot-accesses can stand to the left of an assignment. -/
def isPlace : Exp → Bool
  | ident _ => true
  | dot _ _ => true
  | _ => false

end Exp

end Cinder
