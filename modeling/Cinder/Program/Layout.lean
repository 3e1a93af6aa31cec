import Cinder.Program

/-!
Programs as lines of text: one declaration or statement per line, blocks one level deeper than their
heads, and parentheses around every operation.
-/
namespace Cinder

/-- A line and how deep it is indented. -/
structure Line where
  level : Nat
  text : Text

namespace Layout

def typeExp : TypeExp → Text
  | .int => "int"
  | .bool => "bool"
  | .void => "void"
  | .struct name => "struct " ++ name.name

mutual

/-- An expression, given how identifiers in expressions are written. -/
def exp (label : Ident → Text) : Exp → Text
  | .int _ text _ => text
  | .string text _ => text
  | .bool true _ => "true"
  | .bool false _ => "false"
  | .ident id => label id
  | .dot base field => exp label base ++ "." ++ label field
  | .assign target value => "(" ++ exp label target ++ " = " ++ exp label value ++ ")"
  | .call callee args => label callee ++ "(" ++ exps label args ++ ")"
  | .unary op operand => "(" ++ op.symbol ++ exp label operand ++ ")"
  | .binary op left right =>
    "(" ++ exp label left ++ " " ++ op.symbol ++ " " ++ exp label right ++ ")"

def exps (label : Ident → Text) : List Exp → Text
  | [] => []
  | [e] => exp label e
  | e :: f :: rest => exp label e ++ ", " ++ exps label (f :: rest)

end

/-- A type and the name that it is given to. -/
def typed (d : VarDecl) : Text := typeExp d.type ++ " " ++ d.name.name

def varDecl (level : Nat) (d : VarDecl) : Line := ⟨level, typed d ++ ";"⟩

mutual

def stmt (label : Ident → Text) (level : Nat) : Stmt → List Line
  | .assign target value => [⟨level, exp label target ++ " = " ++ exp label value ++ ";"⟩]
  | .increment target => [⟨level, exp label target ++ "++;"⟩]
  | .decrement target => [⟨level, exp label target ++ "--;"⟩]
  | .read target => [⟨level, "cin >> " ++ exp label target ++ ";"⟩]
  | .write value => [⟨level, "cout << " ++ exp label value ++ ";"⟩]
  | .ifThen condition body =>
    ⟨level, "if (" ++ exp label condition ++ ") \x7b"⟩ :: block label (level + 1) body
      ++ [⟨level, "\x7d"⟩]
  | .ifElse condition yes no =>
    ⟨level, "if (" ++ exp label condition ++ ") \x7b"⟩ :: block label (level + 1) yes
      ++ ⟨level, "\x7d else \x7b"⟩ :: block label (level + 1) no ++ [⟨level, "\x7d"⟩]
  | .whileLoop condition body =>
    ⟨level, "while (" ++ exp label condition ++ ") \x7b"⟩ :: block label (level + 1) body
      ++ [⟨level, "\x7d"⟩]
  | .repeatLoop count body =>
    ⟨level, "repeat (" ++ exp label count ++ ") \x7b"⟩ :: block label (level + 1) body
      ++ [⟨level, "\x7d"⟩]
  | .call callee args => [⟨level, label callee ++ "(" ++ exps label args ++ ");"⟩]
  | .giveBack none _ => [⟨level, "return;"⟩]
  | .giveBack (some value) _ => [⟨level, "return " ++ exp label value ++ ";"⟩]

/-- What stands between the braces of a block. -/
def block (label : Ident → Text) (level : Nat) : Block → List Line
  | .mk decls body => decls.map (varDecl level) ++ stmts label level body

def stmts (label : Ident → Text) (level : Nat) : List Stmt → List Line
  | [] => []
  | s :: rest => stmt label level s ++ stmts label level rest

end

/-- A blank line follows functions and structs. -/
def decl (label : Ident → Text) : Decl → List Line
  | .var d => [varDecl 0 d]
  | .fn d =>
    let formals := Text.join ", " (d.formals.map typed)
    ⟨0, typeExp d.resultType ++ " " ++ d.name.name ++ "(" ++ formals ++ ") \x7b"⟩
      :: block label 1 d.body ++ [⟨0, "\x7d"⟩, ⟨0, []⟩]
  | .struct d =>
    ⟨0, "struct " ++ d.name.name ++ " \x7b"⟩ :: d.fields.map (varDecl 1)
      ++ [⟨0, "\x7d;"⟩, ⟨0, []⟩]

end Layout

def Program.lines (label : Ident → Text) (p : Program) : List Line :=
  p.decls.flatMap (Layout.decl label)

end Cinder
