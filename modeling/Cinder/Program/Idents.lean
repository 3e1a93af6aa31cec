import Cinder.Program

/-!
The identifiers of a program in source order, declarations and uses alike. The name of a struct type
counts as an identifier.
-/
namespace Cinder

def TypeExp.idents : TypeExp → List Ident
  | struct name => [name]
  | _ => []

def VarDecl.idents (d : VarDecl) : List Ident := d.type.idents ++ [d.name]

mutual

def Exp.idents : Exp → List Ident
  | .int _ _ _ => []
  | .string _ _ => []
  | .bool _ _ => []
  | .ident id => [id]
  | .dot base field => base.idents ++ [field]
  | .assign target value => target.idents ++ value.idents
  | .call callee args => callee :: Exp.identsAll args
  | .unary _ operand => operand.idents
  | .binary _ left right => left.idents ++ right.idents

def Exp.identsAll : List Exp → List Ident
  | [] => []
  | e :: rest => e.idents ++ Exp.identsAll rest

end

mutual

/-- The fields that an expression selects, in source order. -/
def Exp.fields : Exp → List Ident
  | .int _ _ _ => []
  | .string _ _ => []
  | .bool _ _ => []
  | .ident _ => []
  | .dot base field => base.fields ++ [field]
  | .assign target value => target.fields ++ value.fields
  | .call _ args => Exp.fieldsAll args
  | .unary _ operand => operand.fields
  | .binary _ left right => left.fields ++ right.fields

def Exp.fieldsAll : List Exp → List Ident
  | [] => []
  | e :: rest => e.fields ++ Exp.fieldsAll rest

end

mutual

def Stmt.idents : Stmt → List Ident
  | .assign target value => target.idents ++ value.idents
  | .increment target => target.idents
  | .decrement target => target.idents
  | .read target => target.idents
  | .write value => value.idents
  | .ifThen condition body => condition.idents ++ body.idents
  | .ifElse condition yes no => condition.idents ++ yes.idents ++ no.idents
  | .whileLoop condition body => condition.idents ++ body.idents
  | .repeatLoop count body => count.idents ++ body.idents
  | .call callee args => callee :: Exp.identsAll args
  | .giveBack none _ => []
  | .giveBack (some value) _ => value.idents

def Block.idents : Block → List Ident
  | .mk decls stmts => decls.flatMap VarDecl.idents ++ Stmt.identsAll stmts

def Stmt.identsAll : List Stmt → List Ident
  | [] => []
  | s :: rest => s.idents ++ Stmt.identsAll rest

end

mutual

/-- The expressions that stand directly in a statement or in the blocks inside it. -/
def Stmt.exps : Stmt → List Exp
  | .assign target value => [.assign target value]
  | .increment target => [target]
  | .decrement target => [target]
  | .read target => [target]
  | .write value => [value]
  | .ifThen condition body => condition :: body.exps
  | .ifElse condition yes no => condition :: yes.exps ++ no.exps
  | .whileLoop condition body => condition :: body.exps
  | .repeatLoop count body => count :: body.exps
  | .call callee args => [.call callee args]
  | .giveBack none _ => []
  | .giveBack (some value) _ => [value]

def Block.exps : Block → List Exp
  | .mk _ stmts => Stmt.expsAll stmts

def Stmt.expsAll : List Stmt → List Exp
  | [] => []
  | s :: rest => s.exps ++ Stmt.expsAll rest

end

def Decl.idents : Decl → List Ident
  | .var d => d.idents
  | .fn d => d.resultType.idents ++ [d.name] ++ d.formals.flatMap VarDecl.idents ++ d.body.idents
  | .struct d => d.name :: d.fields.flatMap VarDecl.idents

def Decl.exps : Decl → List Exp
  | .fn d => d.body.exps
  | _ => []

def Program.idents (p : Program) : List Ident := p.decls.flatMap Decl.idents

/-- The identifiers that stand as the field of a dot-access. -/
def Program.fields (p : Program) : List Ident :=
  Exp.fieldsAll (p.decls.flatMap Decl.exps)

end Cinder
