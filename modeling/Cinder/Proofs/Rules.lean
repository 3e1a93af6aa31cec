import Cinder.Proofs.Scoping
import Cinder.Ty

/-!
# The rules of Cinder

When a program is well-typed, by inference rules. Nothing is computed here: there are no bindings, no
reports, and no type for what has gone wrong. A program with a fault anywhere has no derivation. The
rules say of an environment only what the innermost visible meaning of a name is.
-/
namespace Cinder

namespace Rules

open Scoping (Scope Env)

/-! ## Expressions -/

/-- What an identifier or a dot-access stands for. -/
inductive Denotes (env : Env) : Exp → Symbol → Prop where
  | ident {id s} (visible : env.find id.name = some s) : Denotes env (.ident id) s
  | dot {base field name typeName d s} (inner : Denotes env base (.structVar name typeName d))
      (selects : d.field? field.name = some s) : Denotes env (.dot base field) s

/-- An operator, the type of both its operands, and the type of its result. -/
inductive Operator : BinaryOp → Ty → Ty → Prop where
  | arithmetic {op} (among : op ∈ [BinaryOp.plus, .minus, .times, .divide]) : Operator op .int .int
  | logical {op} (among : op ∈ [BinaryOp.and, .or]) : Operator op .bool .bool
  | relational {op} (among : op ∈ [BinaryOp.less, .greater, .lessEqual, .greaterEqual]) :
      Operator op .int .bool
  | equality {op τ} (among : op ∈ [BinaryOp.equal, .notEqual])
      (comparable : τ = .int ∨ τ = .bool ∨ τ = .string) : Operator op τ .bool

mutual

inductive HasType (env : Env) : Exp → Ty → Prop where
  | int {value text position} : HasType env (.int value text position) .int
  | string {text position} : HasType env (.string text position) .string
  | bool {value position} : HasType env (.bool value position) .bool
  | place {e s} (denotes : Denotes env e s) : HasType env e s.type
  | assign {target value τ} (basic : τ = .int ∨ τ = .bool) (left : HasType env target τ)
      (right : HasType env value τ) : HasType env (.assign target value) τ
  | call {callee args name result params}
      (visible : env.find callee.name = some (.function name result params))
      (given : HaveTypes env args params) : HasType env (.call callee args) result
  | negate {operand} (inner : HasType env operand .int) :
      HasType env (.unary .negate operand) .int
  | not {operand} (inner : HasType env operand .bool) : HasType env (.unary .not operand) .bool
  | binary {op left right operand result} (rule : Operator op operand result)
      (first : HasType env left operand) (second : HasType env right operand) :
      HasType env (.binary op left right) result

/-- Arguments fit formals, one by one. -/
inductive HaveTypes (env : Env) : List Exp → List Ty → Prop where
  | nil : HaveTypes env [] []
  | cons {arg args formal formals} (first : HasType env arg formal)
      (rest : HaveTypes env args formals) : HaveTypes env (arg :: args) (formal :: formals)

end

/-! ## Declarations -/

/-- What a variable, field or formal is declared to be. No rule gives it the type `void`. -/
inductive Declares (env : Env) : VarDecl → Symbol → Prop where
  | int {name} : Declares env ⟨.int, name⟩ (.plain name.name .int)
  | bool {name} : Declares env ⟨.bool, name⟩ (.plain name.name .bool)
  | struct {name typeName d} (visible : env.find typeName.name = some (.structDef d)) :
      Declares env ⟨.struct typeName, name⟩ (.structVar name.name typeName d)

/-- A scope grows by declarations, of which each one sees what is visible beside those before it. -/
inductive Grows (visible : Scope → Env) : Scope → List VarDecl → Scope → Prop where
  | nil {scope} : Grows visible scope [] scope
  | cons {scope d s ds scope'} (first : Declares (visible scope) d s)
      (rest : Grows visible (scope.insert d.name.name s) ds scope') :
      Grows visible scope (d :: ds) scope'

/-- The names that declarations give. -/
def names (ds : List VarDecl) : List Text := ds.map (·.name.name)

/-! ## Statements -/

mutual

/-- A statement in a function with this result type. -/
inductive StmtOk (result : Ty) : Env → Stmt → Prop where
  | assign {env target value τ} (typed : HasType env (.assign target value) τ) :
      StmtOk result env (.assign target value)
  | increment {env target} (typed : HasType env target .int) :
      StmtOk result env (.increment target)
  | decrement {env target} (typed : HasType env target .int) :
      StmtOk result env (.decrement target)
  | read {env target τ} (basic : τ = .int ∨ τ = .bool) (typed : HasType env target τ) :
      StmtOk result env (.read target)
  | write {env value τ} (printable : τ = .int ∨ τ = .bool ∨ τ = .string)
      (typed : HasType env value τ) : StmtOk result env (.write value)
  | ifThen {env condition body} (typed : HasType env condition .bool)
      (inner : BlockOk result env body) : StmtOk result env (.ifThen condition body)
  | ifElse {env condition yes no} (typed : HasType env condition .bool)
      (first : BlockOk result env yes) (second : BlockOk result env no) :
      StmtOk result env (.ifElse condition yes no)
  | whileLoop {env condition body} (typed : HasType env condition .bool)
      (inner : BlockOk result env body) : StmtOk result env (.whileLoop condition body)
  | repeatLoop {env count body} (typed : HasType env count .int)
      (inner : BlockOk result env body) : StmtOk result env (.repeatLoop count body)
  | call {env callee args τ} (typed : HasType env (.call callee args) τ) :
      StmtOk result env (.call callee args)
  | giveNothing {env position} (void : result = .void) :
      StmtOk result env (.giveBack none position)
  | giveBack {env value position} (nonvoid : result ≠ .void) (typed : HasType env value result) :
      StmtOk result env (.giveBack (some value) position)

/-- A block declares distinct names in a scope of its own. -/
inductive BlockOk (result : Ty) : Env → Block → Prop where
  | mk {env decls stmts scope} (distinct : (names decls).Nodup)
      (declared : Grows (· :: env) .empty decls scope)
      (body : StmtsOk result (scope :: env) stmts) : BlockOk result env (.mk decls stmts)

inductive StmtsOk (result : Ty) : Env → List Stmt → Prop where
  | nil {env} : StmtsOk result env []
  | cons {env s rest} (first : StmtOk result env s) (second : StmtsOk result env rest) :
      StmtsOk result env (s :: rest)

end

/-! ## Programs -/

/-- A function as its callers see it. -/
def signature (d : FnDecl) : Symbol :=
  .function d.name.name d.resultType.type (d.formals.map (·.type.type))

/-- A declaration of the file after those in `globals`, and what it gives its name to. A function
sees itself; a struct and a variable see only what is declared before them. -/
inductive DeclOk (globals : Scope) : Decl → Symbol → Prop where
  | var {d s} (declared : Declares [globals] d s) : DeclOk globals (.var d) s
  | fn {d frame} (distinct : (names (d.formals ++ d.body.decls)).Nodup)
      (declared : Grows (· :: [globals.insert d.name.name (signature d)]) .empty
        (d.formals ++ d.body.decls) frame)
      (body : StmtsOk d.resultType.type [frame, globals.insert d.name.name (signature d)]
        d.body.stmts) : DeclOk globals (.fn d) (signature d)
  | struct {d fields} (distinct : (names d.fields).Nodup)
      (declared : Grows (fun _ => [globals]) .empty d.fields fields) :
      DeclOk globals (.struct d) (.structDef (.mk d.name.name fields.values))

end Rules

/-- The name that a declaration of the file gives. -/
def Decl.name : Decl → Text
  | var d => d.name.name
  | fn d => d.name.name
  | struct d => d.name.name

end Cinder
