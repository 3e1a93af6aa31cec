import Cinder.Bindings
import Cinder.Diagnostic

/-!
Type checking on top of the bindings. Three functions on expressions and statements stand side by
side: the type, the problems, and the record of all types found. An operand of type `error` has been
reported before, so it is not reported again and what it stands in has the type `error` too.
-/
namespace Cinder

namespace Ty

/-- Only an `int` or a `bool` can be assigned to, and only a value of its own type. -/
def ofAssign : Ty → Ty → Ty
  | int, int => int
  | bool, bool => bool
  | _, _ => error

def assignProblem (target value : Ty) : Option Problem :=
  if target.isError || value.isError then none
  else match target, value with
    | function _ _, _ => some .functionAssignment
    | structDef _, _ => some .structNameAssignment
    | struct _, _ => some .structVariableAssignment
    | int, int => none
    | bool, bool => none
    | _, _ => some .mismatch

/-- The formals and the result of a function that is called with this number of arguments. -/
def signature (callee : Ty) (arity : Nat) : Option (List Ty × Ty) :=
  match callee with
  | function params result => if params.length = arity then some (params, result) else none
  | _ => none

def ofCall (callee : Ty) (arity : Nat) : Ty :=
  match callee.signature arity with
  | some (_, result) => result
  | none => error

def calleeProblem (callee : Ty) (arity : Nat) : Option Problem :=
  match callee with
  | error => none
  | function params _ => if params.length = arity then none else some .argumentCount
  | _ => some .calledNonFunction

def argumentProblem (formal actual : Ty) : Option Problem :=
  if actual.isError || formal.isError || same actual formal then none else some .argumentType

def ofUnary : UnaryOp → Ty → Ty
  | .negate, int => int
  | .not, bool => bool
  | _, _ => error

def unaryProblem : UnaryOp → Ty → Option Problem
  | _, error => none
  | .negate, int => none
  | .negate, _ => some .arithmeticOperand
  | .not, bool => none
  | .not, _ => some .logicalOperand

/-- Numbers, truth values and strings can be compared, each with their like. -/
def ofEquality : Ty → Ty → Ty
  | int, int => bool
  | bool, bool => bool
  | string, string => bool
  | _, _ => error

def equalityProblem : Ty → Ty → Option Problem
  | error, _ => none
  | _, error => none
  | function _ _, function _ _ => some .equalityOfFunctions
  | void, void => some .equalityOfVoid
  | structDef _, structDef _ => some .equalityOfStructNames
  | struct _, struct _ => some .equalityOfStructVariables
  | left, right => if same left right then none else some .mismatch

/-- Reports an operand that has another type than `expected`. -/
def operandProblem (expected : Ty) (problem : Problem) (operand : Ty) : Option Problem :=
  if operand.isError || same operand expected then none else some problem

def readProblem : Ty → Option Problem
  | function _ _ => some .readFunction
  | structDef _ => some .readStructName
  | struct _ => some .readStructVariable
  | _ => none

def writeProblem : Ty → Option Problem
  | function _ _ => some .writeFunction
  | void => some .writeVoid
  | structDef _ => some .writeStructName
  | struct _ => some .writeStructVariable
  | _ => none

end Ty

namespace BinaryOp

/-- What an operator other than an equality expects of its operands, what it gives, and how an
operand of another type is reported. -/
def rule (op : BinaryOp) : Ty × Ty × Problem :=
  if op.isArithmetic then (.int, .int, .arithmeticOperand)
  else if op.isLogical then (.bool, .bool, .logicalOperand)
  else (.int, .bool, .relationalOperand)

def resultType (op : BinaryOp) (left right : Ty) : Ty :=
  if op.isEquality then Ty.ofEquality left right
  else
    let (expected, result, _) := op.rule
    if left.same expected && right.same expected then result else .error

end BinaryOp

/-- A problem, if there is one, as an error about an expression. -/
def Problem.about (problem? : Option Problem) (e : Exp) : List Diagnostic :=
  (problem?.map (Diagnostic.error e.position)).toList

namespace Exp

def type (b : Bindings) : Exp → Ty
  | int _ _ _ => .int
  | string _ _ => .string
  | bool _ _ => .bool
  | ident id => b.typeOf id
  | dot _ field => b.typeOf field
  | assign target value => Ty.ofAssign (target.type b) (value.type b)
  | call callee args => Ty.ofCall (b.typeOf callee) args.length
  | unary op operand => Ty.ofUnary op (operand.type b)
  | binary op left right => op.resultType (left.type b) (right.type b)

mutual

/-- The problems of an expression, in the order in which its parts are checked. The arguments of a
call are checked only if the callee is a function with as many formals. -/
def problems (b : Bindings) : Exp → List Diagnostic
  | int _ _ _ => []
  | string _ _ => []
  | bool _ _ => []
  | ident _ => []
  | dot base _ => base.problems b
  | assign target value =>
    target.problems b ++ value.problems b ++
      Problem.about (Ty.assignProblem (target.type b) (value.type b)) target
  | call callee args =>
    match (b.typeOf callee).signature args.length with
    | some (params, _) => argumentProblems b args params
    | none => Problem.about (Ty.calleeProblem (b.typeOf callee) args.length) (ident callee)
  | unary op operand =>
    operand.problems b ++ Problem.about (Ty.unaryProblem op (operand.type b)) operand
  | binary op left right =>
    let inner := left.problems b ++ right.problems b
    if op.isEquality then
      inner ++ Problem.about (Ty.equalityProblem (left.type b) (right.type b)) left
    else
      let (expected, _, problem) := op.rule
      inner ++ Problem.about (Ty.operandProblem expected problem (left.type b)) left ++
        Problem.about (Ty.operandProblem expected problem (right.type b)) right

/-- The problems of arguments, each against its formal. -/
def argumentProblems (b : Bindings) : List Exp → List Ty → List Diagnostic
  | [], _ => []
  | arg :: args, [] => arg.problems b ++ argumentProblems b args []
  | arg :: args, formal :: formals =>
    arg.problems b ++ Problem.about (Ty.argumentProblem formal (arg.type b)) arg ++
      argumentProblems b args formals

end

mutual

/-- All the types found in checking an expression, in the order in which the checks end. -/
def record (b : Bindings) (e : Exp) : List (Exp × Ty) :=
  match e with
  | int _ _ _ => [(e, e.type b)]
  | string _ _ => [(e, e.type b)]
  | bool _ _ => [(e, e.type b)]
  | ident _ => [(e, e.type b)]
  | dot base field => base.record b ++ [(ident field, b.typeOf field), (e, e.type b)]
  | assign target value => target.record b ++ value.record b ++ [(e, e.type b)]
  | call callee args =>
    (ident callee, b.typeOf callee) ::
      match (b.typeOf callee).signature args.length with
      | some _ => recordAll b args ++ [(e, e.type b)]
      | none => [(e, e.type b)]
  | unary _ operand => operand.record b ++ [(e, e.type b)]
  | binary _ left right => left.record b ++ right.record b ++ [(e, e.type b)]

def recordAll (b : Bindings) : List Exp → List (Exp × Ty)
  | [] => []
  | e :: rest => e.record b ++ recordAll b rest

end

end Exp

mutual

/-- The problems of a statement in a function with the given result type. A value that a `void`
function gives back is reported unseen. -/
def Stmt.problems (b : Bindings) (result : Ty) : Stmt → List Diagnostic
  | .assign target value => (Exp.assign target value).problems b
  | .increment target =>
    target.problems b ++
      Problem.about (Ty.operandProblem .int .arithmeticOperand (target.type b)) target
  | .decrement target =>
    target.problems b ++
      Problem.about (Ty.operandProblem .int .arithmeticOperand (target.type b)) target
  | .read target => target.problems b ++ Problem.about (Ty.readProblem (target.type b)) target
  | .write value => value.problems b ++ Problem.about (Ty.writeProblem (value.type b)) value
  | .ifThen condition body =>
    condition.problems b ++
      Problem.about (Ty.operandProblem .bool .ifCondition (condition.type b)) condition ++
      Block.problems b result body
  | .ifElse condition yes no =>
    condition.problems b ++
      Problem.about (Ty.operandProblem .bool .ifCondition (condition.type b)) condition ++
      Block.problems b result yes ++ Block.problems b result no
  | .whileLoop condition body =>
    condition.problems b ++
      Problem.about (Ty.operandProblem .bool .whileCondition (condition.type b)) condition ++
      Block.problems b result body
  | .repeatLoop count body =>
    count.problems b ++
      Problem.about (Ty.operandProblem .int .repeatCount (count.type b)) count ++
      Block.problems b result body
  | .call callee args => (Exp.call callee args).problems b
  | .giveBack none position =>
    match result with
    | .void => []
    | _ => [.error position .missingValue]
  | .giveBack (some value) _ =>
    match result with
    | .void => [.error value.position .valueFromVoid]
    | _ => value.problems b ++
      Problem.about (Ty.operandProblem result .returnType (value.type b)) value

def Block.problems (b : Bindings) (result : Ty) : Block → List Diagnostic
  | .mk _ stmts => Stmt.problemsAll b result stmts

def Stmt.problemsAll (b : Bindings) (result : Ty) : List Stmt → List Diagnostic
  | [] => []
  | s :: rest => s.problems b result ++ Stmt.problemsAll b result rest

end

mutual

/-- All the types found in checking a statement. -/
def Stmt.record (b : Bindings) (result : Ty) : Stmt → List (Exp × Ty)
  | .assign target value => (Exp.assign target value).record b
  | .increment target => target.record b
  | .decrement target => target.record b
  | .read target => target.record b
  | .write value => value.record b
  | .ifThen condition body => condition.record b ++ Block.record b result body
  | .ifElse condition yes no =>
    condition.record b ++ Block.record b result yes ++ Block.record b result no
  | .whileLoop condition body => condition.record b ++ Block.record b result body
  | .repeatLoop count body => count.record b ++ Block.record b result body
  | .call callee args => (Exp.call callee args).record b
  | .giveBack none _ => []
  | .giveBack (some value) _ =>
    match result with
    | .void => []
    | _ => value.record b

def Block.record (b : Bindings) (result : Ty) : Block → List (Exp × Ty)
  | .mk _ stmts => Stmt.recordAll b result stmts

def Stmt.recordAll (b : Bindings) (result : Ty) : List Stmt → List (Exp × Ty)
  | [] => []
  | s :: rest => s.record b result ++ Stmt.recordAll b result rest

end

/-- Only functions have anything to check. -/
def Decl.problems (b : Bindings) : Decl → List Diagnostic
  | .fn d => d.body.problems b d.resultType.type
  | _ => []

def Decl.record (b : Bindings) : Decl → List (Exp × Ty)
  | .fn d => d.body.record b d.resultType.type
  | _ => []

/-- What checking a program finds. -/
structure Typing where
  record : List (Exp × Ty)
  diagnostics : List Diagnostic

namespace Typing

/-- The types found, in the order in which the checks ended. -/
def types (t : Typing) : List Ty := t.record.map Prod.snd

end Typing

def Program.check (p : Program) (b : Bindings) : Typing :=
  ⟨p.decls.flatMap (Decl.record b), p.decls.flatMap (Decl.problems b)⟩

end Cinder
