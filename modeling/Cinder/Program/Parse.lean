import Cinder.Program.Level

/-!
Reading programs from the front of a token list. A reader either gets stuck, and then what is left
begins with the first token that fits nowhere, or returns a value with what is left. The bound on
what is left lets readers call each other without any other argument for termination.
-/
namespace Cinder.Parse

/-- A token and its place in the token list. -/
abbrev Lexeme := Token × Nat

/-- The lexemes from the one that does not fit; none if the input ended too early. -/
structure Stuck where
  rest : List Lexeme

/-- A value read, and fewer than `bound` lexemes after it. -/
structure Reading (α : Type) (bound : Nat) where
  value : α
  rest : List Lexeme
  fits : rest.length < bound

abbrev Outcome (α : Type) (bound : Nat) := Except Stuck (Reading α bound)

def kindOf (t : Lexeme) : Kind := t.1.kind

/-- The identifier that a lexeme stands for. Its node number is the place of the lexeme. -/
def identOf (t : Lexeme) : Ident := ⟨t.2, t.1.text, t.1.position⟩

/-- Whether the next lexeme is of this kind. -/
def nextIs (kind : Kind) : List Lexeme → Bool
  | [] => false
  | t :: _ => kindOf t = kind

/-- Reads a lexeme of the given kind. -/
def expect (kind : Kind) : (ts : List Lexeme) → Outcome Lexeme ts.length
  | [] => .error ⟨[]⟩
  | t :: ts => if kindOf t = kind then .ok ⟨t, ts, by simp⟩ else .error ⟨t :: ts⟩

def ident (ts : List Lexeme) : Outcome Ident ts.length := do
  let ⟨t, rest, fits⟩ ← expect .identifier ts
  return ⟨identOf t, rest, fits⟩

/-! ## Types and variables -/

def typeExp : (ts : List Lexeme) → Outcome TypeExp ts.length
  | [] => .error ⟨[]⟩
  | t :: ts =>
    match kindOf t with
    | .intWord => .ok ⟨.int, ts, by simp⟩
    | .boolWord => .ok ⟨.bool, ts, by simp⟩
    | .voidWord => .ok ⟨.void, ts, by simp⟩
    | .structWord => do
      let ⟨name, rest, fits⟩ ← ident ts
      return ⟨.struct name, rest, by simp; omega⟩
    | _ => .error ⟨t :: ts⟩

/-- Reads a type and the name that it is given to. -/
def formal (ts : List Lexeme) : Outcome VarDecl ts.length := do
  let ⟨type, rest, fits⟩ ← typeExp ts
  let ⟨name, rest', fits'⟩ ← ident rest
  return ⟨⟨type, name⟩, rest', by omega⟩

def varDecl (ts : List Lexeme) : Outcome VarDecl ts.length := do
  let ⟨decl, rest, fits⟩ ← formal ts
  let ⟨_, rest', fits'⟩ ← expect .semicolon rest
  return ⟨decl, rest', by omega⟩

/-- Whether a token begins a type. -/
def startsType (kind : Kind) : Bool :=
  kind = .intWord || kind = .boolWord || kind = .voidWord || kind = .structWord

/-- Reads declarations as long as types follow. -/
def varDecls (ts : List Lexeme) : Outcome (List VarDecl) (ts.length + 1) :=
  match ts with
  | [] => .ok ⟨[], [], by simp⟩
  | t :: ts =>
    if startsType (kindOf t) then
      match varDecl (t :: ts) with
      | .error stuck => .error stuck
      | .ok ⟨decl, rest, fits⟩ =>
        match varDecls rest with
        | .error stuck => .error stuck
        | .ok ⟨decls, rest', fits'⟩ => .ok ⟨decl :: decls, rest', by simp at fits ⊢; omega⟩
    else .ok ⟨[], t :: ts, by simp⟩
termination_by ts.length
decreasing_by exact fits

/-- Reads at least one field, and the closing brace. -/
def fieldsFrom (ts : List Lexeme) : Outcome (List VarDecl) ts.length :=
  match varDecl ts with
  | .error stuck => .error stuck
  | .ok ⟨_, [], _⟩ => .error ⟨[]⟩
  | .ok ⟨field, t :: rest, fits⟩ =>
    if kindOf t = .rightBrace then .ok ⟨[field], rest, by simp at fits; omega⟩
    else
      match fieldsFrom (t :: rest) with
      | .error stuck => .error stuck
      | .ok ⟨fields, rest', fits'⟩ => .ok ⟨field :: fields, rest', by omega⟩
termination_by ts.length
decreasing_by exact fits

/-- Reads at least one formal, and the closing parenthesis. -/
def formalsFrom (ts : List Lexeme) : Outcome (List VarDecl) ts.length :=
  match formal ts with
  | .error stuck => .error stuck
  | .ok ⟨_, [], _⟩ => .error ⟨[]⟩
  | .ok ⟨decl, t :: rest, fits⟩ =>
    if kindOf t = .comma then
      match formalsFrom rest with
      | .error stuck => .error stuck
      | .ok ⟨decls, rest', fits'⟩ => .ok ⟨decl :: decls, rest', by simp at fits; omega⟩
    else if kindOf t = .rightParen then .ok ⟨[decl], rest, by simp at fits; omega⟩
    else .error ⟨t :: rest⟩
termination_by ts.length
decreasing_by simp at fits; omega

/-- Reads the formals of a function with the parentheses around them. -/
def formals (ts : List Lexeme) : Outcome (List VarDecl) ts.length :=
  match expect .leftParen ts with
  | .error stuck => .error stuck
  | .ok ⟨_, [], _⟩ => .error ⟨[]⟩
  | .ok ⟨_, t :: rest, fits⟩ =>
    if kindOf t = .rightParen then .ok ⟨[], rest, by simp at fits; omega⟩
    else
      match formalsFrom (t :: rest) with
      | .error stuck => .error stuck
      | .ok ⟨decls, rest', fits'⟩ => .ok ⟨decls, rest', by omega⟩

/-!
## Expressions

Unary operators bind tighter than all binary ones, and an assignment binds loosest and associates to
the right. Parentheses leave no trace in the tree.
-/

/-- Reads field selections after a place. -/
def selections (base : Exp) : (ts : List Lexeme) → Outcome Exp (ts.length + 1)
  | [] => .ok ⟨base, [], by simp⟩
  | t :: ts =>
    if kindOf t = .dot then
      match ident ts with
      | .error stuck => .error stuck
      | .ok ⟨field, rest, fits⟩ =>
        match selections (.dot base field) rest with
        | .error stuck => .error stuck
        | .ok ⟨place, rest', fits'⟩ => .ok ⟨place, rest', by simp; omega⟩
    else .ok ⟨base, t :: ts, by simp⟩
termination_by ts => ts.length
decreasing_by simp; omega

/-- Reads an identifier and the field selections after it. -/
def place (ts : List Lexeme) : Outcome Exp ts.length := do
  let ⟨base, rest, fits⟩ ← ident ts
  let ⟨place, rest', fits'⟩ ← selections (.ident base) rest
  return ⟨place, rest', by omega⟩

/-- Whether the next lexeme is an operator of this level. -/
def startsOperation (level : Level) : List Lexeme → Bool
  | [] => false
  | t :: _ => (level.operator? (kindOf t)).isSome

mutual

def exp (ts : List Lexeme) : Outcome Exp ts.length :=
  match operation Level.all ts with
  | .error stuck => .error stuck
  | .ok ⟨left, [], fits⟩ => .ok ⟨left, [], fits⟩
  | .ok ⟨left, t :: rest, fits⟩ =>
    if kindOf t = .assign then
      if left.isPlace then
        match exp rest with
        | .error stuck => .error stuck
        | .ok ⟨value, rest', fits'⟩ =>
          .ok ⟨.assign left value, rest', by simp at fits; omega⟩
      else .error ⟨t :: rest⟩
    else .ok ⟨left, t :: rest, fits⟩
termination_by (ts.length, 10)
decreasing_by
  · exact Prod.Lex.right _ (by simp [Level.all])
  · exact Prod.Lex.left _ _ (by simp at fits; omega)

/-- Reads an operation of one of the given levels or tighter. -/
def operation (levels : List Level) (ts : List Lexeme) : Outcome Exp ts.length :=
  match levels with
  | [] => operand ts
  | level :: tighter =>
    match operation tighter ts with
    | .error stuck => .error stuck
    | .ok ⟨left, rest, fits⟩ =>
      match operations level tighter left rest with
      | .error stuck => .error stuck
      | .ok ⟨e, rest', fits'⟩ => .ok ⟨e, rest', by omega⟩
termination_by (ts.length, levels.length + 3)
decreasing_by
  · exact Prod.Lex.right _ (by simp)
  · exact Prod.Lex.right _ (by simp)
  · exact Prod.Lex.left _ _ (by omega)

/-- Reads operators of a level, each with its right operand, after a left operand. -/
def operations (level : Level) (tighter : List Level) (left : Exp) (ts : List Lexeme) :
    Outcome Exp (ts.length + 1) :=
  match ts with
  | [] => .ok ⟨left, [], by simp⟩
  | t :: ts =>
    match level.operator? (kindOf t) with
    | none => .ok ⟨left, t :: ts, by simp⟩
    | some op =>
      match operation tighter ts with
      | .error stuck => .error stuck
      | .ok ⟨right, rest, fits⟩ =>
        if level.chains then
          match operations level tighter (.binary op left right) rest with
          | .error stuck => .error stuck
          | .ok ⟨e, rest', fits'⟩ => .ok ⟨e, rest', by simp; omega⟩
        else if startsOperation level rest then .error ⟨rest⟩
        else .ok ⟨.binary op left right, rest, by simp; omega⟩
termination_by (ts.length, 0)
decreasing_by
  · exact Prod.Lex.left _ _ (by simp)
  · exact Prod.Lex.left _ _ (by simp; omega)

/-- Reads unary operators and what they apply to. -/
def operand (ts : List Lexeme) : Outcome Exp ts.length :=
  match ts with
  | [] => .error ⟨[]⟩
  | t :: ts =>
    match kindOf t with
    | .not =>
      match operand ts with
      | .error stuck => .error stuck
      | .ok ⟨e, rest, fits⟩ => .ok ⟨.unary .not e, rest, by simp; omega⟩
    | .minus =>
      match operand ts with
      | .error stuck => .error stuck
      | .ok ⟨e, rest, fits⟩ => .ok ⟨.unary .negate e, rest, by simp; omega⟩
    | _ => term (t :: ts)
termination_by (ts.length, 2)
decreasing_by
  · exact Prod.Lex.left _ _ (by simp)
  · exact Prod.Lex.left _ _ (by simp)
  · exact Prod.Lex.right _ (by simp)

/-- Reads a literal, an expression in parentheses, a call or a place. -/
def term (ts : List Lexeme) : Outcome Exp ts.length :=
  match ts with
  | [] => .error ⟨[]⟩
  | t :: ts =>
    match kindOf t with
    | .intLiteral => .ok ⟨.int (t.1.value.getD 0) t.1.text t.1.position, ts, by simp⟩
    | .stringLiteral => .ok ⟨.string t.1.text t.1.position, ts, by simp⟩
    | .trueWord => .ok ⟨.bool true t.1.position, ts, by simp⟩
    | .falseWord => .ok ⟨.bool false t.1.position, ts, by simp⟩
    | .leftParen =>
      match exp ts with
      | .error stuck => .error stuck
      | .ok ⟨e, rest, fits⟩ =>
        match expect .rightParen rest with
        | .error stuck => .error stuck
        | .ok ⟨_, rest', fits'⟩ => .ok ⟨e, rest', by simp; omega⟩
    | .identifier =>
      if nextIs .leftParen ts then
        match arguments ts with
        | .error stuck => .error stuck
        | .ok ⟨args, rest, fits⟩ => .ok ⟨.call (identOf t) args, rest, by simp; omega⟩
      else place (t :: ts)
    | _ => .error ⟨t :: ts⟩
termination_by (ts.length, 1)
decreasing_by
  · exact Prod.Lex.left _ _ (by simp)
  · exact Prod.Lex.left _ _ (by simp)

/-- Reads the arguments of a call with the parentheses around them. -/
def arguments (ts : List Lexeme) : Outcome (List Exp) ts.length :=
  match expect .leftParen ts with
  | .error stuck => .error stuck
  | .ok ⟨_, rest, fits⟩ =>
    match rest with
    | [] => .error ⟨[]⟩
    | t :: after =>
      if kindOf t = .rightParen then .ok ⟨[], after, by simp at fits; omega⟩
      else
        match argumentsFrom (t :: after) with
        | .error stuck => .error stuck
        | .ok ⟨args, rest', fits'⟩ => .ok ⟨args, rest', by omega⟩
termination_by (ts.length, 0)
decreasing_by exact Prod.Lex.left _ _ (by omega)

/-- Reads at least one argument, and the closing parenthesis. -/
def argumentsFrom (ts : List Lexeme) : Outcome (List Exp) ts.length :=
  match exp ts with
  | .error stuck => .error stuck
  | .ok ⟨_, [], _⟩ => .error ⟨[]⟩
  | .ok ⟨e, t :: rest, fits⟩ =>
    if kindOf t = .comma then
      match argumentsFrom rest with
      | .error stuck => .error stuck
      | .ok ⟨args, rest', fits'⟩ => .ok ⟨e :: args, rest', by simp at fits; omega⟩
    else if kindOf t = .rightParen then .ok ⟨[e], rest, by simp at fits; omega⟩
    else .error ⟨t :: rest⟩
termination_by (ts.length, 11)
decreasing_by
  · exact Prod.Lex.right _ (by simp)
  · exact Prod.Lex.left _ _ (by simp at fits; omega)

end

/-! ## Statements -/

/-- Reads an expression in parentheses. -/
def condition (ts : List Lexeme) : Outcome Exp ts.length := do
  let ⟨_, rest, fits⟩ ← expect .leftParen ts
  let ⟨e, rest', fits'⟩ ← exp rest
  let ⟨_, rest'', fits''⟩ ← expect .rightParen rest'
  return ⟨e, rest'', by omega⟩

/-- Reads an expression and the semicolon after it. -/
def closedExp (ts : List Lexeme) : Outcome Exp ts.length := do
  let ⟨e, rest, fits⟩ ← exp ts
  let ⟨_, rest', fits'⟩ ← expect .semicolon rest
  return ⟨e, rest', by omega⟩

/-- Reads what follows `cin`. -/
def readStmt (ts : List Lexeme) : Outcome Stmt ts.length := do
  let ⟨_, rest, fits⟩ ← expect .read ts
  let ⟨target, rest', fits'⟩ ← place rest
  let ⟨_, rest'', fits''⟩ ← expect .semicolon rest'
  return ⟨.read target, rest'', by omega⟩

/-- Reads what follows `cout`. -/
def writeStmt (ts : List Lexeme) : Outcome Stmt ts.length := do
  let ⟨_, rest, fits⟩ ← expect .write ts
  let ⟨value, rest', fits'⟩ ← closedExp rest
  return ⟨.write value, rest', by omega⟩

/-- Reads what follows a `return` at the given position. -/
def returnStmt (position : Position) : (ts : List Lexeme) → Outcome Stmt ts.length
  | [] => .error ⟨[]⟩
  | t :: ts =>
    if kindOf t = .semicolon then .ok ⟨.giveBack none position, ts, by simp⟩
    else do
      let ⟨value, rest, fits⟩ ← closedExp (t :: ts)
      return ⟨.giveBack (some value) position, rest, fits⟩

/-- Reads a call and the semicolon after it. -/
def callStmt (callee : Ident) (ts : List Lexeme) : Outcome Stmt ts.length := do
  let ⟨args, rest, fits⟩ ← arguments ts
  let ⟨_, rest', fits'⟩ ← expect .semicolon rest
  return ⟨.call callee args, rest', by omega⟩

/-- Reads an assignment, an increment or a decrement. -/
def placeStmt (ts : List Lexeme) : Outcome Stmt ts.length := do
  match ← place ts with
  | ⟨_, [], _⟩ => .error ⟨[]⟩
  | ⟨target, t :: rest, fits⟩ =>
    match kindOf t with
    | .assign =>
      let ⟨value, rest', fits'⟩ ← closedExp rest
      return ⟨.assign target value, rest', by simp at fits; omega⟩
    | .increment =>
      let ⟨_, rest', fits'⟩ ← expect .semicolon rest
      return ⟨.increment target, rest', by simp at fits; omega⟩
    | .decrement =>
      let ⟨_, rest', fits'⟩ ← expect .semicolon rest
      return ⟨.decrement target, rest', by simp at fits; omega⟩
    | _ => .error ⟨t :: rest⟩

mutual

/-- Reads declarations and statements between braces. -/
def block (ts : List Lexeme) : Outcome Block ts.length :=
  match expect .leftBrace ts with
  | .error stuck => .error stuck
  | .ok ⟨_, rest, fits⟩ =>
    match varDecls rest with
    | .error stuck => .error stuck
    | .ok ⟨decls, rest', fits'⟩ =>
      match stmts rest' with
      | .error stuck => .error stuck
      | .ok ⟨body, rest'', fits''⟩ =>
        match expect .rightBrace rest'' with
        | .error stuck => .error stuck
        | .ok ⟨_, rest''', fits'''⟩ => .ok ⟨.mk decls body, rest''', by omega⟩
termination_by (ts.length, 0)
decreasing_by exact Prod.Lex.left _ _ (by omega)

/-- Reads statements up to a closing brace or the end. -/
def stmts (ts : List Lexeme) : Outcome (List Stmt) (ts.length + 1) :=
  match ts with
  | [] => .ok ⟨[], [], by simp⟩
  | t :: ts =>
    if kindOf t = .rightBrace then .ok ⟨[], t :: ts, by simp⟩
    else
      match stmt (t :: ts) with
      | .error stuck => .error stuck
      | .ok ⟨s, rest, fits⟩ =>
        match stmts rest with
        | .error stuck => .error stuck
        | .ok ⟨more, rest', fits'⟩ => .ok ⟨s :: more, rest', by simp at fits ⊢; omega⟩
termination_by (ts.length, 2)
decreasing_by
  · exact Prod.Lex.right _ (by simp)
  · exact Prod.Lex.left _ _ fits

def stmt (ts : List Lexeme) : Outcome Stmt ts.length :=
  match ts with
  | [] => .error ⟨[]⟩
  | t :: ts =>
    match kindOf t with
    | .cinWord => (readStmt ts).map fun ⟨s, rest, fits⟩ => ⟨s, rest, by simp; omega⟩
    | .coutWord => (writeStmt ts).map fun ⟨s, rest, fits⟩ => ⟨s, rest, by simp; omega⟩
    | .ifWord =>
      match condition ts with
      | .error stuck => .error stuck
      | .ok ⟨e, rest, fits⟩ =>
        match block rest with
        | .error stuck => .error stuck
        | .ok ⟨yes, [], fits'⟩ => .ok ⟨.ifThen e yes, [], by simp⟩
        | .ok ⟨yes, u :: rest', fits'⟩ =>
          if kindOf u = .elseWord then
            match block rest' with
            | .error stuck => .error stuck
            | .ok ⟨no, rest'', fits''⟩ => .ok ⟨.ifElse e yes no, rest'', by simp at fits' ⊢; omega⟩
          else .ok ⟨.ifThen e yes, u :: rest', by simp at fits' ⊢; omega⟩
    | .whileWord =>
      match condition ts with
      | .error stuck => .error stuck
      | .ok ⟨e, rest, fits⟩ =>
        match block rest with
        | .error stuck => .error stuck
        | .ok ⟨body, rest', fits'⟩ => .ok ⟨.whileLoop e body, rest', by simp; omega⟩
    | .repeatWord =>
      match condition ts with
      | .error stuck => .error stuck
      | .ok ⟨e, rest, fits⟩ =>
        match block rest with
        | .error stuck => .error stuck
        | .ok ⟨body, rest', fits'⟩ => .ok ⟨.repeatLoop e body, rest', by simp; omega⟩
    | .returnWord =>
      (returnStmt t.1.position ts).map fun ⟨s, rest, fits⟩ => ⟨s, rest, by simp; omega⟩
    | .identifier =>
      if nextIs .leftParen ts then
        (callStmt (identOf t) ts).map fun ⟨s, rest, fits⟩ => ⟨s, rest, by simp; omega⟩
      else placeStmt (t :: ts)
    | _ => .error ⟨t :: ts⟩
termination_by (ts.length, 1)
decreasing_by
  · exact Prod.Lex.left _ _ (by simp; omega)
  · exact Prod.Lex.left _ _ (by simp at fits' ⊢; omega)
  · exact Prod.Lex.left _ _ (by simp; omega)
  · exact Prod.Lex.left _ _ (by simp; omega)

end

/-! ## Declarations -/

/-- Whether a struct declaration follows, and not a declaration of some struct type. -/
def startsStruct (ts : List Lexeme) : Bool :=
  (ts.take 3).map kindOf = [.structWord, .identifier, .leftBrace]

theorem startsStruct_cons (t : Lexeme) (ts : List Lexeme) :
    startsStruct (t :: ts) =
      (decide (kindOf t = .structWord) && nextIs .identifier ts &&
        nextIs .leftBrace (ts.drop 1)) := by
  rcases ts with _ | ⟨u, _ | ⟨v, ts⟩⟩ <;> simp [startsStruct, nextIs, Bool.and_assoc]

def structDecl (ts : List Lexeme) : Outcome Decl ts.length := do
  let ⟨_, rest, fits⟩ ← expect .structWord ts
  let ⟨name, rest, fits⟩ ← ident rest
  let ⟨_, rest, fits⟩ ← expect .leftBrace rest
  let ⟨fields, rest, fits⟩ ← fieldsFrom rest
  let ⟨_, rest, fits⟩ ← expect .semicolon rest
  return ⟨.struct ⟨name, fields⟩, rest, by omega⟩

/-- Reads a function after its result type and name. -/
def fnDecl (resultType : TypeExp) (name : Ident) (ts : List Lexeme) : Outcome Decl ts.length := do
  let ⟨formals, rest, fits⟩ ← formals ts
  let ⟨body, rest, fits⟩ ← block rest
  return ⟨.fn ⟨resultType, name, formals, body⟩, rest, by omega⟩

/-- Reads a variable or a function; both begin with a type and a name. -/
def varOrFnDecl (ts : List Lexeme) : Outcome Decl ts.length := do
  let ⟨⟨type, name⟩, rest, fits⟩ ← formal ts
  if nextIs .leftParen rest then
    let ⟨decl, rest, fits⟩ ← fnDecl type name rest
    return ⟨decl, rest, by omega⟩
  else
    let ⟨_, rest, fits⟩ ← expect .semicolon rest
    return ⟨.var ⟨type, name⟩, rest, by omega⟩

def decl (ts : List Lexeme) : Outcome Decl ts.length :=
  if startsStruct ts then structDecl ts else varOrFnDecl ts

/-- Reads declarations to the end. -/
def decls (ts : List Lexeme) : Except Stuck (List Decl) :=
  match ts with
  | [] => .ok []
  | t :: ts =>
    match decl (t :: ts) with
    | .error stuck => .error stuck
    | .ok ⟨d, rest, _fits⟩ =>
      match decls rest with
      | .error stuck => .error stuck
      | .ok more => .ok (d :: more)
termination_by ts.length
decreasing_by exact _fits

end Cinder.Parse
