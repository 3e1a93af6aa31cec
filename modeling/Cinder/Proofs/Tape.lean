import Cinder.Program.Source

/-!
# The parser on a tape

The parser as it goes about its work: the tokens stand on a tape, and a head moves over them.
Nothing is taken for granted here. A look outside the tape halts the run. A run has room for so many
calls inside one another, where the rounds of a loop count as calls too; it is cut off if it needs
more, and then it has no outcome. What happens on the way is noted.
-/
namespace Cinder

/-- Tokens, and the number from which the nodes of their identifiers are counted. -/
structure Tape where
  first : Nat
  tokens : List Token

namespace Tape

/-- The loops of the parser. -/
inductive Loop where
  | declarations
  | fields
  | formals
  | variables
  | statements
  | operators
  | arguments
  | selections
  deriving DecidableEq

inductive Event where
  /-- The token at an index was looked at. -/
  | look (index : Nat)
  /-- The head was moved to an index. -/
  | move (index : Nat)
  /-- A round of a loop began with the head at `start`. -/
  | begins (loop : Loop) (start : Nat)
  /-- A round that began at `start` was over with the head at `stop`. -/
  | ends (loop : Loop) (start stop : Nat)
  deriving DecidableEq

/-- Why a run stops without a value. -/
inductive Halt where
  /-- The current token, which stands here, fits nowhere. -/
  | misfit (position : Position)
  /-- There is no token at this index. -/
  | outside (index : Nat)

structure State where
  head : Nat
  events : List Event

/-- Runs that may be cut off. What was done before a halt stays done. -/
abbrev Run (α : Type) := ExceptT Halt (StateT State Option) α

def cutOff {α : Type} : Run α := ExceptT.mk fun _ => none

section Runs

variable {α β : Type} {m : Run α} {f : α → Run β} {s s' : State}

theorem run_bind_ok {v : α} (h : m.run.run s = some (.ok v, s')) :
    (m >>= f).run.run s = (f v).run.run s' := by
  change (m.run.run s).bind _ = _
  rw [h]
  rfl

theorem run_bind_error {halt : Halt} (h : m.run.run s = some (.error halt, s')) :
    (m >>= f).run.run s = some (.error halt, s') := by
  change (m.run.run s).bind _ = _
  rw [h]
  rfl

theorem run_bind_none (h : m.run.run s = none) : (m >>= f).run.run s = none := by
  change (m.run.run s).bind _ = _
  rw [h]
  rfl

end Runs

def note (event : Event) : Run Unit :=
  modify fun s => { s with events := s.events ++ [event] }

/-- One round of a loop. -/
def round {α : Type} (loop : Loop) (body : Run α) : Run α := do
  let start := (← get).head
  note (.begins loop start)
  let value ← body
  note (.ends loop start (← get).head)
  return value

variable (tape : Tape)

/-! ## The head -/

def look (index : Nat) : Run Token := do
  note (.look index)
  match tape.tokens[index]? with
  | some t => return t
  | none => throw (.outside index)

def current : Run Token := do
  tape.look (← get).head

/-- The kind of the token so many places ahead; the last token stands for those that are missing. -/
def kindAhead (n : Nat) : Run Kind := do
  return (← tape.look (min ((← get).head + n) (tape.tokens.length - 1))).kind

def nextIs (kind : Kind) : Run Bool := do
  return (← tape.current).kind = kind

/-- Goes past the current token, unless the input ends there. -/
def advance : Run Token := do
  let t ← tape.current
  if t.kind ≠ .endOfInput then
    let next := (← get).head + 1
    modify fun s => { s with head := next }
    note (.move next)
  return t

def misfit {α : Type} : Run α := do
  throw (.misfit (← tape.current).position)

def expect (kind : Kind) : Run Token := do
  if ← tape.nextIs kind then tape.advance else tape.misfit

/-! ## Types and variables -/

def ident : Run Ident := do
  let place := (← get).head
  let t ← tape.expect .identifier
  return Parse.identOf (t, tape.first + place)

def typeExp : Run TypeExp := do
  match (← tape.current).kind with
  | .intWord =>
    let _ ← tape.advance
    return .int
  | .boolWord =>
    let _ ← tape.advance
    return .bool
  | .voidWord =>
    let _ ← tape.advance
    return .void
  | .structWord =>
    let _ ← tape.advance
    return .struct (← tape.ident)
  | _ => tape.misfit

def formal : Run VarDecl := do
  let type ← tape.typeExp
  return ⟨type, ← tape.ident⟩

def varDecl : Run VarDecl := do
  let d ← tape.formal
  let _ ← tape.expect .semicolon
  return d

/-- Declarations of variables as long as types follow. -/
def varDecls : Nat → Run (List VarDecl)
  | 0 => cutOff
  | room + 1 => do
    if Parse.startsType (← tape.current).kind then
      let d ← round .variables tape.varDecl
      return d :: (← varDecls room)
    else return []

/-- Fields up to a closing brace. -/
def fields : Nat → Run (List VarDecl)
  | 0 => cutOff
  | room + 1 => do
    if ← tape.nextIs .rightBrace then return []
    else
      let d ← round .fields tape.varDecl
      return d :: (← fields room)

/-- Formals as long as commas follow. -/
def moreFormals : Nat → Run (List VarDecl)
  | 0 => cutOff
  | room + 1 => do
    if ← tape.nextIs .comma then
      let d ← round .formals do
        let _ ← tape.advance
        tape.formal
      return d :: (← moreFormals room)
    else return []

def formalList (room : Nat) : Run (List VarDecl) := do
  if ← tape.nextIs .rightParen then return []
  else
    let d ← tape.formal
    return d :: (← tape.moreFormals room)

def formals (room : Nat) : Run (List VarDecl) := do
  let _ ← tape.expect .leftParen
  let ds ← tape.formalList room
  let _ ← tape.expect .rightParen
  return ds

/-! ## Expressions -/

/-- Field selections as long as dots follow. -/
def selections (base : Exp) : Nat → Run Exp
  | 0 => cutOff
  | room + 1 => do
    if ← tape.nextIs .dot then
      let field ← round .selections do
        let _ ← tape.advance
        tape.ident
      selections (.dot base field) room
    else return base

def place (room : Nat) : Run Exp := do
  tape.selections (.ident (← tape.ident)) room

mutual

def exp : Nat → Run Exp
  | 0 => cutOff
  | room + 1 => do
    let left ← operation Level.all room
    if ← tape.nextIs .assign then
      if left.isPlace then
        let _ ← tape.advance
        return .assign left (← exp room)
      else tape.misfit
    else return left

/-- An operation of one of the given levels or tighter. -/
def operation (levels : List Level) : Nat → Run Exp
  | 0 => cutOff
  | room + 1 =>
    match levels with
    | [] => operand room
    | level :: tighter => do operations level tighter (← operation tighter room) room

/-- Operators of a level after a left operand. A level that does not chain has one at most, and that
is no loop. -/
def operations (level : Level) (tighter : List Level) (left : Exp) : Nat → Run Exp
  | 0 => cutOff
  | room + 1 => do
    match level.operator? (← tape.current).kind with
    | none => return left
    | some op =>
      if level.chains then
        let right ← round .operators do
          let _ ← tape.advance
          operation tighter room
        operations level tighter (.binary op left right) room
      else
        let _ ← tape.advance
        let right ← operation tighter room
        if (level.operator? (← tape.current).kind).isSome then tape.misfit
        else return .binary op left right

def operand : Nat → Run Exp
  | 0 => cutOff
  | room + 1 => do
    if ← tape.nextIs .not then
      let _ ← tape.advance
      return .unary .not (← operand room)
    else if ← tape.nextIs .minus then
      let _ ← tape.advance
      return .unary .negate (← operand room)
    else term room

def term : Nat → Run Exp
  | 0 => cutOff
  | room + 1 => do
    let t ← tape.current
    match t.kind with
    | .intLiteral =>
      let _ ← tape.advance
      return .int (t.value.getD 0) t.text t.position
    | .stringLiteral =>
      let _ ← tape.advance
      return .string t.text t.position
    | .trueWord =>
      let _ ← tape.advance
      return .bool true t.position
    | .falseWord =>
      let _ ← tape.advance
      return .bool false t.position
    | .leftParen =>
      let _ ← tape.advance
      let e ← exp room
      let _ ← tape.expect .rightParen
      return e
    | .identifier =>
      if (← tape.kindAhead 1) = .leftParen then
        let callee ← tape.ident
        return .call callee (← arguments room)
      else tape.place room
    | _ => tape.misfit

def arguments : Nat → Run (List Exp)
  | 0 => cutOff
  | room + 1 => do
    let _ ← tape.expect .leftParen
    let args ← argumentList room
    let _ ← tape.expect .rightParen
    return args

def argumentList : Nat → Run (List Exp)
  | 0 => cutOff
  | room + 1 => do
    if ← tape.nextIs .rightParen then return []
    else
      let e ← exp room
      return e :: (← moreArguments room)

/-- Arguments as long as commas follow. -/
def moreArguments : Nat → Run (List Exp)
  | 0 => cutOff
  | room + 1 => do
    if ← tape.nextIs .comma then
      let e ← round .arguments do
        let _ ← tape.advance
        exp room
      return e :: (← moreArguments room)
    else return []

end

/-! ## Statements -/

def condition (room : Nat) : Run Exp := do
  let _ ← tape.expect .leftParen
  let e ← tape.exp room
  let _ ← tape.expect .rightParen
  return e

/-- What is done to a place. -/
def change (target : Exp) (room : Nat) : Run Stmt := do
  if ← tape.nextIs .assign then
    let _ ← tape.advance
    return .assign target (← tape.exp room)
  else if ← tape.nextIs .increment then
    let _ ← tape.advance
    return .increment target
  else if ← tape.nextIs .decrement then
    let _ ← tape.advance
    return .decrement target
  else tape.misfit

/-- Statements that begin with an identifier. -/
def identStmt (room : Nat) : Run Stmt := do
  if (← tape.kindAhead 1) = .leftParen then
    let callee ← tape.ident
    let args ← tape.arguments room
    let _ ← tape.expect .semicolon
    return .call callee args
  else
    let target ← tape.place room
    let s ← tape.change target room
    let _ ← tape.expect .semicolon
    return s

/-- What is given back, if anything. -/
def returned (room : Nat) : Run (Option Exp) := do
  if ← tape.nextIs .semicolon then return none
  else return some (← tape.exp room)

mutual

def block : Nat → Run Block
  | 0 => cutOff
  | room + 1 => do
    let _ ← tape.expect .leftBrace
    let ds ← tape.varDecls room
    let ss ← stmts room
    let _ ← tape.expect .rightBrace
    return .mk ds ss

/-- Statements up to a closing brace or the end. -/
def stmts : Nat → Run (List Stmt)
  | 0 => cutOff
  | room + 1 => do
    if ← tape.nextIs .rightBrace then return []
    else if ← tape.nextIs .endOfInput then return []
    else
      let s ← round .statements (stmt room)
      return s :: (← stmts room)

def stmt : Nat → Run Stmt
  | 0 => cutOff
  | room + 1 => do
    let t ← tape.current
    match t.kind with
    | .cinWord =>
      let _ ← tape.advance
      let _ ← tape.expect .read
      let target ← tape.place room
      let _ ← tape.expect .semicolon
      return .read target
    | .coutWord =>
      let _ ← tape.advance
      let _ ← tape.expect .write
      let value ← tape.exp room
      let _ ← tape.expect .semicolon
      return .write value
    | .ifWord =>
      let _ ← tape.advance
      let e ← tape.condition room
      let yes ← block room
      if ← tape.nextIs .elseWord then
        let _ ← tape.advance
        return .ifElse e yes (← block room)
      else return .ifThen e yes
    | .whileWord =>
      let _ ← tape.advance
      let e ← tape.condition room
      return .whileLoop e (← block room)
    | .repeatWord =>
      let _ ← tape.advance
      let e ← tape.condition room
      return .repeatLoop e (← block room)
    | .returnWord =>
      let _ ← tape.advance
      let value ← tape.returned room
      let _ ← tape.expect .semicolon
      return .giveBack value t.position
    | .identifier => tape.identStmt room
    | _ => tape.misfit

end

/-! ## Declarations -/

def fieldList (room : Nat) : Run (List VarDecl) := do
  let d ← tape.varDecl
  let ds ← tape.fields room
  let _ ← tape.expect .rightBrace
  return d :: ds

def structDecl (room : Nat) : Run Decl := do
  let _ ← tape.expect .structWord
  let name ← tape.ident
  let _ ← tape.expect .leftBrace
  let ds ← tape.fieldList room
  let _ ← tape.expect .semicolon
  return .struct ⟨name, ds⟩

/-- A function after its result type and name. -/
def fnDecl (resultType : TypeExp) (name : Ident) (room : Nat) : Run Decl := do
  let ds ← tape.formals room
  return .fn ⟨resultType, name, ds, ← tape.block room⟩

/-- A struct is declared only if a name and a brace follow the word. -/
def startsStruct : Run Bool := do
  if ← tape.nextIs .structWord then
    if (← tape.kindAhead 1) = .identifier then
      if (← tape.kindAhead 2) = .leftBrace then return true else return false
    else return false
  else return false

def decl (room : Nat) : Run Decl := do
  if ← tape.startsStruct then tape.structDecl room
  else
    let d ← tape.formal
    if ← tape.nextIs .leftParen then tape.fnDecl d.type d.name room
    else
      let _ ← tape.expect .semicolon
      return .var d

/-- Declarations up to the end. -/
def decls : Nat → Run (List Decl)
  | 0 => cutOff
  | room + 1 => do
    if ← tape.nextIs .endOfInput then return []
    else
      let d ← round .declarations (tape.decl room)
      return d :: (← decls room)

def program (room : Nat) : Run Program := do
  return ⟨← tape.decls room⟩

/-- The outcome of the parser with the head on the first token, and the state that it ends in. -/
def parse (room : Nat) : Option (Except Halt Program × State) :=
  (tape.program room).run.run ⟨0, []⟩

end Tape

end Cinder
