import Cinder.Bindings
import Cinder.Diagnostic
import Cinder.Scopes

/-!
Name resolution: one walk through a program, from top to bottom, that binds every identifier to the
declaration it refers to. Struct fields are reached through dot-accesses only. Problems are reported
and the walk goes on; a fault ends it and keeps all that was done before.
-/
namespace Cinder

/-- What a resolver knows at some point of its walk. -/
structure Resolver where
  scopes : Scopes
  bindings : Bindings
  /-- Dot-accesses that failed; what selects from them says nothing more. -/
  badDots : List Nat
  diagnostics : List Diagnostic

def Resolver.initial : Resolver := ⟨.initial, .empty, [], []⟩

abbrev Resolve := EStateM Fault Resolver

namespace Resolve

def report (position : Position) (problem : Problem) : Resolve Unit :=
  modify fun r => { r with diagnostics := r.diagnostics ++ [.error position problem] }

/-- Looks something up in the scopes. -/
def query {α : Type} (f : Scopes → Except Fault α) : Resolve α := do
  match f (← get).scopes with
  | .ok a => return a
  | .error fault => throw fault

def updateScopes (f : Scopes → Except Fault Scopes) : Resolve Unit := do
  match f (← get).scopes with
  | .ok scopes => modify fun r => { r with scopes }
  | .error fault => throw fault

def updateBindings (f : Bindings → Except Fault Bindings) : Resolve Unit := do
  match f (← get).bindings with
  | .ok bindings => modify fun r => { r with bindings }
  | .error fault => throw fault

def bind (id : Ident) (s : Symbol) : Resolve Unit := updateBindings (·.bind id s)

def markBad (field : Ident) : Resolve Unit :=
  modify fun r => { r with badDots := field.node :: r.badDots }

/-- The struct that a name means where it stands. -/
def structNamed (name : Text) : Resolve (Option StructDef) := do
  match ← query (·.find name) with
  | some (.structDef d) => return some d
  | _ => return none

/-- The symbol that a declaration would give its name. There is none if its type is `void` or names
no struct, which is reported. -/
def candidate (d : VarDecl) : Resolve (Option Symbol) := do
  match d.type with
  | .void =>
    report d.name.position .voidVariable
    return none
  | .struct typeName =>
    match ← structNamed typeName.name with
    | none =>
      report typeName.position .unknownStruct
      return none
    | some definition =>
      bind typeName (.structDef definition)
      return some (.structVar d.name.name typeName definition)
  | type => return some (.plain d.name.name type.type)

/-- Declares a variable or formal in the innermost scope. The result is its type, or nothing if it
was rejected. -/
def varDecl (d : VarDecl) : Resolve (Option Ty) := do
  let symbol? ← candidate d
  let taken := (← query (·.findLocal d.name.name)).isSome
  if taken then report d.name.position .redeclared
  match symbol?, taken with
  | some symbol, false =>
    updateScopes (·.declare d.name.name (some symbol))
    bind d.name symbol
    return some d.type.type
  | _, _ => return none

def varDecls : List VarDecl → Resolve Unit
  | [] => return ()
  | d :: rest => do
    let _ ← varDecl d
    varDecls rest

/-- The types of formals; a rejected one has the type `error`. -/
def formals : List VarDecl → Resolve (List Ty)
  | [] => return []
  | d :: rest => do
    let type := (← varDecl d).getD .error
    return type :: (← formals rest)

/-- Declares a field of a struct. Struct names are looked up around the struct. -/
def fieldDecl (definition : StructDef) (d : VarDecl) : Resolve StructDef := do
  let symbol? ← candidate d
  let taken := (definition.field? d.name.name).isSome
  if taken then report d.name.position .redeclared
  match symbol?, taken with
  | some symbol, false =>
    match definition.declare symbol with
    | .ok definition =>
      bind d.name symbol
      return definition
    | .error fault => throw fault
  | _, _ => return definition

def fieldDecls (definition : StructDef) : List VarDecl → Resolve StructDef
  | [] => return definition
  | d :: rest => do fieldDecls (← fieldDecl definition d) rest

def useIdent (id : Ident) : Resolve Unit := do
  match ← query (·.find id.name) with
  | none => report id.position .undeclared
  | some s => bind id s

/-- The struct from which a dot-access with this base selects. A base that failed before is passed
over in silence. -/
def structOfBase (base : Exp) : Resolve (Option StructDef) := do
  let r ← get
  match base with
  | .ident id =>
    match r.bindings.symbolOf id with
    | none => return none
    | some (.structVar _ _ definition) => return some definition
    | some _ =>
      report base.position .notStruct
      return none
  | .dot _ field =>
    if r.badDots.contains field.node then return none
    else match r.bindings.structOf field with
      | some definition => return some definition
      | none =>
        report base.position .notStruct
        return none
  | _ =>
    report base.position .notStruct
    return none

/-- Selects a field after the base has been resolved. -/
def select (base : Exp) (field : Ident) : Resolve Unit := do
  match ← structOfBase base with
  | none => markBad field
  | some definition =>
    match definition.field? field.name with
    | none =>
      report field.position .unknownField
      markBad field
    | some s =>
      bind field s
      match s with
      | .structVar _ _ inner => updateBindings (·.bindStruct field inner)
      | _ => return ()

mutual

def exp : Exp → Resolve Unit
  | .int _ _ _ => return ()
  | .string _ _ => return ()
  | .bool _ _ => return ()
  | .ident id => useIdent id
  | .dot base field => do
    exp base
    select base field
  | .assign target value => do
    exp target
    exp value
  | .call callee args => do
    useIdent callee
    exps args
  | .unary _ operand => exp operand
  | .binary _ left right => do
    exp left
    exp right

def exps : List Exp → Resolve Unit
  | [] => return ()
  | e :: rest => do
    exp e
    exps rest

end

mutual

/-- Conditions are resolved outside of the blocks that they govern. -/
def stmt : Stmt → Resolve Unit
  | .assign target value => do
    exp target
    exp value
  | .increment target => exp target
  | .decrement target => exp target
  | .read target => exp target
  | .write value => exp value
  | .ifThen condition body => do
    exp condition
    block body
  | .ifElse condition yes no => do
    exp condition
    block yes
    block no
  | .whileLoop condition body => do
    exp condition
    block body
  | .repeatLoop count body => do
    exp count
    block body
  | .call callee args => do
    useIdent callee
    exps args
  | .giveBack none _ => return ()
  | .giveBack (some value) _ => exp value

/-- A block has a scope of its own. -/
def block : Block → Resolve Unit
  | .mk decls body => do
    updateScopes fun s => .ok s.enter
    varDecls decls
    stmts body
    updateScopes (·.leave)

def stmts : List Stmt → Resolve Unit
  | [] => return ()
  | s :: rest => do
    stmt s
    stmts rest

end

/-- Binds the struct name of a result type. A name that means no struct is not reported. -/
def resultType : TypeExp → Resolve Unit
  | .struct name => do
    match ← structNamed name.name with
    | some definition => bind name (.structDef definition)
    | none => return ()
  | _ => return ()

/-- Declares the name of a function, still without its formals, so that its body can call it. The
result tells whether the name was free. -/
def fnName (d : FnDecl) : Resolve Bool := do
  if (← query (·.findLocal d.name.name)).isSome then
    report d.name.position .redeclared
    return false
  else
    let symbol := Symbol.function d.name.name d.resultType.type []
    updateScopes (·.declare d.name.name (some symbol))
    bind d.name symbol
    return true

/-- Completes the symbol of a function whose formals have been resolved. -/
def completeFn (d : FnDecl) (params : List Ty) : Resolve Unit :=
  let symbol := Symbol.function d.name.name d.resultType.type params
  modify fun r =>
    { r with
      scopes := r.scopes.amendOuter d.name.name symbol
      bindings := r.bindings.amend d.name symbol }

/-- Formals and the declarations of the body share a scope. -/
def fnDecl (d : FnDecl) : Resolve Unit := do
  let accepted ← fnName d
  resultType d.resultType
  updateScopes fun s => .ok s.enter
  let params ← formals d.formals
  if accepted then completeFn d params
  varDecls d.body.decls
  stmts d.body.stmts
  updateScopes (·.leave)

/-- The name of a struct is declared after its fields. Nothing in a struct whose name is taken is
resolved. -/
def structDecl (d : StructDecl) : Resolve Unit := do
  if (← query (·.findLocal d.name.name)).isSome then
    report d.name.position .redeclared
  else
    let definition ← fieldDecls (.mk d.name.name []) d.fields
    let symbol := Symbol.structDef definition
    updateScopes (·.declare d.name.name (some symbol))
    bind d.name symbol

def decl : Decl → Resolve Unit
  | .var d => do
    let _ ← varDecl d
    return ()
  | .fn d => fnDecl d
  | .struct d => structDecl d

def decls : List Decl → Resolve Unit
  | [] => return ()
  | d :: rest => do
    decl d
    decls rest

end Resolve

/-- Resolves a whole program from what a resolver knows. -/
def Resolver.program (r : Resolver) (p : Program) : EStateM.Result Fault Resolver Unit :=
  (Resolve.decls p.decls).run r

/-- Resolves the names of a program by itself. -/
def Program.resolve (p : Program) : Except Fault Resolver :=
  match Resolver.initial.program p with
  | .ok _ r => .ok r
  | .error fault _ => .error fault

end Cinder
