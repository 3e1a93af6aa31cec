import Cinder.Bindings
import Cinder.Diagnostic
import Cinder.Scopes

/-!
# Lexical scoping

What the names of a program mean, as a function of what is visible where they stand. An environment
is handed down from scopes to the scopes inside them and never changed: what is declared in a block,
a branch or a function is not seen outside of it. Findings are collected in source order. There is no
stack here, and nothing that is found depends on what was found before.
-/
namespace Cinder.Scoping

/-- The accepted declarations of a block, of a function frame or of the file, in source order. -/
abbrev Scope := Frame

/-- The scopes around a place of the program, the innermost first. -/
abbrev Env := List Scope

namespace Env

/-- The declaration of a name in the innermost scope that has one. -/
def find (env : Env) (name : Text) : Option Symbol := env.findSome? (·.find? name)

/-- The struct that a name means. -/
def struct (env : Env) (name : Text) : Option StructDef :=
  match env.find name with
  | some (.structDef d) => some d
  | _ => none

end Env

/-- What is found out about a part of a program: the identifiers that are bound, the structs of
dot-accesses, the fields that select nothing, and what is reported. -/
structure Findings where
  idents : List (Nat × Symbol) := []
  dots : List (Nat × StructDef) := []
  bad : List Nat := []
  diagnostics : List Diagnostic := []

namespace Findings

def nothing : Findings := {}

def report (position : Position) (problem : Problem) : Findings :=
  { diagnostics := [.error position problem] }

def bind (id : Ident) (s : Symbol) : Findings := { idents := [(id.node, s)] }

instance : Append Findings where
  append f g :=
    ⟨f.idents ++ g.idents, f.dots ++ g.dots, f.bad ++ g.bad, f.diagnostics ++ g.diagnostics⟩

end Findings

open Findings (nothing report bind)

/-! ## Uses -/

def use (env : Env) (id : Ident) : Findings :=
  match env.find id.name with
  | none => report id.position .undeclared
  | some s => bind id s

/-- What a dot-access selects from. -/
inductive Base where
  /-- Something unbound, which has been reported before. -/
  | unbound
  | struct (definition : StructDef)
  | other

namespace Base

def ofSymbol? : Option Symbol → Base
  | none => unbound
  | some (.structVar _ _ definition) => struct definition
  | some _ => other

def field? (base : Base) (name : Text) : Option Symbol :=
  match base with
  | struct definition => definition.field? name
  | _ => none

/-- A chain of dot-accesses is followed from the left. -/
def of (env : Env) : Exp → Base
  | .ident id => ofSymbol? (env.find id.name)
  | .dot inner field => ofSymbol? ((of env inner).field? field.name)
  | _ => other

end Base

/-- The selection of a field from a base that stands at a position. -/
def select (base : Base) (position : Position) (field : Ident) : Findings :=
  match base with
  | .unbound => { bad := [field.node] }
  | .other => { bad := [field.node], diagnostics := [.error position .notStruct] }
  | .struct definition =>
    match definition.field? field.name with
    | none => { bad := [field.node], diagnostics := [.error field.position .unknownField] }
    | some (.structVar name typeName inner) =>
      { idents := [(field.node, .structVar name typeName inner)], dots := [(field.node, inner)] }
    | some s => bind field s

mutual

def exp (env : Env) : Exp → Findings
  | .int _ _ _ => nothing
  | .string _ _ => nothing
  | .bool _ _ => nothing
  | .ident id => use env id
  | .dot base field => exp env base ++ select (.of env base) base.position field
  | .assign target value => exp env target ++ exp env value
  | .call callee args => use env callee ++ exps env args
  | .unary _ operand => exp env operand
  | .binary _ left right => exp env left ++ exp env right

def exps (env : Env) : List Exp → Findings
  | [] => nothing
  | e :: rest => exp env e ++ exps env rest

end

/-! ## Declarations of variables -/

/-- The symbol that a declaration would give its name, if its type is good. -/
def candidate (env : Env) (d : VarDecl) : Option Symbol × Findings :=
  match d.type with
  | .void => (none, report d.name.position .voidVariable)
  | .struct typeName =>
    match env.struct typeName.name with
    | none => (none, report typeName.position .unknownStruct)
    | some definition =>
      (some (.structVar d.name.name typeName definition), bind typeName (.structDef definition))
  | type => (some (.plain d.name.name type.type), nothing)

/-- The symbol of a declaration that is accepted. -/
def declare (env : Env) (taken : Bool) (d : VarDecl) : Option Symbol × Findings :=
  match candidate env d, taken with
  | (_, found), true => (none, found ++ report d.name.position .redeclared)
  | (none, found), false => (none, found)
  | (some s, found), false => (some s, found ++ bind d.name s)

/-- What a list of declarations adds up to. A rejected declaration has no symbol and is not in the
scope. -/
structure Declared where
  scope : Scope
  symbols : List (Option Symbol)
  findings : Findings

/-- Declares one after the other, given what is visible beside the declarations so far. -/
def declareAll (visible : Scope → Env) (scope : Scope) : List VarDecl → Declared
  | [] => ⟨scope, [], nothing⟩
  | d :: rest =>
    let one := declare (visible scope) (scope.contains d.name.name) d
    let more := declareAll visible (one.1.elim scope (scope.insert d.name.name)) rest
    ⟨more.scope, one.1 :: more.symbols, one.2 ++ more.findings⟩

/-! ## Statements -/

mutual

/-- Conditions see what is around the block that they govern. -/
def stmt (env : Env) : Stmt → Findings
  | .assign target value => exp env target ++ exp env value
  | .increment target => exp env target
  | .decrement target => exp env target
  | .read target => exp env target
  | .write value => exp env value
  | .ifThen condition body => exp env condition ++ block env body
  | .ifElse condition yes no => exp env condition ++ (block env yes ++ block env no)
  | .whileLoop condition body => exp env condition ++ block env body
  | .repeatLoop count body => exp env count ++ block env body
  | .call callee args => use env callee ++ exps env args
  | .giveBack none _ => nothing
  | .giveBack (some value) _ => exp env value

def block (env : Env) : Block → Findings
  | .mk decls body =>
    let declared := declareAll (· :: env) .empty decls
    declared.findings ++ stmts (declared.scope :: env) body

def stmts (env : Env) : List Stmt → Findings
  | [] => nothing
  | s :: rest => stmt env s ++ stmts env rest

end

/-! ## Declarations of the file -/

/-- A struct name as a result type is bound, but it is never reported. -/
def resultType (globals : Scope) : TypeExp → Findings
  | .struct name =>
    match Env.struct [globals] name.name with
    | some definition => bind name (.structDef definition)
    | none => nothing
  | _ => nothing

/-- The types that formals ask of arguments; a rejected formal asks for `error`. -/
def paramTypes (symbols : List (Option Symbol)) : List Ty :=
  symbols.map fun symbol? => (symbol?.map Symbol.type).getD .error

/-- A function sees the declarations before it and itself. Formals and the declarations of the body
share a scope. The body of a function whose name is taken is looked at all the same. -/
def fnDecl (globals : Scope) (d : FnDecl) : Scope × Findings :=
  let formals := declareAll (· :: [globals]) .empty d.formals
  let symbol := Symbol.function d.name.name d.resultType.type (paramTypes formals.symbols)
  let taken := globals.contains d.name.name
  let outer := if taken then globals else globals.insert d.name.name symbol
  let own := if taken then report d.name.position .redeclared else bind d.name symbol
  let body := declareAll (· :: [outer]) formals.scope d.body.decls
  (outer, own ++ (resultType globals d.resultType ++ (formals.findings
    ++ (body.findings ++ stmts [body.scope, outer] d.body.stmts))))

/-- A struct sees the declarations before it. Its fields are in no scope. -/
def structDecl (globals : Scope) (d : StructDecl) : Scope × Findings :=
  if globals.contains d.name.name then (globals, report d.name.position .redeclared)
  else
    let fields := declareAll (fun _ => [globals]) .empty d.fields
    let symbol := Symbol.structDef (.mk d.name.name fields.scope.values)
    (globals.insert d.name.name symbol, fields.findings ++ bind d.name symbol)

def decl (globals : Scope) : Decl → Scope × Findings
  | .var d =>
    let declared := declareAll (fun scope => [scope]) globals [d]
    (declared.scope, declared.findings)
  | .fn d => fnDecl globals d
  | .struct d => structDecl globals d

def decls (globals : Scope) : List Decl → Scope × Findings
  | [] => (globals, nothing)
  | d :: rest =>
    let one := decl globals d
    let more := decls one.1 rest
    (more.1, one.2 ++ more.2)

/-- The file scope of a program, and all that is found out about the program. -/
def program (p : Program) : Scope × Findings := decls .empty p.decls

end Cinder.Scoping
