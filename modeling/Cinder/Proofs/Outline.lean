import Cinder.Proofs.Nominal
import Cinder.Proofs.Reformatting

/-!
# Names outside struct bodies

The outline of a program is the program without the fields of its structs. What its names mean can
be told from the outline alone: a scope holds the declarations that were accepted, each with its
kind and its identifier, and there is nothing in it that could be asked for a field. Of a dot-access
only the base is looked at. Told are the meanings of all names that are neither in the body of a
struct nor the field of a dot-access, and all reports but those about the bodies of structs and
about fields.
-/
namespace Cinder

def Decl.outline : Decl → Decl
  | struct d => struct ⟨d.name, []⟩
  | d => d

/-- The program without the fields of its structs. -/
def Program.outline (p : Program) : Program := ⟨p.decls.map Decl.outline⟩

/-- A declaration that is accepted: the kind of what it declares, and the identifier that it gives a
meaning. -/
structure Origin where
  kind : Symbol.Kind
  ident : Ident

namespace Outline

/-- The accepted declarations of a block, of a function frame or of the file, the last one first. -/
abbrev Scope := List Origin

/-- The scopes around a place of the program, the innermost first. -/
abbrev Env := List Scope

def declaration? (scope : Scope) (name : Text) : Option Origin := scope.find? (·.ident.name = name)

namespace Env

/-- The declaration of a name in the innermost scope that has one. -/
def find (env : Env) (name : Text) : Option Origin := env.findSome? (declaration? · name)

/-- The declaration of the struct that a name means. -/
def struct (env : Env) (name : Text) : Option Origin :=
  (env.find name).filter (·.kind = .structDef)

end Env

/-- What is told about a part of a program: where its names come from, and what is reported. -/
structure Account where
  meanings : List (Ident × Option Origin) := []
  diagnostics : List Diagnostic := []

namespace Account

def nothing : Account := {}

def bound (id : Ident) (o : Origin) : Account := { meanings := [(id, some o)] }

/-- A name without a meaning. -/
def unbound (id : Ident) (problems : List Problem) : Account :=
  ⟨[(id, none)], problems.map (.error id.position)⟩

def report (position : Position) (problem : Problem) : Account :=
  { diagnostics := [.error position problem] }

instance : Append Account where
  append a c := ⟨a.meanings ++ c.meanings, a.diagnostics ++ c.diagnostics⟩

end Account

open Account (nothing bound unbound report)

/-! ## Uses -/

def use (env : Env) (id : Ident) : Account :=
  match env.find id.name with
  | none => unbound id [.undeclared]
  | some o => bound id o

/-- No field can be selected from the expression, whatever the fields are. -/
def refuses (env : Env) : Exp → Bool
  | .ident id => (env.find id.name).any (·.kind ≠ .structVar)
  | .dot _ _ => false
  | _ => true

mutual

def exp (env : Env) : Exp → Account
  | .int _ _ _ => nothing
  | .string _ _ => nothing
  | .bool _ _ => nothing
  | .ident id => use env id
  | .dot base _ =>
    exp env base ++ if refuses env base then report base.position .notStruct else nothing
  | .assign target value => exp env target ++ exp env value
  | .call callee args => use env callee ++ exps env args
  | .unary _ operand => exp env operand
  | .binary _ left right => exp env left ++ exp env right

def exps (env : Env) : List Exp → Account
  | [] => nothing
  | e :: rest => exp env e ++ exps env rest

end

/-! ## Declarations -/

/-- The kind of symbol that a declaration would give its name, if its type is good. -/
def candidate (env : Env) (d : VarDecl) : Option Symbol.Kind × Account :=
  match d.type with
  | .void => (none, report d.name.position .voidVariable)
  | .struct typeName =>
    match env.struct typeName.name with
    | none => (none, unbound typeName [.unknownStruct])
    | some o => (some .structVar, bound typeName o)
  | _ => (some .plain, nothing)

/-- Adds a name to a scope, unless it is taken or there is nothing that it could mean. -/
def introduce (scope : Scope) (kind? : Option Symbol.Kind) (id : Ident) : Scope × Account :=
  if (declaration? scope id.name).isSome then (scope, unbound id [.redeclared])
  else match kind? with
    | none => (scope, unbound id [])
    | some kind => (⟨kind, id⟩ :: scope, bound id ⟨kind, id⟩)

def declare (env : Env) (scope : Scope) (d : VarDecl) : Scope × Account :=
  let type := candidate env d
  let own := introduce scope type.1 d.name
  (own.1, type.2 ++ own.2)

/-- Declares one after the other, given what is visible beside the declarations so far. -/
def declareAll (visible : Scope → Env) (scope : Scope) : List VarDecl → Scope × Account
  | [] => (scope, nothing)
  | d :: rest =>
    let one := declare (visible scope) scope d
    let more := declareAll visible one.1 rest
    (more.1, one.2 ++ more.2)

mutual

def stmt (env : Env) : Stmt → Account
  | .assign target value => exp env target ++ exp env value
  | .increment target => exp env target
  | .decrement target => exp env target
  | .read target => exp env target
  | .write value => exp env value
  | .ifThen condition body => exp env condition ++ block env body
  | .ifElse condition yes no => exp env condition ++ (block env yes ++ block env no)
  | .whileLoop condition body => exp env condition ++ block env body
  | .repeatLoop count body => exp env count ++ block env body
  | .call callee args => use env callee ++ exps env args
  | .giveBack none _ => nothing
  | .giveBack (some value) _ => exp env value

def block (env : Env) : Block → Account
  | .mk decls body =>
    let declared := declareAll (· :: env) [] decls
    declared.2 ++ stmts (declared.1 :: env) body

def stmts (env : Env) : List Stmt → Account
  | [] => nothing
  | s :: rest => stmt env s ++ stmts env rest

end

/-- A struct name as a result type is never reported. -/
def resultType (globals : Scope) : TypeExp → Account
  | .struct name => { meanings := [(name, Env.struct [globals] name.name)] }
  | _ => nothing

def fnDecl (globals : Scope) (d : FnDecl) : Scope × Account :=
  let own := introduce globals (some .function) d.name
  let formals := declareAll (· :: [globals]) [] d.formals
  let body := declareAll (· :: [own.1]) formals.1 d.body.decls
  (own.1, own.2 ++ (resultType globals d.resultType ++ (formals.2
    ++ (body.2 ++ stmts [body.1, own.1] d.body.stmts))))

/-- The fields are not looked at. -/
def decl (globals : Scope) : Decl → Scope × Account
  | .var d => declare [globals] globals d
  | .fn d => fnDecl globals d
  | .struct d => introduce globals (some .structDef) d.name

def decls (globals : Scope) : List Decl → Scope × Account
  | [] => (globals, nothing)
  | d :: rest =>
    let one := decl globals d
    let more := decls one.1 rest
    (more.1, one.2 ++ more.2)

end Outline

/-- What is told about the names of a program outside the bodies of its structs. -/
def Program.account (p : Program) : Outline.Account := (Outline.decls [] p.decls).2

theorem Program.account_outline (p : Program) : p.outline.account = p.account := by
  have decls : ∀ (globals : Outline.Scope) (ds : List Decl),
      Outline.decls globals (ds.map Decl.outline) = Outline.decls globals ds := by
    intro globals ds
    induction ds generalizing globals with
    | nil => rfl
    | cons d ds ih =>
      have one : Outline.decl globals d.outline = Outline.decl globals d := by cases d <;> rfl
      rw [List.map_cons, Outline.decls, Outline.decls, one, ih]
  rw [account, account, outline, decls]

/-! ## Which names are told of -/

namespace Outline

/-- The account tells of all of the identifiers but the fields. -/
def Covers (ids fields : List Ident) (a : Account) : Prop :=
  ∀ id ∈ ids, id ∉ fields → ∃ origin?, (id, origin?) ∈ a.meanings

namespace Covers

variable {ids more fields others : List Ident} {a c : Account}

theorem nil : Covers [] fields a := by
  intro id mem
  cases mem

theorem append (first : Covers ids fields a) (second : Covers more others c) :
    Covers (ids ++ more) (fields ++ others) (a ++ c) := by
  intro id mem outside
  obtain ⟨here, there⟩ := not_or.mp fun selected => outside (List.mem_append.mpr selected)
  rcases List.mem_append.mp mem with mem | mem
  · obtain ⟨origin?, told⟩ := first id mem here
    exact ⟨origin?, List.mem_append_left _ told⟩
  · obtain ⟨origin?, told⟩ := second id mem there
    exact ⟨origin?, List.mem_append_right _ told⟩

theorem field (id : Ident) : Covers [id] [id] a := fun _ mem outside => absurd mem outside

end Covers

theorem covers_one (id : Ident) (origin? : Option Origin) (ds : List Diagnostic) :
    Covers [id] [] ⟨[(id, origin?)], ds⟩ := by
  intro other mem _
  obtain rfl := List.mem_singleton.mp mem
  exact ⟨origin?, List.mem_cons_self⟩

theorem covers_use (env : Env) (id : Ident) : Covers [id] [] (use env id) := by
  rw [use]
  cases env.find id.name with
  | none => exact covers_one id _ _
  | some o => exact covers_one id _ _

mutual

theorem covers_exp {env : Env} : (e : Exp) → Covers e.idents e.fields (exp env e)
  | .int _ _ _ | .string _ _ | .bool _ _ => .nil
  | .ident id => covers_use env id
  | .dot base field => (covers_exp base).append (.field field)
  | .assign target value => (covers_exp target).append (covers_exp value)
  | .call callee args => (covers_use env callee).append (covers_exps args)
  | .unary _ operand => covers_exp operand
  | .binary _ left right => (covers_exp left).append (covers_exp right)

theorem covers_exps {env : Env} : (es : List Exp) →
    Covers (Exp.identsAll es) (Exp.fieldsAll es) (exps env es)
  | [] => .nil
  | e :: es => (covers_exp e).append (covers_exps es)

end

theorem covers_introduce (scope : Scope) (kind? : Option Symbol.Kind) (id : Ident) :
    Covers [id] [] (introduce scope kind? id).2 := by
  unfold introduce
  split
  · exact covers_one id _ _
  · cases kind? with
    | none => exact covers_one id _ _
    | some kind => exact covers_one id _ _

theorem covers_declare (env : Env) (scope : Scope) (d : VarDecl) :
    Covers d.idents [] (declare env scope d).2 := by
  have type : Covers d.type.idents [] (candidate env d).2 := by
    rw [candidate]
    cases d.type with
    | struct typeName =>
      simp only
      cases env.struct typeName.name with
      | none => exact covers_one typeName _ _
      | some o => exact covers_one typeName _ _
    | _ => exact .nil
  exact type.append (covers_introduce scope _ d.name)

theorem covers_declareAll {visible : Scope → Env} : (scope : Scope) → (ds : List VarDecl) →
    Covers (ds.flatMap VarDecl.idents) [] (declareAll visible scope ds).2
  | _, [] => .nil
  | scope, d :: ds => (covers_declare _ scope d).append (covers_declareAll _ ds)

mutual

theorem covers_stmt {env : Env} : (s : Stmt) →
    Covers s.idents (Exp.fieldsAll s.exps) (stmt env s)
  | .assign target value => by
    rw [Stmt.exps, Exp.fieldsAll, Exp.fieldsAll, List.append_nil]
    exact (covers_exp target).append (covers_exp value)
  | .increment e | .decrement e | .read e | .write e | .giveBack (some e) _ => by
    rw [Stmt.exps, Exp.fieldsAll, Exp.fieldsAll, List.append_nil]
    exact covers_exp e
  | .ifThen condition body | .whileLoop condition body | .repeatLoop condition body =>
    (covers_exp condition).append (covers_block body)
  | .ifElse condition yes no => by
    rw [Stmt.idents, Stmt.exps, List.append_assoc, List.cons_append, Exp.fieldsAll,
      Exp.fieldsAll_append]
    exact (covers_exp condition).append ((covers_block yes).append (covers_block no))
  | .call callee args => by
    rw [Stmt.exps, Exp.fieldsAll, Exp.fieldsAll, List.append_nil]
    exact (covers_use env callee).append (covers_exps args)
  | .giveBack none _ => .nil

theorem covers_block {env : Env} : (b : Block) →
    Covers b.idents (Exp.fieldsAll b.exps) (block env b)
  | .mk decls body => (covers_declareAll [] decls).append (covers_stmts body)

theorem covers_stmts {env : Env} : (ss : List Stmt) →
    Covers (Stmt.identsAll ss) (Exp.fieldsAll (Stmt.expsAll ss)) (stmts env ss)
  | [] => .nil
  | s :: ss => by
    rw [Stmt.expsAll, Exp.fieldsAll_append]
    exact (covers_stmt s).append (covers_stmts ss)

end

theorem covers_fnDecl (globals : Scope) (d : FnDecl) :
    Covers (Decl.fn d).idents (Exp.fieldsAll (Decl.fn d).exps) (fnDecl globals d).2 := by
  obtain ⟨type, name, formals, ⟨decls, body⟩⟩ := d
  have result : Covers type.idents [] (resultType globals type) := by
    cases type with
    | struct name => exact covers_one name _ _
    | _ => exact .nil
  intro id mem
  -- the name of a function is looked at before its result type
  refine ((covers_introduce globals (some .function) name).append (result.append ?_)) id
    ((Scoping.idents_fn_perm _).mem_iff.mp mem)
  exact (covers_declareAll [] formals).append
    ((covers_declareAll _ decls).append (covers_stmts body))

theorem covers_decl (globals : Scope) (d : Decl) :
    Covers d.outline.idents (Exp.fieldsAll d.exps) (decl globals d).2 := by
  cases d with
  | var d => exact covers_declare [globals] globals d
  | fn d => exact covers_fnDecl globals d
  | struct d => exact covers_introduce globals _ d.name

theorem covers_decls : (globals : Scope) → (ds : List Decl) →
    Covers ((ds.map Decl.outline).flatMap Decl.idents) (Exp.fieldsAll (ds.flatMap Decl.exps))
      (decls globals ds).2
  | _, [] => .nil
  | globals, d :: ds => by
    rw [List.flatMap_cons, Exp.fieldsAll_append]
    exact (covers_decl globals d).append (covers_decls _ ds)

end Outline

/-! ## Relabelling -/

section

variable (ρ : Relabelling)

def Origin.relabel (o : Origin) : Origin := ⟨o.kind, o.ident.relabel ρ⟩

namespace Outline

def Scope.relabel (scope : Scope) : Scope := scope.map (Origin.relabel ρ)

def Env.relabel (env : Env) : Env := env.map (Scope.relabel ρ)

def relabelMeaning (meaning : Ident × Option Origin) : Ident × Option Origin :=
  (meaning.1.relabel ρ, meaning.2.map (Origin.relabel ρ))

def Account.relabel (a : Account) : Account :=
  ⟨a.meanings.map (relabelMeaning ρ), a.diagnostics.map (Diagnostic.relabel ρ)⟩

variable {ρ}

@[simp] theorem Account.relabel_append (a c : Account) :
    (a ++ c).relabel ρ = a.relabel ρ ++ c.relabel ρ :=
  congrArg₂ Account.mk List.map_append List.map_append

theorem declaration?_relabel (scope : Scope) (name : Text) :
    declaration? (Scope.relabel ρ scope) (ρ.name name)
      = (declaration? scope name).map (Origin.relabel ρ) := by
  rw [declaration?, Scope.relabel, List.find?_map]
  refine congrArg (Option.map _ <| List.find? · scope) (funext fun o => ?_)
  exact decide_eq_decide.mpr ρ.name_injective.eq_iff

theorem Env.find_relabel (env : Env) (name : Text) :
    Env.find (Env.relabel ρ env) (ρ.name name) = (env.find name).map (Origin.relabel ρ) := by
  induction env with
  | nil => rfl
  | cons scope env ih =>
    have inner := @declaration?_relabel ρ scope name
    change List.findSome? _ (Scope.relabel ρ scope :: Env.relabel ρ env) = _
    rw [List.findSome?_cons, inner, Env.find, List.findSome?_cons]
    cases declaration? scope name with
    | some o => rfl
    | none => exact ih

theorem Env.struct_relabel (env : Env) (name : Text) :
    Env.struct (Env.relabel ρ env) (ρ.name name) = (env.struct name).map (Origin.relabel ρ) := by
  rw [Env.struct, Env.struct, Env.find_relabel]
  cases env.find name with
  | none => rfl
  | some o =>
    simp only [Option.map_some, Option.filter_some, Origin.relabel]
    split <;> rfl

theorem use_relabel (env : Env) (id : Ident) :
    use (Env.relabel ρ env) (id.relabel ρ) = (use env id).relabel ρ := by
  have found := @Env.find_relabel ρ env id.name
  rw [use, use, show (id.relabel ρ).name = ρ.name id.name from rfl, found]
  cases env.find id.name <;> rfl

theorem refuses_relabel (env : Env) (e : Exp) :
    refuses (Env.relabel ρ env) (e.relabel ρ) = refuses env e := by
  cases e with
  | ident id =>
    have found := @Env.find_relabel ρ env id.name
    rw [Exp.relabel, refuses, refuses, show (id.relabel ρ).name = ρ.name id.name from rfl, found]
    cases env.find id.name <;> rfl
  | _ => rfl

mutual

theorem exp_relabel (env : Env) : (e : Exp) →
    exp (Env.relabel ρ env) (e.relabel ρ) = (exp env e).relabel ρ
  | .int _ _ _ | .string _ _ | .bool _ _ => rfl
  | .ident id => use_relabel env id
  | .dot base field => by
    simp only [Exp.relabel, exp, Account.relabel_append, exp_relabel env base, refuses_relabel,
      Exp.position_relabel]
    cases refuses env base <;> rfl
  | .assign target value => by
    simp only [Exp.relabel, exp, Account.relabel_append, exp_relabel env target,
      exp_relabel env value]
  | .call callee args => by
    simp only [Exp.relabel, exp, Account.relabel_append, use_relabel, exps_relabel env args]
  | .unary _ operand => exp_relabel env operand
  | .binary _ left right => by
    simp only [Exp.relabel, exp, Account.relabel_append, exp_relabel env left,
      exp_relabel env right]

theorem exps_relabel (env : Env) : (es : List Exp) →
    exps (Env.relabel ρ env) (Exp.relabelAll ρ es) = (exps env es).relabel ρ
  | [] => rfl
  | e :: es => by
    simp only [Exp.relabelAll, exps, Account.relabel_append, exp_relabel env e, exps_relabel env es]

end

theorem candidate_relabel (env : Env) (d : VarDecl) :
    candidate (Env.relabel ρ env) (d.relabel ρ)
      = ((candidate env d).1, (candidate env d).2.relabel ρ) := by
  obtain ⟨type, name⟩ := d
  cases type with
  | struct typeName =>
    have found := @Env.struct_relabel ρ env typeName.name
    simp only [candidate, VarDecl.relabel, TypeExp.relabel,
      show (typeName.relabel ρ).name = ρ.name typeName.name from rfl, found]
    cases env.struct typeName.name <;> rfl
  | _ => rfl

theorem introduce_relabel (scope : Scope) (kind? : Option Symbol.Kind) (id : Ident) :
    introduce (Scope.relabel ρ scope) kind? (id.relabel ρ)
      = Prod.map (Scope.relabel ρ) (Account.relabel ρ) (introduce scope kind? id) := by
  have found := @declaration?_relabel ρ scope id.name
  simp only [introduce, show (id.relabel ρ).name = ρ.name id.name from rfl, found,
    Option.isSome_map]
  cases (declaration? scope id.name).isSome with
  | true => rfl
  | false => cases kind? <;> rfl

theorem declare_relabel (env : Env) (scope : Scope) (d : VarDecl) :
    declare (Env.relabel ρ env) (Scope.relabel ρ scope) (d.relabel ρ)
      = Prod.map (Scope.relabel ρ) (Account.relabel ρ) (declare env scope d) := by
  simp only [declare, candidate_relabel, show (d.relabel ρ).name = d.name.relabel ρ from rfl,
    introduce_relabel, Prod.map, Account.relabel_append]

theorem declareAll_relabel (env : Env) (scope : Scope) (ds : List VarDecl) :
    declareAll (· :: Env.relabel ρ env) (Scope.relabel ρ scope) (ds.map (VarDecl.relabel ρ))
      = Prod.map (Scope.relabel ρ) (Account.relabel ρ) (declareAll (· :: env) scope ds) := by
  induction ds generalizing scope with
  | nil => rfl
  | cons d ds ih =>
    have head : declare (Scope.relabel ρ scope :: Env.relabel ρ env) _ _ = _ :=
      @declare_relabel ρ (scope :: env) scope d
    simp only [List.map_cons, declareAll, head, Prod.map, ih, Account.relabel_append]

mutual

theorem stmt_relabel (env : Env) : (s : Stmt) →
    stmt (Env.relabel ρ env) (s.relabel ρ) = (stmt env s).relabel ρ
  | .assign target value => exp_relabel env (.assign target value)
  | .increment target | .decrement target | .read target | .write target => exp_relabel env target
  | .ifThen _ body | .whileLoop _ body | .repeatLoop _ body => by
    simp only [Stmt.relabel, stmt, Account.relabel_append, exp_relabel, block_relabel env body]
  | .ifElse _ yes no => by
    simp only [Stmt.relabel, stmt, Account.relabel_append, exp_relabel, block_relabel env yes,
      block_relabel env no]
  | .call callee args => exp_relabel env (.call callee args)
  | .giveBack none _ => rfl
  | .giveBack (some value) _ => exp_relabel env value

theorem block_relabel (env : Env) : (b : Block) →
    block (Env.relabel ρ env) (b.relabel ρ) = (block env b).relabel ρ
  | .mk decls body => by
    have declared := @declareAll_relabel ρ env [] decls
    have inner := stmts_relabel ((declareAll (· :: env) [] decls).1 :: env) body
    simp only [block, Account.relabel_append, ← inner]
    exact congrArg (fun d : Scope × Account => d.2 ++ stmts (d.1 :: Env.relabel ρ env) _) declared

theorem stmts_relabel (env : Env) : (ss : List Stmt) →
    stmts (Env.relabel ρ env) (Stmt.relabelAll ρ ss) = (stmts env ss).relabel ρ
  | [] => rfl
  | s :: ss => by
    simp only [Stmt.relabelAll, stmts, Account.relabel_append, stmt_relabel env s,
      stmts_relabel env ss]

end

theorem resultType_relabel (globals : Scope) (type : TypeExp) :
    resultType (Scope.relabel ρ globals) (type.relabel ρ)
      = (resultType globals type).relabel ρ := by
  cases type with
  | struct name =>
    have found := @Env.struct_relabel ρ [globals] name.name
    rw [show Env.relabel ρ [globals] = [Scope.relabel ρ globals] from rfl] at found
    simp only [TypeExp.relabel, resultType,
      show (name.relabel ρ).name = ρ.name name.name from rfl, found]
    rfl
  | _ => rfl

theorem fnDecl_relabel (globals : Scope) (d : FnDecl) :
    fnDecl (Scope.relabel ρ globals) (d.relabel ρ)
      = Prod.map (Scope.relabel ρ) (Account.relabel ρ) (fnDecl globals d) := by
  obtain ⟨type, name, formals, ⟨decls, body⟩⟩ := d
  have own := @introduce_relabel ρ globals (some .function) name
  have declared : ∀ outer scope (ds : List VarDecl), declareAll (· :: [Scope.relabel ρ outer])
      (Scope.relabel ρ scope) (ds.map (VarDecl.relabel ρ)) = _ :=
    fun outer => @declareAll_relabel ρ [outer]
  have heading := declared globals [] formals
  rw [show Scope.relabel ρ [] = [] from rfl] at heading
  have inner : ∀ outer scope, stmts [Scope.relabel ρ scope, Scope.relabel ρ outer]
      (Stmt.relabelAll ρ body) = _ :=
    fun outer scope => @stmts_relabel ρ [scope, outer] body
  simp only [fnDecl, FnDecl.relabel, Block.relabel, Block.decls, Block.stmts, own, heading,
    declared, inner, resultType_relabel, Prod.map, Account.relabel_append]

theorem decl_relabel (globals : Scope) (d : Decl) :
    decl (Scope.relabel ρ globals) (d.relabel ρ)
      = Prod.map (Scope.relabel ρ) (Account.relabel ρ) (decl globals d) := by
  cases d with
  | var d => exact declare_relabel [globals] globals d
  | fn d => exact fnDecl_relabel globals d
  | struct d => exact introduce_relabel globals (some .structDef) d.name

theorem decls_relabel (globals : Scope) (ds : List Decl) :
    decls (Scope.relabel ρ globals) (ds.map (Decl.relabel ρ))
      = Prod.map (Scope.relabel ρ) (Account.relabel ρ) (decls globals ds) := by
  induction ds generalizing globals with
  | nil => rfl
  | cons d ds ih =>
    simp only [List.map_cons, decls, decl_relabel, Prod.map, ih, Account.relabel_append]

end Outline

theorem Program.account_relabel (p : Program) : (p.relabel ρ).account = p.account.relabel ρ :=
  congrArg Prod.snd (@Outline.decls_relabel ρ [] p.decls)

end

end Cinder
