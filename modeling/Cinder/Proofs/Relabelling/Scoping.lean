import Cinder.Proofs.Relabelling

/-!
# Scoping of relabelled programs

What the names of a program mean depends only on which of them are equal. Numbers and positions are
carried along and never compared, so scoping commutes with every relabelling.
-/
namespace Cinder

theorem Exp.position_relabel (ρ : Relabelling) : (e : Exp) →
    (e.relabel ρ).position = ρ.position e.position
  | .int _ _ _ | .string _ _ | .bool _ _ | .ident _ | .dot _ _ | .call _ _ => rfl
  | .assign target _ => target.position_relabel ρ
  | .unary _ operand => operand.position_relabel ρ
  | .binary _ left _ => left.position_relabel ρ

namespace Scoping

variable (ρ : Relabelling)

def Env.relabel (env : Env) : Env := env.map (Frame.relabel ρ)

def Base.relabel : Base → Base
  | unbound => unbound
  | struct definition => struct (definition.relabel ρ)
  | other => other

namespace Findings

def relabel (f : Findings) : Findings where
  idents := f.idents.map (Prod.map ρ.node (Symbol.relabel ρ))
  dots := f.dots.map (Prod.map ρ.node (StructDef.relabel ρ))
  bad := f.bad.map ρ.node
  diagnostics := f.diagnostics.map (Diagnostic.relabel ρ)

variable {ρ}

@[simp] theorem relabel_append (f g : Findings) :
    (f ++ g).relabel ρ = f.relabel ρ ++ g.relabel ρ := by
  change Findings.mk _ _ _ _ = Findings.mk _ _ _ _
  simp [relabel]

theorem relabel_report (id : Ident) (problem : Problem) :
    (report id.position problem).relabel ρ = report (id.relabel ρ).position problem := rfl

theorem relabel_bind (id : Ident) (s : Symbol) :
    (bind id s).relabel ρ = bind (id.relabel ρ) (s.relabel ρ) := rfl

end Findings

def Declared.relabel (d : Declared) : Declared :=
  ⟨Frame.relabel ρ d.scope, d.symbols.map (Option.map (Symbol.relabel ρ)), d.findings.relabel ρ⟩

variable {ρ}

/-! ## Uses -/

theorem Env.find_relabel (env : Env) (name : Text) :
    (env.relabel ρ).find (ρ.name name) = (env.find name).map (Symbol.relabel ρ) := by
  induction env with
  | nil => rfl
  | cons scope env ih =>
    have inner := @Frame.find?_relabel ρ scope name
    change (Frame.relabel ρ scope :: Env.relabel ρ env).findSome? _ = _
    rw [List.findSome?_cons, inner, Env.find, List.findSome?_cons]
    cases scope.find? name with
    | some s => rfl
    | none => exact ih

theorem Env.struct_relabel (env : Env) (name : Text) :
    (env.relabel ρ).struct (ρ.name name) = (env.struct name).map (StructDef.relabel ρ) := by
  rw [Env.struct, Env.struct, Env.find_relabel]
  rcases env.find name with _ | s
  · rfl
  · cases s <;> rfl

theorem use_relabel (env : Env) (id : Ident) :
    use (env.relabel ρ) (id.relabel ρ) = (use env id).relabel ρ := by
  have found := @Env.find_relabel ρ env id.name
  rw [use, use, show (id.relabel ρ).name = ρ.name id.name from rfl, found]
  cases env.find id.name <;> rfl

theorem Base.ofSymbol?_relabel (symbol? : Option Symbol) :
    Base.ofSymbol? (symbol?.map (Symbol.relabel ρ)) = (Base.ofSymbol? symbol?).relabel ρ := by
  rcases symbol? with _ | s
  · rfl
  · cases s <;> rfl

theorem Base.field?_relabel (base : Base) (name : Text) :
    (base.relabel ρ).field? (ρ.name name) = (base.field? name).map (Symbol.relabel ρ) := by
  cases base with
  | struct definition => exact definition.field?_relabel name
  | _ => rfl

theorem Base.of_relabel (env : Env) : (e : Exp) →
    Base.of (env.relabel ρ) (e.relabel ρ) = (Base.of env e).relabel ρ
  | .ident id => by
    have found := @Env.find_relabel ρ env id.name
    exact (congrArg Base.ofSymbol? found).trans (Base.ofSymbol?_relabel _)
  | .dot inner field => by
    have selected := @Base.field?_relabel ρ (Base.of env inner) field.name
    rw [← Base.of_relabel env inner] at selected
    exact (congrArg Base.ofSymbol? selected).trans (Base.ofSymbol?_relabel _)
  | .int _ _ _ | .string _ _ | .bool _ _ | .assign _ _ | .call _ _ | .unary _ _ | .binary _ _ _ =>
    rfl

theorem select_relabel (base : Base) (position : Position) (field : Ident) :
    select (base.relabel ρ) (ρ.position position) (field.relabel ρ)
      = (select base position field).relabel ρ := by
  cases base with
  | unbound => rfl
  | other => rfl
  | struct definition =>
    have found := @StructDef.field?_relabel ρ definition field.name
    rw [Base.relabel, select, select, show (field.relabel ρ).name = ρ.name field.name from rfl, found]
    rcases definition.field? field.name with _ | s
    · rfl
    · cases s <;> rfl

mutual

theorem exp_relabel (env : Env) : (e : Exp) →
    exp (env.relabel ρ) (e.relabel ρ) = (exp env e).relabel ρ
  | .int _ _ _ | .string _ _ | .bool _ _ => rfl
  | .ident id => use_relabel env id
  | .dot base field => by
    simp only [Exp.relabel, exp, Findings.relabel_append, exp_relabel env base, Base.of_relabel,
      Exp.position_relabel, select_relabel]
  | .assign target value => by
    simp only [Exp.relabel, exp, Findings.relabel_append, exp_relabel env target,
      exp_relabel env value]
  | .call callee args => by
    simp only [Exp.relabel, exp, Findings.relabel_append, use_relabel, exps_relabel env args]
  | .unary _ operand => exp_relabel env operand
  | .binary _ left right => by
    simp only [Exp.relabel, exp, Findings.relabel_append, exp_relabel env left,
      exp_relabel env right]

theorem exps_relabel (env : Env) : (es : List Exp) →
    exps (env.relabel ρ) (Exp.relabelAll ρ es) = (exps env es).relabel ρ
  | [] => rfl
  | e :: es => by
    simp only [Exp.relabelAll, exps, Findings.relabel_append, exp_relabel env e, exps_relabel env es]

end

/-! ## Declarations of variables -/

theorem candidate_relabel (env : Env) (d : VarDecl) :
    candidate (env.relabel ρ) (d.relabel ρ)
      = ((candidate env d).1.map (Symbol.relabel ρ), (candidate env d).2.relabel ρ) := by
  obtain ⟨type, name⟩ := d
  cases type with
  | struct typeName =>
    have found := @Env.struct_relabel ρ env typeName.name
    simp only [candidate, VarDecl.relabel, TypeExp.relabel,
      show (typeName.relabel ρ).name = ρ.name typeName.name from rfl, found]
    cases env.struct typeName.name <;> rfl
  | _ => rfl

theorem declare_relabel (env : Env) (taken : Bool) (d : VarDecl) :
    declare (env.relabel ρ) taken (d.relabel ρ)
      = ((declare env taken d).1.map (Symbol.relabel ρ), (declare env taken d).2.relabel ρ) := by
  simp only [declare, candidate_relabel]
  obtain ⟨symbol?, found⟩ := candidate env d
  cases taken with
  | true => simp [VarDecl.relabel, Findings.relabel_report]
  | false =>
    cases symbol? with
    | none => rfl
    | some s => simp [VarDecl.relabel, Findings.relabel_bind]

theorem declareAll_relabel {visible visible' : Scope → Env}
    (same : ∀ scope, visible' (Frame.relabel ρ scope) = (visible scope).relabel ρ) (scope : Scope)
    (ds : List VarDecl) :
    declareAll visible' (Frame.relabel ρ scope) (ds.map (VarDecl.relabel ρ))
      = (declareAll visible scope ds).relabel ρ := by
  induction ds generalizing scope with
  | nil => rfl
  | cons d ds ih =>
    have head := @declare_relabel ρ (visible scope) (scope.contains d.name.name) d
    have free : (Frame.relabel ρ scope).contains (d.relabel ρ).name.name
        = scope.contains d.name.name := Frame.contains_relabel scope d.name.name
    have grown : ∀ symbol? : Option Symbol,
        (symbol?.map (Symbol.relabel ρ)).elim (Frame.relabel ρ scope)
          ((Frame.relabel ρ scope).insert (d.relabel ρ).name.name)
        = Frame.relabel ρ (symbol?.elim scope (scope.insert d.name.name)) := by
      intro symbol?
      cases symbol? with
      | none => rfl
      | some s => exact Frame.insert_relabel scope d.name.name s
    simp only [List.map_cons, declareAll, same, free, head, grown, ih, Declared.relabel,
      Findings.relabel_append]

theorem declareAll_cons_relabel (env : Env) (scope : Scope) (ds : List VarDecl) :
    declareAll (· :: env.relabel ρ) (Frame.relabel ρ scope) (ds.map (VarDecl.relabel ρ))
      = (declareAll (· :: env) scope ds).relabel ρ :=
  declareAll_relabel (fun _ => rfl) scope ds

/-! ## Statements -/

mutual

theorem stmt_relabel (env : Env) : (s : Stmt) →
    stmt (env.relabel ρ) (s.relabel ρ) = (stmt env s).relabel ρ
  | .assign target value => exp_relabel env (.assign target value)
  | .increment target | .decrement target | .read target | .write target => exp_relabel env target
  | .ifThen _ body | .whileLoop _ body | .repeatLoop _ body => by
    simp only [Stmt.relabel, stmt, Findings.relabel_append, exp_relabel, block_relabel env body]
  | .ifElse _ yes no => by
    simp only [Stmt.relabel, stmt, Findings.relabel_append, exp_relabel, block_relabel env yes,
      block_relabel env no]
  | .call callee args => exp_relabel env (.call callee args)
  | .giveBack none _ => rfl
  | .giveBack (some value) _ => exp_relabel env value

theorem block_relabel (env : Env) : (b : Block) →
    block (env.relabel ρ) (b.relabel ρ) = (block env b).relabel ρ
  | .mk decls body => by
    have declared := @declareAll_cons_relabel ρ env .empty decls
    have inner := stmts_relabel ((declareAll (· :: env) .empty decls).scope :: env) body
    simp only [block, Findings.relabel_append, ← inner]
    exact congrArg (fun d : Declared => d.findings ++ stmts (d.scope :: env.relabel ρ) _) declared

theorem stmts_relabel (env : Env) : (ss : List Stmt) →
    stmts (env.relabel ρ) (Stmt.relabelAll ρ ss) = (stmts env ss).relabel ρ
  | [] => rfl
  | s :: ss => by
    simp only [Stmt.relabelAll, stmts, Findings.relabel_append, stmt_relabel env s,
      stmts_relabel env ss]

end

/-! ## Declarations of the file -/

theorem resultType_relabel (globals : Scope) (type : TypeExp) :
    resultType (Frame.relabel ρ globals) (type.relabel ρ) = (resultType globals type).relabel ρ := by
  cases type with
  | struct name =>
    have found := @Env.struct_relabel ρ [globals] name.name
    simp only [TypeExp.relabel, resultType]
    rw [show Env.struct [Frame.relabel ρ globals] (name.relabel ρ).name = _ from found]
    cases Env.struct [globals] name.name <;> rfl
  | _ => rfl

theorem paramTypes_relabel (symbols : List (Option Symbol)) :
    paramTypes (symbols.map (Option.map (Symbol.relabel ρ)))
      = Ty.renameAll ρ.name (paramTypes symbols) := by
  rw [Ty.renameAll_eq_map, paramTypes, paramTypes, List.map_map, List.map_map]
  refine List.map_congr_left fun symbol? _ => ?_
  cases symbol? with
  | none => rfl
  | some s => exact s.type_relabel

theorem fnDecl_relabel (globals : Scope) (d : FnDecl) :
    fnDecl (Frame.relabel ρ globals) (d.relabel ρ)
      = Prod.map (Frame.relabel ρ) (Findings.relabel ρ) (fnDecl globals d) := by
  obtain ⟨type, name, formals, ⟨decls, body⟩⟩ := d
  have taken := @Frame.contains_relabel ρ globals name.name
  have heading : declareAll (· :: [Frame.relabel ρ globals]) .empty (formals.map (VarDecl.relabel ρ))
      = (declareAll (· :: [globals]) .empty formals).relabel ρ :=
    declareAll_cons_relabel [globals] .empty formals
  have frame : ∀ outer scope, declareAll (· :: [Frame.relabel ρ outer]) (Frame.relabel ρ scope)
      (decls.map (VarDecl.relabel ρ)) = (declareAll (· :: [outer]) scope decls).relabel ρ :=
    fun outer scope => declareAll_cons_relabel [outer] scope decls
  have inner : ∀ outer scope, stmts [Frame.relabel ρ scope, Frame.relabel ρ outer]
      (Stmt.relabelAll ρ body) = (stmts [scope, outer] body).relabel ρ :=
    fun outer scope => stmts_relabel [scope, outer] body
  simp only [fnDecl, FnDecl.relabel, Block.relabel, Block.decls, Block.stmts, heading,
    Declared.relabel, paramTypes_relabel, TypeExp.type_relabel, Ident.relabel, taken]
  cases globals.contains name.name with
  | true =>
    simp [frame, inner, Declared.relabel, resultType_relabel, Findings.relabel_report, Ident.relabel]
  | false =>
    have outer := fun params => @Frame.insert_relabel ρ globals name.name
      (.function name.name type.type params)
    simp only [Symbol.relabel] at outer
    simp [outer, frame, inner, Declared.relabel, resultType_relabel, Findings.relabel_bind,
      Ident.relabel, Symbol.relabel]

theorem structDecl_relabel (globals : Scope) (d : StructDecl) :
    structDecl (Frame.relabel ρ globals) (d.relabel ρ)
      = Prod.map (Frame.relabel ρ) (Findings.relabel ρ) (structDecl globals d) := by
  obtain ⟨name, fields⟩ := d
  have taken := @Frame.contains_relabel ρ globals name.name
  have declared : declareAll (fun _ => [Frame.relabel ρ globals]) .empty
      (fields.map (VarDecl.relabel ρ)) = (declareAll (fun _ => [globals]) .empty fields).relabel ρ :=
    declareAll_relabel (fun _ => rfl) .empty fields
  simp only [structDecl, StructDecl.relabel, declared, Declared.relabel, Frame.values_relabel,
    Ident.relabel, taken]
  cases globals.contains name.name with
  | true => rfl
  | false =>
    have outer := fun fields => @Frame.insert_relabel ρ globals name.name
      (.structDef (.mk name.name fields))
    simp only [Symbol.relabel, StructDef.relabel] at outer
    simp [outer, Findings.relabel_bind, Ident.relabel, Symbol.relabel, StructDef.relabel]

theorem decl_relabel (globals : Scope) (d : Decl) :
    decl (Frame.relabel ρ globals) (d.relabel ρ)
      = Prod.map (Frame.relabel ρ) (Findings.relabel ρ) (decl globals d) := by
  cases d with
  | var d =>
    have declared : declareAll (fun scope => [scope]) (Frame.relabel ρ globals) [d.relabel ρ]
        = (declareAll (fun scope => [scope]) globals [d]).relabel ρ :=
      declareAll_relabel (fun _ => rfl) globals [d]
    simp only [Decl.relabel, decl, declared]
    rfl
  | fn d => exact fnDecl_relabel globals d
  | struct d => exact structDecl_relabel globals d

theorem decls_relabel (globals : Scope) (ds : List Decl) :
    decls (Frame.relabel ρ globals) (ds.map (Decl.relabel ρ))
      = Prod.map (Frame.relabel ρ) (Findings.relabel ρ) (decls globals ds) := by
  induction ds generalizing globals with
  | nil => rfl
  | cons d ds ih => simp [decls, decl_relabel, ih]

/-- Scoping commutes with relabelling. -/
theorem program_relabel (p : Program) :
    program (p.relabel ρ) = Prod.map (Frame.relabel ρ) (Findings.relabel ρ) (program p) :=
  decls_relabel .empty p.decls

end Scoping

end Cinder
