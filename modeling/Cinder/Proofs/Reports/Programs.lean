import Cinder.Proofs.Reports
import Cinder.Proofs.Rules.Declarations

/-!
# Reports about programs

Every expression of a program is looked at somewhere, and so is every variable, but for the fields of a
struct whose name is taken. So what holds of the findings about expressions and variables holds of the
findings about the program.
-/
namespace Cinder

/-! ## The variables of a program -/

mutual

/-- The variables that are declared in the blocks of a statement. -/
def Stmt.vars : Stmt → List VarDecl
  | .ifThen _ body => body.vars
  | .ifElse _ yes no => yes.vars ++ no.vars
  | .whileLoop _ body => body.vars
  | .repeatLoop _ body => body.vars
  | _ => []

def Block.vars : Block → List VarDecl
  | .mk decls stmts => decls ++ Stmt.varsAll stmts

def Stmt.varsAll : List Stmt → List VarDecl
  | [] => []
  | s :: rest => s.vars ++ Stmt.varsAll rest

end

/-- The variables, formals and fields of a declaration. -/
def Decl.vars : Decl → List VarDecl
  | .var d => [d]
  | .fn d => d.formals ++ d.body.vars
  | .struct d => d.fields

def Program.vars (p : Program) : List VarDecl := p.decls.flatMap Decl.vars

mutual

/-- An identifier of a statement belongs to a variable or to an expression. -/
theorem Stmt.mem_idents_cases {id : Ident} : (s : Stmt) → id ∈ s.idents →
    (∃ d ∈ s.vars, id ∈ d.idents) ∨ ∃ e ∈ s.exps, id ∈ e.idents
  | .assign target value, mem => .inr ⟨_, List.mem_cons_self, mem⟩
  | .increment target, mem => .inr ⟨_, List.mem_cons_self, mem⟩
  | .decrement target, mem => .inr ⟨_, List.mem_cons_self, mem⟩
  | .read target, mem => .inr ⟨_, List.mem_cons_self, mem⟩
  | .write value, mem => .inr ⟨_, List.mem_cons_self, mem⟩
  | .ifThen condition body, mem | .whileLoop condition body, mem
  | .repeatLoop condition body, mem => by
    rcases List.mem_append.mp mem with mem | mem
    · exact .inr ⟨condition, List.mem_cons_self, mem⟩
    · refine (Block.mem_idents_cases body mem).imp_right ?_
      rintro ⟨e, here, inside⟩
      exact ⟨e, List.mem_cons_of_mem _ here, inside⟩
  | .ifElse condition yes no, mem => by
    simp only [Stmt.vars, Stmt.exps, List.mem_append, List.mem_cons]
    rcases List.mem_append.mp mem with mem | mem
    · rcases List.mem_append.mp mem with mem | mem
      · exact .inr ⟨condition, .inl (.inl rfl), mem⟩
      · rcases Block.mem_idents_cases yes mem with ⟨d, here, inside⟩ | ⟨e, here, inside⟩
        · exact .inl ⟨d, .inl here, inside⟩
        · exact .inr ⟨e, .inl (.inr here), inside⟩
    · rcases Block.mem_idents_cases no mem with ⟨d, here, inside⟩ | ⟨e, here, inside⟩
      · exact .inl ⟨d, .inr here, inside⟩
      · exact .inr ⟨e, .inr here, inside⟩
  | .call callee args, mem => .inr ⟨_, List.mem_cons_self, mem⟩
  | .giveBack (some value) _, mem => .inr ⟨_, List.mem_cons_self, mem⟩

theorem Block.mem_idents_cases {id : Ident} : (b : Block) → id ∈ b.idents →
    (∃ d ∈ b.vars, id ∈ d.idents) ∨ ∃ e ∈ b.exps, id ∈ e.idents
  | .mk decls stmts, mem => by
    simp only [Block.vars, List.mem_append]
    rcases List.mem_append.mp mem with mem | mem
    · obtain ⟨d, here, inside⟩ := List.mem_flatMap.mp mem
      exact .inl ⟨d, .inl here, inside⟩
    · refine (Stmt.mem_identsAll_cases stmts mem).imp_left ?_
      rintro ⟨d, here, inside⟩
      exact ⟨d, .inr here, inside⟩

theorem Stmt.mem_identsAll_cases {id : Ident} : (ss : List Stmt) → id ∈ Stmt.identsAll ss →
    (∃ d ∈ Stmt.varsAll ss, id ∈ d.idents) ∨ ∃ e ∈ Stmt.expsAll ss, id ∈ e.idents
  | s :: ss, mem => by
    simp only [Stmt.varsAll, Stmt.expsAll, List.mem_append]
    rcases List.mem_append.mp mem with mem | mem
    · rcases Stmt.mem_idents_cases s mem with ⟨d, here, inside⟩ | ⟨e, here, inside⟩
      · exact .inl ⟨d, .inl here, inside⟩
      · exact .inr ⟨e, .inl here, inside⟩
    · rcases Stmt.mem_identsAll_cases ss mem with ⟨d, here, inside⟩ | ⟨e, here, inside⟩
      · exact .inl ⟨d, .inr here, inside⟩
      · exact .inr ⟨e, .inr here, inside⟩

end

namespace Scoping

open Findings (nothing)

/-! ## Variables -/

/-- A declaration with a good type. -/
theorem grounded_accepted {env : Env} (typed : TypedEnv env) {d : VarDecl} {s : Symbol}
    (accepted : (candidate env d).1 = some s) :
    s.Typed ∧ Grounded d.type.idents (candidate env d).2 := by
  obtain ⟨type, name⟩ := d
  cases type with
  | void => cases accepted
  | struct typeName =>
    simp only [candidate] at accepted ⊢
    cases found : env.struct typeName.name with
    | none =>
      rw [found] at accepted
      cases accepted
    | some definition =>
      rw [found] at accepted
      cases accepted
      have sound := typed.find (Rules.struct_eq_some.mp found)
      refine ⟨?_, .binds sound rfl rfl⟩
      cases sound with
      | structDef inner => exact .structVar inner
  | int | bool =>
    cases accepted
    exact ⟨.plain (by simp [TypeExp.type]), .silent rfl rfl⟩

/-- A declaration with a bad type is reported, at its name or at the name of its type. -/
theorem exists_report_of_rejected {env : Env} {d : VarDecl} (rejected : (candidate env d).1 = none) :
    ∃ id ∈ d.idents, ∃ problem : Problem, problem.message ≠ Problem.notStruct.message ∧
      (candidate env d).2 = .report id.position problem := by
  obtain ⟨type, name⟩ := d
  cases type with
  | void => exact ⟨name, by simp [VarDecl.idents], .voidVariable, by decide, rfl⟩
  | struct typeName =>
    simp only [candidate] at rejected ⊢
    cases found : env.struct typeName.name with
    | none =>
      exact ⟨typeName, by simp [VarDecl.idents, TypeExp.idents], .unknownStruct, by decide, rfl⟩
    | some definition =>
      rw [found] at rejected
      cases rejected
  | int | bool => cases rejected

theorem grounded_declare {env : Env} (typed : TypedEnv env) (taken : Bool) {d : VarDecl}
    (proper : Proper d.idents) : Grounded d.idents (declare env taken d).2 ∧
      ∀ s, (declare env taken d).1 = some s → s.Typed := by
  obtain ⟨-, -, apart⟩ := proper.append
  have named : d.name ∈ d.idents := by simp [VarDecl.idents]
  have other : Problem.redeclared.message ≠ Problem.notStruct.message := by decide
  have unbound : ∀ s : Symbol, none = some s → s.Typed := by
    intro s absurd
    cases absurd
  cases chosen : (candidate env d).1 with
  | none =>
    obtain ⟨id, mem, problem, differs, found⟩ := exists_report_of_rejected chosen
    have inner : Grounded d.idents (candidate env d).2 := by
      rw [found]
      exact (grounded_report id differs).widen (by simpa using mem)
    cases taken with
    | true =>
      have absent : d.name.node ∉ (candidate env d).2.bound := by
        simp [found, Findings.bound, Findings.report]
      rw [declare_taken]
      exact ⟨inner.report named (iff_of_false absent other) rfl rfl, unbound⟩
    | false =>
      rw [declare_rejected chosen]
      exact ⟨inner, unbound⟩
  | some s =>
    obtain ⟨sound, inner⟩ := grounded_accepted typed chosen
    cases taken with
    | true =>
      have absent : d.name.node ∉ (candidate env d).2.bound := fun known =>
        apart (inner.within _ known) List.mem_cons_self
      have wide : Grounded d.idents (candidate env d).2 :=
        inner.widen fun _ => List.mem_append_left _
      rw [declare_taken]
      exact ⟨wide.report named (iff_of_false absent other) rfl rfl, unbound⟩
    | false =>
      rw [declare_accepted chosen]
      refine ⟨inner.append (.binds sound rfl rfl) apart, ?_⟩
      rintro _ ⟨⟩
      exact sound

/-- The name of a variable and the name of its type are bound or reported, or the variable is not bound
because its type is reported. -/
theorem reported_declare {env : Env} {taken : Bool} {d : VarDecl} {id : Ident}
    (mem : id ∈ d.idents) :
    id.node ∈ (declare env taken d).2.bound ∨ id.Reported (declare env taken d).2.diagnostics ∨
      id = d.name ∧ ∃ typeName, d.type = .struct typeName ∧
        typeName.Reported (declare env taken d).2.diagnostics := by
  have redeclared : d.name.Reported (declare env true d).2.diagnostics :=
    ⟨.error d.name.position .redeclared, by simp [declare_taken, Findings.report], rfl⟩
  have typed : (declare env taken d).2.Includes (candidate env d).2 := by
    cases taken with
    | true => exact (Findings.Includes.refl _).left _
    | false =>
      cases chosen : (candidate env d).1 with
      | none => exact declare_rejected chosen ▸ .refl _
      | some s => exact declare_accepted chosen ▸ (Findings.Includes.refl _).left _
  have named : (candidate env d).1.isSome → d.name.node ∈ (declare env taken d).2.bound ∨
      d.name.Reported (declare env taken d).2.diagnostics := by
    intro good
    obtain ⟨s, chosen⟩ := Option.isSome_iff_exists.mp good
    cases taken with
    | true => exact .inr redeclared
    | false =>
      rw [declare_accepted chosen]
      exact .inl (by simp [Findings.bound, Findings.bind])
  obtain ⟨type, name⟩ := d
  cases type with
  | int | bool =>
    obtain rfl := List.mem_singleton.mp mem
    exact (named rfl).imp_right .inl
  | void =>
    obtain rfl := List.mem_singleton.mp mem
    refine .inr (.inl (Ident.Reported.mono ?_ typed.diagnostics))
    exact ⟨.error id.position .voidVariable, List.mem_cons_self, rfl⟩
  | struct typeName =>
    simp only [candidate] at typed named
    cases found : env.struct typeName.name with
    | none =>
      rw [found] at typed
      have here : typeName.Reported (declare env taken ⟨.struct typeName, name⟩).2.diagnostics :=
        Ident.Reported.mono ⟨.error typeName.position .unknownStruct, List.mem_cons_self, rfl⟩
          typed.diagnostics
      rcases List.mem_cons.mp mem with rfl | mem
      · exact .inr (.inl here)
      · exact .inr (.inr ⟨List.mem_singleton.mp mem, typeName, rfl, here⟩)
    | some definition =>
      rw [found] at typed named
      rcases List.mem_cons.mp mem with rfl | mem
      · exact .inl (typed.bound List.mem_cons_self)
      · obtain rfl := List.mem_singleton.mp mem
        exact (named rfl).imp_right .inl

/-! ## Statements -/

namespace Findings

/-- A variable was looked at somewhere. -/
def CoversVar (f : Findings) (d : VarDecl) : Prop := ∃ env taken, f.Includes (declare env taken d).2

/-- A well-shaped expression was looked at somewhere. -/
def CoversExp (f : Findings) (e : Exp) : Prop := e.WellShaped ∧ ∃ env, f.Includes (exp env e)

theorem CoversVar.mono {f g : Findings} {d : VarDecl} (h : f.CoversVar d) (more : g.Includes f) :
    g.CoversVar d := by
  obtain ⟨env, taken, inside⟩ := h
  exact ⟨env, taken, more.trans inside⟩

theorem CoversExp.mono {f g : Findings} {e : Exp} (h : f.CoversExp e) (more : g.Includes f) :
    g.CoversExp e := by
  obtain ⟨shaped, env, inside⟩ := h
  exact ⟨shaped, env, more.trans inside⟩

theorem CoversExp.part {f : Findings} {e q : Exp} (h : f.CoversExp e) (mem : q ∈ e.parts) :
    f.CoversExp q := by
  refine Exp.holds_of_part (fun e covered c child => ?_) e h mem
  obtain ⟨shaped, env, inside⟩ := covered
  exact ⟨Exp.wellShaped_child shaped child, env, inside.trans (includes_child child)⟩

end Findings

/-- Findings about these identifiers, for which all of these variables and expressions were looked
at. -/
structure Settles (ids : List Ident) (vars : List VarDecl) (es : List Exp) (f : Findings) :
    Prop extends Grounded ids f where
  vars : ∀ d ∈ vars, f.CoversVar d
  exps : ∀ e ∈ es, f.CoversExp e

namespace Settles

variable {ids more : List Ident} {vars others : List VarDecl} {es fs : List Exp} {f g : Findings}

theorem append (first : Settles ids vars es f) (second : Settles more others fs g)
    (apart : (nodes ids).Disjoint (nodes more)) :
    Settles (ids ++ more) (vars ++ others) (es ++ fs) (f ++ g) where
  toGrounded := first.toGrounded.append second.toGrounded apart
  vars d mem := by
    rcases List.mem_append.mp mem with old | new
    · exact (first.vars d old).mono ((Findings.Includes.refl f).left g)
    · exact (second.vars d new).mono ((Findings.Includes.refl g).right f)
  exps e mem := by
    rcases List.mem_append.mp mem with old | new
    · exact (first.exps e old).mono ((Findings.Includes.refl f).left g)
    · exact (second.exps e new).mono ((Findings.Includes.refl g).right f)

theorem widen (h : Settles ids vars es f) (sub : ∀ id ∈ ids, id ∈ more) :
    Settles more vars es f :=
  ⟨h.toGrounded.widen sub, h.vars, h.exps⟩

/-- Where no variable is declared and no expression stands. -/
theorem plain (h : Grounded ids f) : Settles ids [] [] f where
  toGrounded := h
  vars _ mem := nomatch mem
  exps _ mem := nomatch mem

end Settles

theorem settles_exp {env : Env} (typed : TypedEnv env) (e : Exp) (proper : Proper e.idents)
    (shaped : e.WellShaped) : Settles e.idents [] [e] (exp env e) where
  toGrounded := grounded_exp typed e proper.distinct shaped
  vars _ mem := nomatch mem
  exps other mem := by
    obtain rfl := List.mem_singleton.mp mem
    exact ⟨shaped, env, .refl _⟩

theorem settles_declareAll {visible : Scope → Env}
    (typed : ∀ scope, TypedScope scope → TypedEnv (visible scope)) : (scope : Scope) →
    TypedScope scope → (ds : List VarDecl) → Proper (ds.flatMap VarDecl.idents) →
    Settles (ds.flatMap VarDecl.idents) ds [] (declareAll visible scope ds).findings ∧
      TypedScope (declareAll visible scope ds).scope
  | _, sound, [], _ => ⟨.plain (.silent rfl rfl), sound⟩
  | scope, sound, d :: ds, proper => by
    obtain ⟨first, rest, apart⟩ := proper.append
    obtain ⟨grounded, symbol⟩ :=
      grounded_declare (typed scope sound) (scope.contains d.name.name) first
    have sound' : TypedScope ((declare (visible scope) (scope.contains d.name.name) d).1.elim scope
        (scope.insert d.name.name)) := by
      cases accepted : (declare (visible scope) (scope.contains d.name.name) d).1 with
      | none => exact sound
      | some s => exact sound.insert (symbol s accepted) _
    have one : Settles d.idents [d] []
        (declare (visible scope) (scope.contains d.name.name) d).2 := by
      refine ⟨grounded, fun other mem => ?_, fun _ mem => nomatch mem⟩
      obtain rfl := List.mem_singleton.mp mem
      exact ⟨_, _, .refl _⟩
    obtain ⟨more, last⟩ := settles_declareAll typed _ sound' ds rest
    exact ⟨one.append more apart, last⟩

/-- Declarations and the statements that see them. -/
theorem settles_frame {scope : Scope} {env : Env} {decls : List VarDecl} {body : List Stmt}
    (sound : TypedScope scope) (typed : TypedEnv env) (proper : Proper (decls.flatMap VarDecl.idents))
    (apart : (nodes (decls.flatMap VarDecl.idents)).Disjoint (nodes (Stmt.identsAll body)))
    (inner : ∀ env, TypedEnv env → Settles (Stmt.identsAll body) (Stmt.varsAll body)
      (Stmt.expsAll body) (stmts env body)) :
    let all := declareAll (· :: env) scope decls
    Settles (decls.flatMap VarDecl.idents ++ Stmt.identsAll body) (decls ++ Stmt.varsAll body)
      (Stmt.expsAll body) (all.findings ++ stmts (all.scope :: env) body) := by
  obtain ⟨declared, last⟩ := settles_declareAll (fun _ here => .cons here typed) scope sound decls
    proper
  exact declared.append (inner _ (.cons last typed)) apart

mutual

theorem settles_stmt {env : Env} (typed : TypedEnv env) : (s : Stmt) → Proper s.idents →
    s.WellShaped → Settles s.idents s.vars s.exps (stmt env s)
  | .assign target value, proper, shaped => settles_exp typed (.assign target value) proper shaped
  | .increment target, proper, shaped => settles_exp typed target proper shaped.2
  | .decrement target, proper, shaped => settles_exp typed target proper shaped.2
  | .read target, proper, shaped => settles_exp typed target proper shaped.2
  | .write value, proper, shaped => settles_exp typed value proper shaped
  | .ifThen condition body, proper, ⟨shaped, shaped'⟩ => by
    obtain ⟨first, second, apart⟩ := proper.append
    exact (settles_exp typed condition first shaped).append
      (settles_block typed body second shaped') apart
  | .ifElse condition yes no, proper, ⟨shaped, shaped', shaped''⟩ => by
    rw [Stmt.idents, List.append_assoc] at proper ⊢
    obtain ⟨first, branches, apart⟩ := proper.append
    obtain ⟨second, third, between⟩ := branches.append
    exact (settles_exp typed condition first shaped).append
      ((settles_block typed yes second shaped').append
        (settles_block typed no third shaped'') between) apart
  | .whileLoop condition body, proper, ⟨shaped, shaped'⟩ => by
    obtain ⟨first, second, apart⟩ := proper.append
    exact (settles_exp typed condition first shaped).append
      (settles_block typed body second shaped') apart
  | .repeatLoop count body, proper, ⟨shaped, shaped'⟩ => by
    obtain ⟨first, second, apart⟩ := proper.append
    exact (settles_exp typed count first shaped).append
      (settles_block typed body second shaped') apart
  | .call callee args, proper, shaped => settles_exp typed (.call callee args) proper shaped
  | .giveBack none _, _, _ => .plain (.silent rfl rfl)
  | .giveBack (some value) _, proper, shaped => settles_exp typed value proper shaped

theorem settles_block {env : Env} (typed : TypedEnv env) : (b : Block) → Proper b.idents →
    b.WellShaped → Settles b.idents b.vars b.exps (block env b)
  | .mk _ body, proper, ⟨_, shaped⟩ => by
    obtain ⟨first, second, apart⟩ := proper.append
    exact settles_frame typedScope_empty typed first apart
      fun _ typed => settles_stmts typed body second shaped

theorem settles_stmts {env : Env} (typed : TypedEnv env) : (ss : List Stmt) →
    Proper (Stmt.identsAll ss) → Stmt.AllWellShaped ss →
    Settles (Stmt.identsAll ss) (Stmt.varsAll ss) (Stmt.expsAll ss) (stmts env ss)
  | [], _, _ => .plain (.silent rfl rfl)
  | s :: ss, proper, ⟨shaped, others⟩ => by
    obtain ⟨first, second, apart⟩ := proper.append
    exact (settles_stmt typed s first shaped).append (settles_stmts typed ss second others) apart

end

/-! ## Declarations of the file -/

theorem grounded_resultType {globals : Scope} (sound : TypedScope globals) (type : TypeExp) :
    Grounded type.idents (resultType globals type) := by
  cases type with
  | struct name =>
    simp only [resultType]
    cases found : Env.struct [globals] name.name with
    | none => exact .silent rfl rfl
    | some definition => exact .binds (sound.env.find (Rules.struct_eq_some.mp found)) rfl rfl
  | _ => exact .silent rfl rfl

theorem settles_fnBody {scope outer : Scope} (sound : TypedScope scope) (sound' : TypedScope outer)
    {b : Block} (proper : Proper b.idents) (shaped : b.WellShaped) :
    let all := declareAll (· :: [outer]) scope b.decls
    Settles b.idents b.vars b.exps (all.findings ++ stmts [all.scope, outer] b.stmts) := by
  obtain ⟨decls, body⟩ := b
  obtain ⟨first, second, apart⟩ := proper.append
  exact settles_frame sound sound'.env first apart
    fun _ typed => settles_stmts typed body second shaped.2

/-- Findings that leave a name bound or reported. -/
def Findings.Names (f : Findings) (id : Ident) : Prop :=
  id.node ∈ f.bound ∨ id.Reported f.diagnostics

theorem Findings.Names.mono {f g : Findings} {id : Ident} (h : f.Names id) (more : g.Includes f) :
    g.Names id :=
  h.imp (more.bound ·) (·.mono more.diagnostics)

theorem names_use (env : Env) (id : Ident) : (use env id).Names id := by
  rw [use]
  cases env.find id.name with
  | none => exact .inr ⟨.error id.position .undeclared, List.mem_cons_self, rfl⟩
  | some s => exact .inl List.mem_cons_self

/-- An identifier that stands alone is bound or reported. -/
theorem Findings.CoversExp.names {f : Findings} {id : Ident} (h : f.CoversExp (.ident id)) :
    f.Names id := by
  obtain ⟨-, env, inside⟩ := h
  exact (names_use env id).mono inside

/-- A field is bound or reported, or something before it in its chain is reported. -/
theorem Findings.CoversExp.field {f : Findings} {base : Exp} {id : Ident}
    (h : f.CoversExp (.dot base id)) :
    f.Names id ∨ ∃ other ∈ base.idents, other.Reported f.diagnostics := by
  obtain ⟨shaped, env, inside⟩ := h
  rcases @reported_dot env base id shaped with bound | reported | ⟨other, before, reported⟩
  · exact .inl (.inl (inside.bound bound))
  · exact .inl (.inr (reported.mono inside.diagnostics))
  · exact .inr ⟨other, before, reported.mono inside.diagnostics⟩

/-- A name of the file that is reported if it is taken. -/
theorem settles_name (taken : Bool) (id : Ident) {s : Symbol} (sound : s.Typed) :
    let own := if taken then Findings.report id.position .redeclared else .bind id s
    Settles [id] [] [] own ∧ own.Names id := by
  cases taken with
  | true =>
    exact ⟨.plain (grounded_report id (by decide)),
      .inr ⟨.error id.position .redeclared, List.mem_cons_self, rfl⟩⟩
  | false => exact ⟨.plain (.binds sound rfl rfl), .inl List.mem_cons_self⟩

/-- The name of a function is bound or reported. Its formals, the variables of its body and the
expressions in it are looked at in any case. -/
theorem settles_fnDecl {globals : Scope} (sound : TypedScope globals) {d : FnDecl}
    (proper : Proper (Decl.fn d).idents) (shaped : d.WellShaped) :
    Settles (Decl.fn d).idents (d.formals ++ d.body.vars) d.body.exps (fnDecl globals d).2 ∧
      TypedScope (fnDecl globals d).1 ∧ (fnDecl globals d).2.Names d.name := by
  have order := idents_fn_perm d
  obtain ⟨-, rest, beside_name⟩ := (proper.perm order).append
  obtain ⟨-, inner, beside_result⟩ := rest.append
  obtain ⟨formals, body, beside_formals⟩ := inner.append
  obtain ⟨declared, sound'⟩ := settles_declareAll (fun _ here => .cons here sound.env) .empty
    typedScope_empty d.formals formals
  have symbol : (Symbol.function d.name.name d.resultType.type
      (paramTypes (declareAll (· :: [globals]) .empty d.formals).symbols)).Typed :=
    .function d.resultType.isError_type
  obtain ⟨own, named⟩ := settles_name (globals.contains d.name.name) d.name symbol
  have outer : TypedScope (fnDecl globals d).1 := by
    rw [fnDecl]
    dsimp only
    split
    · exact sound
    · exact sound.insert symbol _
  have whole := own.append ((Settles.plain (grounded_resultType sound d.resultType)).append
    (declared.append (settles_fnBody sound' outer body shaped.body) beside_formals)
    beside_result) beside_name
  exact ⟨whole.widen fun id mem => order.mem_iff.mpr mem, outer,
    named.mono ((Findings.Includes.refl _).left _)⟩

/-- The name of a struct is bound or reported. Unless it is reported, its fields are looked at. -/
theorem settles_structDecl {globals : Scope} (sound : TypedScope globals) {d : StructDecl}
    (proper : Proper (Decl.struct d).idents) :
    Grounded (Decl.struct d).idents (structDecl globals d).2 ∧
      TypedScope (structDecl globals d).1 ∧ (structDecl globals d).2.Names d.name ∧
      (.error d.name.position .redeclared ∈ (structDecl globals d).2.diagnostics ∨
        ∀ field ∈ d.fields, (structDecl globals d).2.CoversVar field) := by
  obtain ⟨-, fields, apart⟩ := @Proper.append [d.name] (d.fields.flatMap VarDecl.idents) proper
  obtain ⟨declared, sound'⟩ := settles_declareAll (fun _ _ => sound.env) .empty typedScope_empty
    d.fields fields
  have symbol : (Symbol.structDef (.mk d.name.name
      (declareAll (fun _ => [globals]) .empty d.fields).scope.values)).Typed := by
    refine .structDef fun s mem => ?_
    obtain ⟨entry, inside, rfl⟩ := List.mem_map.mp mem
    exact sound' entry inside
  rw [structDecl]
  split
  · -- The fields of a struct whose name is taken are not looked at.
    refine ⟨?_, sound, ?_, .inl List.mem_cons_self⟩
    · exact (grounded_report d.name (by decide)).widen (by simp [Decl.idents])
    · exact .inr ⟨.error d.name.position .redeclared, List.mem_cons_self, rfl⟩
  · refine ⟨?_, sound.insert symbol _, ?_, .inr fun field mem => ?_⟩
    · refine (declared.toGrounded.append (.binds symbol rfl rfl) apart.symm).widen fun id mem => ?_
      simpa [Decl.idents, or_comm] using mem
    · exact .inl (by simp [Findings.bound, Findings.bind])
    · exact (declared.vars field mem).mono ((Findings.Includes.refl _).left _)

end Scoping

open Scoping

/-- Findings that account for a declaration of the file: its name is bound or reported, and all in it
was looked at, unless it is a struct whose name is taken. -/
def Decl.Explained (f : Findings) : Decl → Prop
  | .var d => f.CoversVar d
  | .fn d => f.Names d.name ∧ (∀ v ∈ d.formals ++ d.body.vars, f.CoversVar v) ∧
      ∀ e ∈ d.body.exps, f.CoversExp e
  | .struct d => f.Names d.name ∧ (.error d.name.position .redeclared ∈ f.diagnostics ∨
      ∀ v ∈ d.fields, f.CoversVar v)

theorem Decl.Explained.mono {f g : Findings} : {d : Decl} → d.Explained f → g.Includes f →
    d.Explained g
  | .var _, covered, more => Findings.CoversVar.mono covered more
  | .fn _, ⟨named, vars, exps⟩, more =>
    ⟨named.mono more, fun v mem => (vars v mem).mono more, fun e mem => (exps e mem).mono more⟩
  | .struct _, ⟨named, fields⟩, more =>
    ⟨named.mono more, fields.imp (more.diagnostics ·) fun all v mem => (all v mem).mono more⟩

namespace Scoping

theorem explained_decl {globals : Scope} (sound : TypedScope globals) : (d : Decl) →
    Proper d.idents → d.WellShaped → Grounded d.idents (decl globals d).2 ∧
      TypedScope (decl globals d).1 ∧ d.Explained (decl globals d).2
  | .var d, proper, _ => by
    have proper' : Proper ([d].flatMap VarDecl.idents) := by simpa [Decl.idents] using proper
    obtain ⟨declared, sound'⟩ := settles_declareAll (fun _ here => TypedScope.env here) globals sound
      [d] proper'
    exact ⟨declared.toGrounded.widen (by simp [Decl.idents]), sound',
      declared.vars d List.mem_cons_self⟩
  | .fn d, proper, shaped => by
    obtain ⟨settles, sound', named⟩ := settles_fnDecl sound proper shaped
    exact ⟨settles.toGrounded, sound', named, settles.vars, settles.exps⟩
  | .struct d, proper, _ => by
    obtain ⟨grounded, sound', named, fields⟩ := settles_structDecl sound proper
    exact ⟨grounded, sound', named, fields⟩

theorem explained_decls : {globals : Scope} → TypedScope globals → (ds : List Decl) →
    Proper (ds.flatMap Decl.idents) → (∀ d ∈ ds, d.WellShaped) →
    Grounded (ds.flatMap Decl.idents) (decls globals ds).2 ∧
      ∀ d ∈ ds, d.Explained (decls globals ds).2
  | _, _, [], _, _ => ⟨.silent rfl rfl, fun _ mem => nomatch mem⟩
  | globals, sound, d :: ds, proper, shaped => by
    obtain ⟨first, rest, apart⟩ := proper.append
    obtain ⟨grounded, sound', here⟩ := explained_decl sound d first (shaped d List.mem_cons_self)
    obtain ⟨others, later⟩ := explained_decls sound' ds rest
      fun d mem => shaped d (List.mem_cons_of_mem _ mem)
    refine ⟨grounded.append others apart, fun other mem => ?_⟩
    rcases List.mem_cons.mp mem with rfl | mem
    · exact here.mono ((Findings.Includes.refl _).left _)
    · exact (later other mem).mono ((Findings.Includes.refl _).right _)

end Scoping

/-! ## Identifiers that are not bound -/

/-- The expressions inside the functions of a program. -/
def Program.parts (p : Program) : List Exp := Exp.partsAll (p.decls.flatMap Decl.exps)

/-- Why an identifier of a program may be left unbound. -/
inductive Program.Excused (p : Program) (ds : List Diagnostic) (id : Ident) : Prop where
  | reported (here : id.Reported ds)
  /-- The name of a variable, formal or field whose struct type is reported. -/
  | typed {d : VarDecl} {typeName : Ident} (declared : d ∈ p.vars) (named : d.name = id)
      (type : d.type = .struct typeName) (there : typeName.Reported ds)
  /-- Inside a struct whose name is taken. -/
  | inStruct {d : StructDecl} (declared : .struct d ∈ p.decls)
      (taken : .error d.name.position .redeclared ∈ ds)
      (inside : id ∈ d.fields.flatMap VarDecl.idents)
  /-- A field after something reported in the same chain of dot-accesses. -/
  | selected {base : Exp} (part : .dot base id ∈ p.parts)
      (earlier : ∃ other ∈ base.idents, other.Reported ds)
  /-- The struct name of a result type. -/
  | resultType {d : FnDecl} (declared : .fn d ∈ p.decls) (type : d.resultType = .struct id)

namespace Program

variable {p : Program} {f : Findings} {id : Ident}

theorem excused_of_var {d : VarDecl} (declared : d ∈ p.vars) (covered : f.CoversVar d)
    (mem : id ∈ d.idents) (unbound : id.node ∉ f.bound) : p.Excused f.diagnostics id := by
  obtain ⟨env, taken, inside⟩ := covered
  rcases @reported_declare env taken d id mem with bound | reported | ⟨rfl, typeName, type, there⟩
  · exact absurd (inside.bound bound) unbound
  · exact .reported (reported.mono inside.diagnostics)
  · exact .typed declared rfl type (there.mono inside.diagnostics)

theorem excused_of_exp {e : Exp} (root : ∀ q ∈ e.parts, q ∈ p.parts) (covered : f.CoversExp e)
    (mem : id ∈ e.idents) (unbound : id.node ∉ f.bound) : p.Excused f.diagnostics id := by
  rcases e.among_parts mem with alone | ⟨base, selected⟩
  · exact .reported ((covered.part alone).names.resolve_left unbound)
  · rcases (covered.part selected).field with named | earlier
    · exact .reported (named.resolve_left unbound)
    · exact .selected (root _ selected) earlier

/-- Every identifier that is not bound is excused. -/
theorem excused_of_unbound (explained : ∀ d ∈ p.decls, d.Explained f) (mem : id ∈ p.idents)
    (unbound : id.node ∉ f.bound) : p.Excused f.diagnostics id := by
  obtain ⟨d, declared, inside⟩ := List.mem_flatMap.mp mem
  have here := explained d declared
  cases d with
  | var d =>
    exact excused_of_var (List.mem_flatMap.mpr ⟨_, declared, List.mem_cons_self⟩) here inside unbound
  | fn d =>
    obtain ⟨named, vars, exps⟩ := here
    have ofVar : ∀ v ∈ d.formals ++ d.body.vars, id ∈ v.idents → p.Excused f.diagnostics id :=
      fun v mem inside =>
        excused_of_var (List.mem_flatMap.mpr ⟨_, declared, mem⟩) (vars v mem) inside unbound
    simp only [Decl.idents, List.mem_append, List.mem_singleton] at inside
    rcases inside with ((result | rfl) | formal) | body
    · cases type : d.resultType with
      | struct name =>
        rw [type] at result
        obtain rfl := List.mem_singleton.mp result
        exact .resultType declared type
      | _ =>
        rw [type] at result
        cases result
    · exact .reported (named.resolve_left unbound)
    · obtain ⟨v, mem, inside⟩ := List.mem_flatMap.mp formal
      exact ofVar v (List.mem_append_left _ mem) inside
    · rcases d.body.mem_idents_cases body with ⟨v, mem, inside⟩ | ⟨e, mem, inside⟩
      · exact ofVar v (List.mem_append_right _ mem) inside
      · have root : e ∈ p.decls.flatMap Decl.exps := List.mem_flatMap.mpr ⟨_, declared, mem⟩
        exact excused_of_exp (fun _ => Exp.mem_partsAll root) (exps e mem) inside unbound
  | struct d =>
    obtain ⟨named, fields⟩ := here
    rcases List.mem_cons.mp inside with rfl | inside
    · exact .reported (named.resolve_left unbound)
    · rcases fields with taken | fields
      · exact .inStruct declared taken inside
      · obtain ⟨v, mem, inside⟩ := List.mem_flatMap.mp inside
        exact excused_of_var (List.mem_flatMap.mpr ⟨_, declared, mem⟩) (fields v mem) inside unbound

end Program

end Cinder
