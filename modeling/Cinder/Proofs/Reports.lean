import Cinder.Proofs.Scoping.Walk
import Cinder.Proofs.Shape

/-!
# Reports about expressions

What is found out about the names of an expression leaves none of them unexplained. A report stands at
an identifier that is not bound, or at the last one of a place that is bound to no struct variable. An
identifier that stands alone and is not bound is reported itself. The field of a dot-access that is not
bound is reported itself, or there is a report about an identifier before it in the same chain.
-/
namespace Cinder

/-- A symbol that gives no name, no field and no call the type `error`. -/
inductive Symbol.Typed : Symbol → Prop where
  | plain {name τ} (basic : τ = .int ∨ τ = .bool) : Typed (.plain name τ)
  | function {name result params} (sound : Ty.isError result = false) :
      Typed (.function name result params)
  | structDef {name fields} (inner : ∀ s ∈ fields, Typed s) : Typed (.structDef (.mk name fields))
  | structVar {name typeName struct fields} (inner : ∀ s ∈ fields, Typed s) :
      Typed (.structVar name typeName (.mk struct fields))

theorem Symbol.Typed.isError {s : Symbol} (typed : s.Typed) : s.type.isError = false := by
  cases typed with
  | plain basic => rcases basic with rfl | rfl <;> rfl
  | _ => rfl

theorem TypeExp.isError_type (t : TypeExp) : t.type.isError = false := by
  cases t <;> rfl

/-- There is a report at an identifier. -/
def Ident.Reported (id : Ident) (ds : List Diagnostic) : Prop := ∃ d ∈ ds, d.position = id.position

theorem Ident.Reported.mono {id : Ident} {ds es : List Diagnostic} (h : id.Reported ds)
    (sub : ds ⊆ es) : id.Reported es := by
  obtain ⟨d, mem, here⟩ := h
  exact ⟨d, sub mem, here⟩

namespace Exp

/-- The expressions that an expression is built from. A callee counts as one, and the field of a
dot-access does not. -/
def children : Exp → List Exp
  | dot base _ => [base]
  | assign target value => [target, value]
  | call callee args => ident callee :: args
  | unary _ operand => [operand]
  | binary _ left right => [left, right]
  | _ => []

mutual

/-- The expressions inside an expression, itself included. -/
def parts (e : Exp) : List Exp :=
  match e with
  | int _ _ _ => [e]
  | string _ _ => [e]
  | bool _ _ => [e]
  | ident _ => [e]
  | dot base _ => e :: base.parts
  | assign target value => e :: (target.parts ++ value.parts)
  | call callee args => e :: ident callee :: partsAll args
  | unary _ operand => e :: operand.parts
  | binary _ left right => e :: (left.parts ++ right.parts)

def partsAll : List Exp → List Exp
  | [] => []
  | e :: rest => e.parts ++ partsAll rest

end

theorem self_mem_parts (e : Exp) : e ∈ e.parts := by
  cases e <;> simp [parts]

theorem mem_partsAll {q e : Exp} : {es : List Exp} → e ∈ es → q ∈ e.parts → q ∈ partsAll es
  | _ :: _, mem, part => by
    rcases List.mem_cons.mp mem with rfl | mem
    · exact List.mem_append_left _ part
    · exact List.mem_append_right _ (mem_partsAll mem part)

mutual

/-- What passes from an expression to those it is built from passes to its parts. -/
theorem holds_of_part {P : Exp → Prop} (step : ∀ e, P e → ∀ c ∈ e.children, P c) {q : Exp} :
    (e : Exp) → P e → q ∈ e.parts → P q
  | .int _ _ _, holds, mem | .string _ _, holds, mem | .bool _ _, holds, mem
  | .ident _, holds, mem => by
    obtain rfl := List.mem_singleton.mp mem
    exact holds
  | .dot base field, holds, mem => by
    rcases List.mem_cons.mp mem with rfl | mem
    · exact holds
    · exact holds_of_part step base (step _ holds base (by simp [children])) mem
  | .assign target value, holds, mem => by
    rcases List.mem_cons.mp mem with rfl | mem
    · exact holds
    · rcases List.mem_append.mp mem with mem | mem
      · exact holds_of_part step target (step _ holds target (by simp [children])) mem
      · exact holds_of_part step value (step _ holds value (by simp [children])) mem
  | .call callee args, holds, mem => by
    rcases List.mem_cons.mp mem with rfl | mem
    · exact holds
    · rcases List.mem_cons.mp mem with rfl | mem
      · exact step _ holds _ List.mem_cons_self
      · exact holds_of_partsAll step args (fun e here => step _ holds e (by simp [children, here])) mem
  | .unary _ operand, holds, mem => by
    rcases List.mem_cons.mp mem with rfl | mem
    · exact holds
    · exact holds_of_part step operand (step _ holds operand (by simp [children])) mem
  | .binary _ left right, holds, mem => by
    rcases List.mem_cons.mp mem with rfl | mem
    · exact holds
    · rcases List.mem_append.mp mem with mem | mem
      · exact holds_of_part step left (step _ holds left (by simp [children])) mem
      · exact holds_of_part step right (step _ holds right (by simp [children])) mem

theorem holds_of_partsAll {P : Exp → Prop} (step : ∀ e, P e → ∀ c ∈ e.children, P c) {q : Exp} :
    (es : List Exp) → (∀ e ∈ es, P e) → q ∈ partsAll es → P q
  | e :: es, holds, mem => by
    rcases List.mem_append.mp mem with mem | mem
    · exact holds_of_part step e (holds e List.mem_cons_self) mem
    · exact holds_of_partsAll step es (fun e here => holds e (List.mem_cons_of_mem _ here)) mem

end

theorem wellShaped_of_mem {e : Exp} : {es : List Exp} → AllWellShaped es → e ∈ es → e.WellShaped
  | _ :: _, ⟨shaped, others⟩, mem => by
    rcases List.mem_cons.mp mem with rfl | mem
    · exact shaped
    · exact wellShaped_of_mem others mem

theorem wellShaped_child {e c : Exp} (shaped : e.WellShaped) (mem : c ∈ e.children) :
    c.WellShaped := by
  cases e with
  | dot base field =>
    obtain rfl := List.mem_singleton.mp mem
    exact shaped.2.1
  | assign target value =>
    rcases List.mem_pair.mp mem with rfl | rfl
    · exact shaped.2.1
    · exact shaped.2.2
  | call callee args =>
    rcases List.mem_cons.mp mem with rfl | mem
    · exact shaped.1
    · exact wellShaped_of_mem shaped.2 mem
  | unary op operand =>
    obtain rfl := List.mem_singleton.mp mem
    exact shaped
  | binary op left right =>
    rcases List.mem_pair.mp mem with rfl | rfl
    · exact shaped.1
    · exact shaped.2
  | _ => cases mem

end Exp

namespace Scoping

/-! ## Typed environments -/

def TypedScope (scope : Scope) : Prop := ∀ entry ∈ scope.entries, entry.2.Typed

def TypedEnv (env : Env) : Prop := ∀ scope ∈ env, TypedScope scope

theorem typedScope_empty : TypedScope .empty := by
  intro entry mem
  cases mem

theorem TypedScope.insert {scope : Scope} (typed : TypedScope scope) {s : Symbol} (sound : s.Typed)
    (name : Text) : TypedScope (scope.insert name s) := by
  intro entry mem
  rcases Table.mem_put mem with rfl | old
  · exact sound
  · exact typed entry old

theorem TypedEnv.cons {scope : Scope} {env : Env} (first : TypedScope scope) (rest : TypedEnv env) :
    TypedEnv (scope :: env) := by
  intro other mem
  rcases List.mem_cons.mp mem with rfl | later
  · exact first
  · exact rest other later

theorem TypedScope.env {scope : Scope} (typed : TypedScope scope) : TypedEnv [scope] :=
  .cons typed fun _ mem => nomatch mem

theorem TypedEnv.find {env : Env} (typed : TypedEnv env) {name : Text} {s : Symbol}
    (found : env.find name = some s) : s.Typed := by
  obtain ⟨scope, mem, here⟩ := List.exists_of_findSome?_eq_some found
  exact typed scope mem _ (Table.mem_of_find? here)

theorem typed_ofSymbol? {symbol? : Option Symbol} {d : StructDef}
    (sound : ∀ s, symbol? = some s → s.Typed) (base : Base.ofSymbol? symbol? = .struct d) :
    ∀ s ∈ d.fields, s.Typed := by
  cases symbol? with
  | none => cases base
  | some s =>
    cases s with
    | structVar name typeName definition =>
      cases base
      cases sound _ rfl with
      | structVar inner => exact inner
    | _ => cases base

/-- The fields of what a dot-access selects from are typed. -/
theorem TypedEnv.base {env : Env} (typed : TypedEnv env) : (e : Exp) → {d : StructDef} →
    Base.of env e = .struct d → ∀ s ∈ d.fields, s.Typed
  | .ident _, _, base => typed_ofSymbol? (fun _ => typed.find) base
  | .dot inner field, _, base => by
    refine typed_ofSymbol? (fun s found => ?_) base
    cases outer : Base.of env inner with
    | struct d =>
      rw [outer] at found
      exact TypedEnv.base typed inner outer s (List.mem_of_find?_eq_some found)
    | _ =>
      rw [outer] at found
      cases found

/-! ## Findings -/

namespace Findings

/-- The identifiers that are bound. -/
def bound (f : Findings) : List Nat := f.idents.map Prod.fst

@[simp] theorem bound_append (f g : Findings) : (f ++ g).bound = f.bound ++ g.bound :=
  List.map_append

/-- What is found in the second is found in the first. -/
structure Includes (f g : Findings) : Prop where
  idents : g.idents ⊆ f.idents
  diagnostics : g.diagnostics ⊆ f.diagnostics

namespace Includes

variable {f g h : Findings}

theorem refl (f : Findings) : f.Includes f := ⟨List.Subset.refl _, List.Subset.refl _⟩

theorem trans (first : f.Includes g) (second : g.Includes h) : f.Includes h :=
  ⟨List.Subset.trans second.idents first.idents,
    List.Subset.trans second.diagnostics first.diagnostics⟩

theorem left (h : f.Includes g) (more : Findings) : (f ++ more).Includes g :=
  ⟨fun _ mem => List.mem_append_left _ (h.idents mem),
    fun _ mem => List.mem_append_left _ (h.diagnostics mem)⟩

theorem right (h : f.Includes g) (more : Findings) : (more ++ f).Includes g :=
  ⟨fun _ mem => List.mem_append_right _ (h.idents mem),
    fun _ mem => List.mem_append_right _ (h.diagnostics mem)⟩

theorem bound (h : f.Includes g) : g.bound ⊆ f.bound := List.map_subset _ h.idents

end Includes

end Findings

open Findings (nothing)

/-- Findings about these identifiers. What is bound is one of them and has a typed symbol. A report
stands at one of them, which is bound only if something is selected from it that it does not have. -/
structure Grounded (ids : List Ident) (f : Findings) : Prop where
  typed : ∀ entry ∈ f.idents, entry.1 ∈ nodes ids ∧ entry.2.Typed
  reports : ∀ d ∈ f.diagnostics, ∃ id ∈ ids, d.position = id.position ∧
    (id.node ∈ f.bound ↔ d.message = Problem.notStruct.message)

namespace Grounded

variable {ids more : List Ident} {f g : Findings} {id : Ident}

theorem within (h : Grounded ids f) : ∀ n ∈ f.bound, n ∈ nodes ids := by
  intro n mem
  obtain ⟨entry, inside, rfl⟩ := List.mem_map.mp mem
  exact (h.typed entry inside).1

theorem silent (none : f.idents = []) (quiet : f.diagnostics = []) : Grounded ids f := by
  constructor
  · intro entry mem
    rw [none] at mem
    cases mem
  · intro d mem
    rw [quiet] at mem
    cases mem

theorem binds {s : Symbol} (sound : s.Typed) (one : f.idents = [(id.node, s)])
    (quiet : f.diagnostics = []) : Grounded [id] f := by
  constructor
  · intro entry mem
    rw [one, List.mem_singleton] at mem
    subst mem
    exact ⟨List.mem_singleton.mpr rfl, sound⟩
  · intro d mem
    rw [quiet] at mem
    cases mem

theorem append (first : Grounded ids f) (second : Grounded more g)
    (apart : (nodes ids).Disjoint (nodes more)) : Grounded (ids ++ more) (f ++ g) := by
  constructor
  · intro entry mem
    rw [nodes_append, List.mem_append]
    rcases List.mem_append.mp mem with old | new
    · exact ⟨.inl (first.typed entry old).1, (first.typed entry old).2⟩
    · exact ⟨.inr (second.typed entry new).1, (second.typed entry new).2⟩
  · intro d mem
    rcases List.mem_append.mp mem with old | new
    · -- The other findings are about other identifiers, so they do not bind the one that is reported.
      obtain ⟨id, inside, here, status⟩ := first.reports d old
      have absent : id.node ∉ g.bound := fun known =>
        apart (List.mem_map_of_mem inside) (second.within _ known)
      refine ⟨id, List.mem_append_left _ inside, here, ?_⟩
      simpa [absent] using status
    · obtain ⟨id, inside, here, status⟩ := second.reports d new
      have absent : id.node ∉ f.bound := fun known =>
        apart (first.within _ known) (List.mem_map_of_mem inside)
      refine ⟨id, List.mem_append_right _ inside, here, ?_⟩
      simpa [absent] using status

theorem widen (h : Grounded ids f) (sub : ∀ id ∈ ids, id ∈ more) : Grounded more f := by
  constructor
  · intro entry mem
    obtain ⟨inside, sound⟩ := h.typed entry mem
    exact ⟨List.map_subset _ sub inside, sound⟩
  · intro d mem
    obtain ⟨id, inside, rest⟩ := h.reports d mem
    exact ⟨id, sub id inside, rest⟩

/-- One more report. -/
theorem report (h : Grounded ids f) {problem : Problem} (mem : id ∈ ids)
    (status : id.node ∈ f.bound ↔ problem.message = Problem.notStruct.message)
    (none : g.idents = []) (one : g.diagnostics = [.error id.position problem]) :
    Grounded ids (f ++ g) := by
  have same : (f ++ g).bound = f.bound := by simp [Findings.bound, none]
  constructor
  · intro entry mem
    rw [Findings.idents_append, none, List.append_nil] at mem
    exact h.typed entry mem
  · intro d reported
    rw [same]
    rw [Findings.diagnostics_append, one, List.mem_append, List.mem_singleton] at reported
    rcases reported with old | rfl
    · exact h.reports d old
    · exact ⟨id, mem, rfl, status⟩

end Grounded

/-! ## Chains -/

theorem grounded_report (id : Ident) {problem : Problem}
    (other : problem.message ≠ Problem.notStruct.message) :
    Grounded [id] (.report id.position problem) := by
  have status : id.node ∈ Findings.bound nothing ↔
      problem.message = Problem.notStruct.message := by
    simpa [Findings.bound, nothing] using other
  exact Grounded.report (f := nothing) (g := .report id.position problem) (.silent rfl rfl)
    List.mem_cons_self status rfl rfl

theorem grounded_use {env : Env} (typed : TypedEnv env) (id : Ident) :
    Grounded [id] (use env id) := by
  rw [use]
  cases found : env.find id.name with
  | none => exact grounded_report id (by decide)
  | some s => exact .binds (typed.find found) rfl rfl

/-- The last identifier of a place that is bound, but not to a struct variable. -/
theorem bound_of_other {env : Env} : (e : Exp) → e.isPlace → Base.of env e = .other →
    ∃ id ∈ e.idents, id.position = e.position ∧ id.node ∈ (exp env e).bound
  | .ident id, _, other => by
    refine ⟨id, List.mem_cons_self, rfl, ?_⟩
    rw [exp, use]
    cases found : env.find id.name with
    | none =>
      rw [Base.of, found] at other
      cases other
    | some s => simp [Findings.bound, Findings.bind]
  | .dot inner field, _, other => by
    refine ⟨field, by simp [Exp.idents], rfl, ?_⟩
    cases found : (Base.of env inner).field? field.name with
    | none =>
      rw [Base.of, found] at other
      cases other
    | some s => simp [exp, Findings.bound, idents_select, found]

/-- If there is nothing to select from, it has been reported. -/
theorem reported_of_unbound {env : Env} : (e : Exp) → e.WellShaped → Base.of env e = .unbound →
    ∃ id ∈ e.idents, id.Reported (exp env e).diagnostics
  | .ident id, _, unbound => by
    refine ⟨id, List.mem_cons_self, ?_⟩
    cases found : env.find id.name with
    | none => exact ⟨.error id.position .undeclared, by simp [exp, use, found, Findings.report], rfl⟩
    | some s =>
      rw [Base.of, found] at unbound
      cases s <;> cases unbound
  | .dot inner field, ⟨place, shaped, _⟩, unbound => by
    simp only [exp, Exp.idents, List.mem_append, List.mem_singleton]
    cases outer : Base.of env inner with
    | unbound =>
      obtain ⟨id, mem, reported⟩ := reported_of_unbound inner shaped outer
      exact ⟨id, .inl mem, reported.mono (List.subset_append_left _ _)⟩
    | other =>
      obtain ⟨id, mem, here, -⟩ := bound_of_other inner place outer
      exact ⟨id, .inl mem, .error inner.position .notStruct, by simp [select], here.symm⟩
    | struct d =>
      refine ⟨field, .inr rfl, .error field.position .unknownField, ?_, rfl⟩
      cases found : d.field? field.name with
      | none => simp [select, found]
      | some s =>
        rw [Base.of, outer, Base.field?, found] at unbound
        cases s <;> cases unbound
  | .int .., _, unbound | .string .., _, unbound | .bool .., _, unbound
  | .assign .., _, unbound | .call .., _, unbound | .unary .., _, unbound
  | .binary .., _, unbound => nomatch unbound

/-- A field is bound, or it is reported, or something before it in its chain is. -/
theorem reported_dot {env : Env} {base : Exp} {field : Ident}
    (shaped : (Exp.dot base field).WellShaped) :
    field.node ∈ (exp env (.dot base field)).bound ∨
      field.Reported (exp env (.dot base field)).diagnostics ∨
      ∃ id ∈ base.idents, id.Reported (exp env (.dot base field)).diagnostics := by
  simp only [exp]
  cases outer : Base.of env base with
  | unbound =>
    obtain ⟨id, mem, reported⟩ := reported_of_unbound base shaped.2.1 outer
    exact .inr (.inr ⟨id, mem, reported.mono (List.subset_append_left _ _)⟩)
  | other =>
    obtain ⟨id, mem, here, -⟩ := bound_of_other base shaped.1 outer
    exact .inr (.inr ⟨id, mem, .error base.position .notStruct, by simp [select], here.symm⟩)
  | struct d =>
    cases found : d.field? field.name with
    | none =>
      exact .inr (.inl ⟨.error field.position .unknownField, by simp [select, found], rfl⟩)
    | some s => exact .inl (by simp [Findings.bound, idents_select, Base.field?, found])

/-! ## Expressions -/

theorem grounded_dot {env : Env} (typed : TypedEnv env) {base : Exp} {field : Ident}
    (place : base.isPlace) (inner : Grounded base.idents (exp env base))
    (apart : (nodes base.idents).Disjoint (nodes [field])) :
    Grounded (base.idents ++ [field])
      (exp env base ++ select (.of env base) base.position field) := by
  have within : ∀ id ∈ base.idents, id ∈ base.idents ++ [field] := fun _ =>
    List.mem_append_left _
  cases outer : Base.of env base with
  | unbound => exact inner.append (.silent rfl rfl) apart
  | other =>
    obtain ⟨id, mem, here, known⟩ := bound_of_other base place outer
    exact (inner.widen within).report (within id mem) (iff_of_true known rfl) rfl
      (by rw [here]; rfl)
  | struct d =>
    cases found : d.field? field.name with
    | none =>
      have absent : field.node ∉ (exp env base).bound := fun known =>
        apart (inner.within _ known) List.mem_cons_self
      have other : Problem.unknownField.message ≠ Problem.notStruct.message := by decide
      exact (inner.widen within).report (by simp) (iff_of_false absent other)
        (by simp [select, found]) (by simp only [select, found])
    | some s =>
      have sound : s.Typed := typed.base base outer s (List.mem_of_find?_eq_some found)
      refine inner.append (.binds sound ?_ ?_) apart
      · simp [idents_select, Base.field?, found]
      · cases s <;> simp [select, found, Findings.bind]

mutual

theorem grounded_exp {env : Env} (typed : TypedEnv env) : (e : Exp) → (nodes e.idents).Nodup →
    e.WellShaped → Grounded e.idents (exp env e)
  | .int _ _ _, _, _ => .silent rfl rfl
  | .string _ _, _, _ => .silent rfl rfl
  | .bool _ _, _, _ => .silent rfl rfl
  | .ident id, _, _ => grounded_use typed id
  | .dot base field, distinct, ⟨place, shaped, _⟩ => by
    rw [Exp.idents, nodes_append] at distinct
    obtain ⟨left, _, apart⟩ := List.nodup_append'.mp distinct
    exact grounded_dot typed place (grounded_exp typed base left shaped) apart
  | .assign target value, distinct, ⟨_, shaped, shaped'⟩ => by
    rw [Exp.idents, nodes_append] at distinct
    obtain ⟨left, right, apart⟩ := List.nodup_append'.mp distinct
    exact (grounded_exp typed target left shaped).append
      (grounded_exp typed value right shaped') apart
  | .call callee args, distinct, ⟨_, shaped⟩ => by
    have split := List.nodup_cons.mp distinct
    exact (grounded_use typed callee).append (grounded_exps typed args split.2 shaped)
      (by simpa [nodes] using split.1)
  | .unary _ operand, distinct, shaped => grounded_exp typed operand distinct shaped
  | .binary _ left right, distinct, ⟨shaped, shaped'⟩ => by
    rw [Exp.idents, nodes_append] at distinct
    obtain ⟨first, second, apart⟩ := List.nodup_append'.mp distinct
    exact (grounded_exp typed left first shaped).append
      (grounded_exp typed right second shaped') apart

theorem grounded_exps {env : Env} (typed : TypedEnv env) : (es : List Exp) →
    (nodes (Exp.identsAll es)).Nodup → Exp.AllWellShaped es →
    Grounded (Exp.identsAll es) (exps env es)
  | [], _, _ => .silent rfl rfl
  | e :: es, distinct, ⟨shaped, others⟩ => by
    rw [Exp.identsAll, nodes_append] at distinct
    obtain ⟨first, second, apart⟩ := List.nodup_append'.mp distinct
    exact (grounded_exp typed e first shaped).append (grounded_exps typed es second others) apart

end

theorem includes_of_mem {env : Env} {e : Exp} : {es : List Exp} → e ∈ es →
    (exps env es).Includes (exp env e)
  | _ :: _, mem => by
    rcases List.mem_cons.mp mem with rfl | mem
    · exact (Findings.Includes.refl _).left _
    · exact (includes_of_mem mem).right _

/-- What is found about an expression that another one is built from is found about that one. -/
theorem includes_child {env : Env} {e c : Exp} (mem : c ∈ e.children) :
    (exp env e).Includes (exp env c) := by
  cases e with
  | dot base field =>
    obtain rfl := List.mem_singleton.mp mem
    exact (Findings.Includes.refl _).left _
  | assign target value | binary op target value =>
    rcases List.mem_pair.mp mem with rfl | rfl
    · exact (Findings.Includes.refl _).left _
    · exact (Findings.Includes.refl _).right _
  | call callee args =>
    rcases List.mem_cons.mp mem with rfl | mem
    · exact (Findings.Includes.refl (use env callee)).left _
    · exact (includes_of_mem mem).right _
  | unary op operand =>
    obtain rfl := List.mem_singleton.mp mem
    exact .refl _
  | _ => cases mem

end Scoping

namespace Exp

/-- An identifier stands alone among expressions, or it is selected in one of them. -/
def Among (id : Ident) (es : List Exp) : Prop := ident id ∈ es ∨ ∃ base, dot base id ∈ es

theorem Among.mono {id : Ident} {es more : List Exp} (h : Among id es) (sub : ∀ e ∈ es, e ∈ more) :
    Among id more := by
  rcases h with alone | ⟨base, selected⟩
  · exact .inl (sub _ alone)
  · exact .inr ⟨base, sub _ selected⟩

mutual

theorem among_parts {id : Ident} : (e : Exp) → id ∈ e.idents → Among id e.parts
  | .ident other, mem => by
    obtain rfl := List.mem_singleton.mp mem
    exact .inl (self_mem_parts _)
  | .dot base field, mem => by
    rcases List.mem_append.mp mem with mem | mem
    · exact (among_parts base mem).mono fun e here => by simp [parts, here]
    · obtain rfl := List.mem_singleton.mp mem
      exact .inr ⟨base, self_mem_parts _⟩
  | .assign target value, mem => by
    rcases List.mem_append.mp mem with mem | mem
    · exact (among_parts target mem).mono fun e here => by simp [parts, here]
    · exact (among_parts value mem).mono fun e here => by simp [parts, here]
  | .call callee args, mem => by
    rcases List.mem_cons.mp mem with rfl | mem
    · exact .inl (by simp [parts])
    · exact (among_partsAll args mem).mono fun e here => by simp [parts, here]
  | .unary _ operand, mem =>
    (among_parts operand mem).mono fun e here => by simp [parts, here]
  | .binary _ left right, mem => by
    rcases List.mem_append.mp mem with mem | mem
    · exact (among_parts left mem).mono fun e here => by simp [parts, here]
    · exact (among_parts right mem).mono fun e here => by simp [parts, here]

theorem among_partsAll {id : Ident} : (es : List Exp) → id ∈ identsAll es → Among id (partsAll es)
  | e :: es, mem => by
    rcases List.mem_append.mp mem with mem | mem
    · exact (among_parts e mem).mono fun e here => by simp [partsAll, here]
    · exact (among_partsAll es mem).mono fun e here => by simp [partsAll, here]

end

end Exp

end Cinder
