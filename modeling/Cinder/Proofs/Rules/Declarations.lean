import Cinder.Proofs.Rules.Expressions
import Cinder.Proofs.Scoping.Walk

/-!
# Accepted declarations follow the rules

Nothing is reported about a list of declarations if and only if their names are new and distinct and
a scope grows by them as the rules say. It is the scope that resolution ends up with.
-/
namespace Cinder

namespace Rules

open Scoping

/-! ## One declaration -/

theorem struct_eq_some {env : Env} {name : Text} {d : StructDef} :
    env.struct name = some d ↔ env.find name = some (.structDef d) := by
  rw [Env.struct]
  cases env.find name with
  | none => simp
  | some s => cases s <;> simp

theorem declares_iff {env : Env} {d : VarDecl} {s : Symbol} :
    Declares env d s ↔ (candidate env d).1 = some s := by
  constructor
  · intro declares
    cases declares with
    | int => rfl
    | bool => rfl
    | struct visible => simp [candidate, struct_eq_some.mpr visible]
  · obtain ⟨type, name⟩ := d
    intro chosen
    cases type with
    | int =>
      obtain rfl := Option.some.inj chosen
      exact .int
    | bool =>
      obtain rfl := Option.some.inj chosen
      exact .bool
    | void => cases chosen
    | struct typeName =>
      cases found : env.struct typeName.name with
      | none => simp [candidate, found] at chosen
      | some definition =>
        obtain rfl : Symbol.structVar name.name typeName definition = s := by
          simpa [candidate, found] using chosen
        exact .struct (struct_eq_some.mp found)

theorem candidate_clean_iff {env : Env} {d : VarDecl} :
    (candidate env d).2.diagnostics = [] ↔ ∃ s, (candidate env d).1 = some s := by
  obtain ⟨type, name⟩ := d
  cases type with
  | struct typeName =>
    simp only [candidate]
    cases env.struct typeName.name <;> simp [Findings.report, Findings.bind]
  | _ => simp [candidate, Findings.report, Findings.nothing]

/-- A declaration is accepted in silence if and only if its name is free and a rule gives it a
symbol. -/
theorem declare_clean_iff {env : Env} {taken : Bool} {d : VarDecl} :
    (declare env taken d).2.diagnostics = [] ↔ taken = false ∧ ∃ s, Declares env d s := by
  simp only [declares_iff]
  cases taken with
  | true => simp [declare_taken, Findings.report]
  | false =>
    cases accepted : (candidate env d).1 with
    | none =>
      rw [declare_rejected accepted, candidate_clean_iff, accepted]
      simp
    | some s =>
      rw [declare_accepted accepted, diagnostics_append_eq_nil, candidate_clean_iff, accepted]
      simp [Findings.bind]

theorem Declares.regular {env : Env} (regular : RegularEnv env) {d : VarDecl} {s : Symbol}
    (declares : Declares env d s) : s.Regular := by
  cases declares with
  | int => exact .plain (.inl rfl)
  | bool => exact .plain (.inr rfl)
  | struct visible =>
    cases regular.find visible with
    | structDef inner => exact .structVar inner

theorem Declares.symbol {env : Env} {d : VarDecl} {s : Symbol} (declares : Declares env d s) :
    declare env false d = (some s, (candidate env d).2 ++ .bind d.name s) :=
  declare_accepted (declares_iff.mp declares)

/-! ## Lists of declarations -/

theorem declareAll_cons_of_declares {visible : Scope → Env} {scope : Scope} {d : VarDecl}
    {s : Symbol} {ds : List VarDecl} (free : d.name.name ∉ scope.keys)
    (declares : Declares (visible scope) d s) :
    declareAll visible scope (d :: ds) =
      let more := declareAll visible (scope.insert d.name.name s) ds
      ⟨more.scope, some s :: more.symbols,
        (candidate (visible scope) d).2 ++ .bind d.name s ++ more.findings⟩ := by
  simp only [declareAll, Table.contains_eq_false.mpr free, declares.symbol, Option.elim]

/-- Names that are neither in a scope nor twice in a list. -/
def Fresh (scope : Scope) (ns : List Text) : Prop := (∀ n ∈ ns, n ∉ scope.keys) ∧ ns.Nodup

theorem fresh_empty {ns : List Text} : Fresh .empty ns ↔ ns.Nodup := by
  simp [Fresh, Table.empty, Table.keys]

theorem fresh_cons {scope : Scope} {n : Text} {ns : List Text} (s : Symbol) :
    Fresh scope (n :: ns) ↔ n ∉ scope.keys ∧ Fresh (scope.insert n s) ns := by
  constructor
  · rintro ⟨outside, distinct⟩
    obtain ⟨new, rest⟩ := List.nodup_cons.mp distinct
    have free : n ∉ scope.keys := outside n (by simp)
    refine ⟨free, ?_, rest⟩
    intro m mem known
    rw [Table.keys_insert free, List.mem_append, List.mem_singleton] at known
    rcases known with old | rfl
    · exact outside m (List.mem_cons_of_mem _ mem) old
    · exact new mem
  · rintro ⟨free, outside, rest⟩
    rw [Table.keys_insert free] at outside
    refine ⟨?_, List.nodup_cons.mpr ⟨?_, rest⟩⟩
    · intro m mem
      rcases List.mem_cons.mp mem with rfl | later
      · exact free
      · intro known
        exact outside m later (List.mem_append_left _ known)
    · intro mem
      exact outside n mem (by simp)

/-- Nothing is reported about declarations, which leave a certain scope, if and only if their names
are fresh and the scope grows to it by the rules. -/
theorem grows_iff {visible : Scope → Env} : {scope scope' : Scope} → (ds : List VarDecl) →
    ((declareAll visible scope ds).findings.diagnostics = [] ∧
      (declareAll visible scope ds).scope = scope' ↔
    Fresh scope (names ds) ∧ Grows visible scope ds scope')
  | scope, scope', [] => by
    constructor
    · rintro ⟨_, rfl⟩
      exact ⟨⟨by simp [names], List.nodup_nil⟩, .nil⟩
    · rintro ⟨_, grown⟩
      cases grown
      exact ⟨rfl, rfl⟩
  | scope, scope', d :: ds => by
    constructor
    · rintro ⟨clean, rfl⟩
      have first := (diagnostics_append_eq_nil.mp clean).1
      obtain ⟨unknown, s, declares⟩ := declare_clean_iff.mp first
      have free := Table.contains_eq_false.mp unknown
      rw [declareAll_cons_of_declares free declares] at clean ⊢
      have rest := (diagnostics_append_eq_nil.mp clean).2
      obtain ⟨fresh, grown⟩ := (grows_iff ds).mp ⟨rest, rfl⟩
      exact ⟨(fresh_cons s).mpr ⟨free, fresh⟩, .cons declares grown⟩
    · rintro ⟨fresh, grown⟩
      cases grown with
      | @cons _ _ s _ _ declares rest =>
        obtain ⟨free, later⟩ := (fresh_cons s).mp fresh
        obtain ⟨clean, same⟩ := (grows_iff ds).mpr ⟨later, rest⟩
        have chosen := candidate_clean_iff.mpr ⟨s, declares_iff.mp declares⟩
        rw [declareAll_cons_of_declares free declares]
        exact ⟨diagnostics_append_eq_nil.mpr
          ⟨diagnostics_append_eq_nil.mpr ⟨chosen, rfl⟩, clean⟩, same⟩

/-- The formals of a function that is accepted have the types that are written. -/
theorem paramTypes_of_grows {visible : Scope → Env} : {scope scope' : Scope} →
    (ds : List VarDecl) → Fresh scope (names ds) → Grows visible scope ds scope' →
    paramTypes (declareAll visible scope ds).symbols = ds.map (·.type.type)
  | _, _, [], _, _ => rfl
  | _, _, d :: ds, fresh, grown => by
    cases grown with
    | @cons _ _ s _ _ declares rest =>
      obtain ⟨free, later⟩ := (fresh_cons s).mp fresh
      rw [declareAll_cons_of_declares free declares]
      have type := (candidate_some (declares_iff.mp declares)).2
      have others := paramTypes_of_grows ds later rest
      simpa [paramTypes, type] using others

theorem declareAll_append {visible : Scope → Env} : (scope : Scope) → (ds more : List VarDecl) →
    let first := declareAll visible scope ds
    let second := declareAll visible first.scope more
    declareAll visible scope (ds ++ more) =
      ⟨second.scope, first.symbols ++ second.symbols, first.findings ++ second.findings⟩
  | _, [], _ => rfl
  | scope, d :: ds, more => by
    simp only [List.cons_append, declareAll, declareAll_append _ ds more, Findings.append_assoc]

/-! ## Regular scopes -/

theorem RegularScope.insert {scope : Scope} (regular : RegularScope scope) {s : Symbol}
    (new : s.Regular) (name : Text) : RegularScope (scope.insert name s) := by
  intro entry mem
  rcases Table.mem_put mem with rfl | old
  · exact new
  · exact regular entry old

theorem regularScope_empty : RegularScope .empty := by
  intro entry mem
  cases mem

theorem regularEnv_cons {scope : Scope} {env : Env} :
    RegularEnv (scope :: env) ↔ RegularScope scope ∧ RegularEnv env := by
  simp [RegularEnv]

theorem Grows.regular {visible : Scope → Env}
    (around : ∀ scope, RegularScope scope → RegularEnv (visible scope)) {scope scope' : Scope}
    {ds : List VarDecl} (grown : Grows visible scope ds scope') (regular : RegularScope scope) :
    RegularScope scope' := by
  induction grown with
  | nil => exact regular
  | cons first _ ih => exact ih (regular.insert (first.regular (around _ regular)) _)

end Rules

end Cinder
