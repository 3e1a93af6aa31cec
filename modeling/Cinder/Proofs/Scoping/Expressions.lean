import Cinder.Program.Idents
import Cinder.Proofs.Scoping.Steps

/-!
# Expressions in the resolver

On expressions whose identifiers are told apart by their numbers, the resolver yields exactly the
findings of lexical scoping. What it looks up about the base of a dot-access is what it has written
down just before.
-/
namespace Cinder.Scoping

open Findings (nothing)

/-- The numbers of identifiers. -/
def nodes (ids : List Ident) : List Nat := ids.map Ident.node

theorem nodes_append (ids more : List Ident) : nodes (ids ++ more) = nodes ids ++ nodes more :=
  List.map_append

theorem Env.find_scopes {env : Env} (inside : env ≠ []) (name : Text) :
    env.scopes.find name = .ok (env.find name) := by
  cases env with
  | nil => contradiction
  | cons scope outer => rfl

/-! ## Expressions -/

theorem yields_use {env : Env} (inside : env ≠ []) (id : Ident) :
    Yields (Resolve.useIdent id) [id.node] env env () (use env id) := by
  have look : Yields (Resolve.query (·.find id.name)) [] env env (env.find id.name) nothing :=
    .query (Env.find_scopes inside id.name)
  rw [Resolve.useIdent, use]
  cases found : env.find id.name with
  | none =>
    rw [found] at look
    refine look.after ?_
    exact .report env id.position .undeclared
  | some s =>
    rw [found] at look
    refine look.after ?_
    exact .bindIdent env id s

theorem run_bind {α β : Type} {step : Resolve α} {next : α → Resolve β} {r s : Resolver} {a : α}
    (taken : step r = .ok a s) : (step >>= next) r = next a s := by
  change EStateM.bind step next r = _
  rw [EStateM.bind, taken]

/-- What the resolver has written down about a base agrees with its environment. -/
def Knows (env : Env) (r : Resolver) : Exp → Prop
  | .ident id => r.bindings.symbolOf id = env.find id.name
  | .dot inner field =>
    match (Base.of env inner).field? field.name with
    | none => field.node ∈ r.badDots
    | some (.structVar _ _ d) => field.node ∉ r.badDots ∧ r.bindings.structOf field = some d
    | some _ => field.node ∉ r.badDots ∧ r.bindings.structOf field = none
  | _ => True

theorem run_structOfBase_ident (id : Ident) (r : Resolver) :
    Resolve.structOfBase (.ident id) r = (match r.bindings.symbolOf id with
      | none => (return none : Resolve (Option StructDef))
      | some (.structVar _ _ definition) => return some definition
      | some _ => do
        Resolve.report (Exp.ident id).position .notStruct
        return none) r :=
  rfl

theorem run_structOfBase_dot (inner : Exp) (field : Ident) (r : Resolver) :
    Resolve.structOfBase (.dot inner field) r =
      (if r.badDots.contains field.node then (return none : Resolve (Option StructDef))
      else match r.bindings.structOf field with
        | some definition => return some definition
        | none => do
          Resolve.report (Exp.dot inner field).position .notStruct
          return none) r :=
  rfl

theorem run_structOfBase {env : Env} {r : Resolver} {e : Exp} (stack : r.scopes = env.scopes)
    (knows : Knows env r e) :
    Resolve.structOfBase e r = match Base.of env e with
      | .unbound => .ok none r
      | .struct d => .ok (some d) r
      | .other => .ok none (r.extend env (.report e.position .notStruct)) := by
  have reported := (@Yields.report [] env e.position .notStruct).runs r stack (by simp)
  cases e with
  | ident id =>
    have known : r.bindings.symbolOf id = env.find id.name := knows
    rw [run_structOfBase_ident, known, Base.of]
    cases env.find id.name with
    | none => rfl
    | some s =>
      cases s with
      | structVar => rfl
      | _ => exact run_bind reported
  | dot inner field =>
    rw [run_structOfBase_dot, Base.of]
    rw [Knows] at knows
    cases found : (Base.of env inner).field? field.name with
    | none =>
      rw [found] at knows
      rw [if_pos (by simpa using knows)]
      rfl
    | some s =>
      rw [found] at knows
      cases s with
      | structVar =>
        rw [if_neg (by simpa using knows.1), knows.2]
        rfl
      | _ =>
        rw [if_neg (by simpa using knows.1), knows.2]
        exact run_bind reported
  | _ => exact @run_bind _ _ _ (fun _ => Pure.pure none) _ _ _ reported

theorem run_bindStruct {env : Env} {r : Resolver} {field : Ident} {d : StructDef}
    (stack : r.scopes = env.scopes) (absent : field.node ∉ r.bindings.dots.entries.map Prod.fst) :
    Resolve.updateBindings (·.bindStruct field d) r =
      .ok () (r.extend env { dots := [(field.node, d)] }) := by
  have bound : r.bindings.bindStruct field d =
      .ok ⟨r.bindings.idents, ⟨r.bindings.dots.entries ++ [(field.node, d)]⟩⟩ := by
    have free : r.bindings.dots.contains field.node = false := Table.contains_eq_false.mpr absent
    rw [Bindings.bindStruct, free, if_neg (by simp), Table.insert, Table.put_of_not_mem absent]
  rw [Resolve.run_updateBindings, bound, Resolver.extend_eq stack]
  simp

theorem run_select {env : Env} {r : Resolver} {base : Exp} {field : Ident}
    (stack : r.scopes = env.scopes) (knows : Knows env r base) (fresh : field.node ∉ r.nodes) :
    Resolve.select base field r =
      .ok () (r.extend env (select (.of env base) base.position field)) := by
  have found := run_structOfBase stack knows
  have bad : ∀ f : Findings, field.node ∉ f.nodes →
      Resolve.markBad field (r.extend env f) =
        .ok () (r.extend env (f ++ { bad := [field.node] })) := by
    intro f apart
    rw [← Resolver.extend_extend r env env]
    refine (Yields.markBad env field).runs _ rfl fun n mem known => ?_
    obtain rfl := List.mem_singleton.mp mem
    rcases Resolver.mem_nodes_extend.mp known with old | new
    · exact fresh old
    · exact apart new
  rw [Resolve.select]
  cases base_eq : Base.of env base with
  | unbound =>
    rw [base_eq] at found
    rw [run_bind found]
    have marked := bad nothing (by simp [Findings.nodes, nothing])
    rw [Resolver.extend_nothing stack] at marked
    exact marked
  | other =>
    rw [base_eq] at found
    rw [run_bind found]
    exact bad (.report base.position .notStruct) (by simp [Findings.nodes, Findings.report])
  | struct d =>
    rw [base_eq] at found
    rw [run_bind found, select]
    cases selected : d.field? field.name with
    | none =>
      have reported := (@Yields.report [] env field.position .unknownField).runs r stack (by simp)
      have marked := bad (.report field.position .unknownField)
        (by simp [Findings.nodes, Findings.report])
      simp only [selected]
      rw [run_bind reported]
      exact marked
    | some s =>
      have bound := (Yields.bindIdent env field s).runs r stack (by simpa using fresh)
      have absent : field.node ∉
          (r.extend env (.bind field s)).bindings.dots.entries.map Prod.fst := by
        intro known
        exact fresh (by simp_all [Resolver.nodes, Resolver.extend, Findings.bind])
      simp only [selected]
      rw [run_bind bound]
      cases s with
      | structVar name typeName inner =>
        have both := @run_bindStruct env _ field inner rfl absent
        rw [Resolver.extend_extend] at both
        exact both
      | _ => rfl

theorem idents_select (base : Base) (position : Position) (field : Ident) :
    (select base position field).idents =
      ((base.field? field.name).map (field.node, ·)).toList := by
  cases base with
  | struct d =>
    simp only [select, Base.field?]
    cases d.field? field.name with
    | none => rfl
    | some s => cases s <;> rfl
  | _ => rfl

theorem bad_select (base : Base) (position : Position) (field : Ident) :
    (select base position field).bad = match base.field? field.name with
      | none => [field.node]
      | some _ => [] := by
  cases base with
  | struct d =>
    simp only [select, Base.field?]
    cases d.field? field.name with
    | none => rfl
    | some s => cases s <;> rfl
  | _ => rfl

theorem dots_select (base : Base) (position : Position) (field : Ident) :
    (select base position field).dots = match base.field? field.name with
      | some (.structVar _ _ d) => [(field.node, d)]
      | _ => [] := by
  cases base with
  | struct d =>
    simp only [select, Base.field?]
    cases d.field? field.name with
    | none => rfl
    | some s => cases s <;> rfl
  | _ => rfl

theorem nodes_select {base : Base} {position : Position} {field : Ident} {n : Nat}
    (mem : n ∈ (select base position field).nodes) : n = field.node := by
  simp only [Findings.nodes, idents_select, bad_select, dots_select, List.mem_append] at mem
  cases found : base.field? field.name with
  | none => simpa [found] using mem
  | some s => cases s <;> simpa [found] using mem

theorem nodes_use {env : Env} {id : Ident} {n : Nat} (mem : n ∈ (use env id).nodes) :
    n = id.node := by
  rw [use] at mem
  cases found : env.find id.name with
  | none => simp [found, Findings.nodes, Findings.report] at mem
  | some s => simpa [found, Findings.nodes, Findings.bind] using mem

mutual

/-- Nothing is found out about identifiers that stand elsewhere. -/
theorem nodes_exp {env : Env} {n : Nat} : (e : Exp) → n ∈ (exp env e).nodes → n ∈ nodes e.idents
  | .int _ _ _, mem => mem
  | .string _ _, mem => mem
  | .bool _ _, mem => mem
  | .ident id, mem => by simp [nodes, Exp.idents, nodes_use mem]
  | .dot base field, mem => by
    rw [Exp.idents, nodes_append, List.mem_append]
    rcases Findings.mem_nodes_append.mp mem with first | second
    · exact .inl (nodes_exp base first)
    · exact .inr (by simp [nodes, nodes_select second])
  | .assign target value, mem => by
    rw [Exp.idents, nodes_append, List.mem_append]
    rcases Findings.mem_nodes_append.mp mem with first | second
    · exact .inl (nodes_exp target first)
    · exact .inr (nodes_exp value second)
  | .call callee args, mem => by
    rcases Findings.mem_nodes_append.mp mem with first | second
    · simp [nodes, Exp.idents, nodes_use first]
    · exact List.mem_cons_of_mem _ (nodes_exps args second)
  | .unary _ operand, mem => nodes_exp operand mem
  | .binary _ left right, mem => by
    rw [Exp.idents, nodes_append, List.mem_append]
    rcases Findings.mem_nodes_append.mp mem with first | second
    · exact .inl (nodes_exp left first)
    · exact .inr (nodes_exp right second)

theorem nodes_exps {env : Env} {n : Nat} :
    (es : List Exp) → n ∈ (exps env es).nodes → n ∈ nodes (Exp.identsAll es)
  | [], mem => mem
  | e :: es, mem => by
    rw [Exp.identsAll, nodes_append, List.mem_append]
    rcases Findings.mem_nodes_append.mp mem with first | second
    · exact .inl (nodes_exp e first)
    · exact .inr (nodes_exps es second)

end

/-- Right after an expression the resolver knows of it what there is to know. -/
theorem knows_exp {env : Env} {r : Resolver} {e : Exp} (distinct : (nodes e.idents).Nodup)
    (fresh : ∀ n ∈ nodes e.idents, n ∉ r.nodes) : Knows env (r.extend env (exp env e)) e := by
  cases e with
  | ident id =>
    have absent : id.node ∉ r.bindings.idents.entries.map Prod.fst := by
      intro known
      exact fresh id.node (by simp [nodes, Exp.idents]) (by simp [Resolver.nodes, known])
    change (r.bindings.idents.entries ++ (use env id).idents).lookup id.node = env.find id.name
    rw [List.lookup_append, Table.lookup_eq_none.mpr absent, Option.none_or, use]
    cases env.find id.name with
    | none => rfl
    | some s => simp [Findings.bind]
  | dot inner field =>
    rw [Exp.idents, nodes_append] at distinct fresh
    have apart : field.node ∉ nodes inner.idents := by
      intro mem
      exact (List.disjoint_of_nodup_append distinct) mem (by simp [nodes])
    have unknown : field.node ∉ (exp env inner).nodes := by
      intro mem
      exact apart (nodes_exp inner mem)
    have new : field.node ∉ r.nodes := fresh field.node (by simp [nodes])
    simp only [Findings.nodes, Resolver.nodes, List.mem_append, not_or] at unknown new
    have bad : field.node ∈ (r.extend env (exp env (.dot inner field))).badDots ↔
        (Base.of env inner).field? field.name = none := by
      simp only [Resolver.extend, exp, Findings.bad_append, bad_select, List.mem_append,
        List.mem_reverse, unknown, new]
      cases (Base.of env inner).field? field.name <;> simp
    have dots : (r.extend env (exp env (.dot inner field))).bindings.structOf field =
        match (Base.of env inner).field? field.name with
        | some (.structVar _ _ d) => some d
        | _ => none := by
      change (r.bindings.dots.entries ++ ((exp env inner).dots
        ++ (select (.of env inner) inner.position field).dots)).lookup field.node = _
      rw [List.lookup_append, List.lookup_append, Table.lookup_eq_none.mpr new.1.2,
        Table.lookup_eq_none.mpr unknown.1.2, dots_select]
      cases (Base.of env inner).field? field.name with
      | none => rfl
      | some s => cases s <;> simp
    rw [Knows]
    cases found : (Base.of env inner).field? field.name with
    | none => simpa [found] using bad
    | some s => cases s <;> simp_all
  | _ => trivial

theorem yields_dot {env : Env} {base : Exp} {field : Ident}
    (distinct : (nodes (Exp.dot base field).idents).Nodup)
    (inner : Yields (Resolve.exp base) (nodes base.idents) env env () (exp env base)) :
    Yields (Resolve.exp (.dot base field)) (nodes (Exp.dot base field).idents) env env ()
      (exp env (.dot base field)) := by
  rw [Exp.idents, nodes_append] at distinct
  obtain ⟨left, _, apart⟩ := List.nodup_append'.mp distinct
  constructor
  · intro n mem
    exact nodes_exp (.dot base field) mem
  · rw [exp, Findings.idents_append, List.map_append]
    refine List.nodup_append'.mpr ⟨inner.once, ?_, ?_⟩
    · rw [idents_select]
      cases (Base.of env base).field? field.name <;> simp
    · intro n old new
      have here : n = field.node := nodes_select (Findings.mem_nodes_of_ident new)
      exact apart (inner.within n (Findings.mem_nodes_of_ident old)) (by simp [nodes, here])
  · rw [Exp.idents, nodes_append]
    intro r stack fresh
    have old : ∀ n ∈ nodes base.idents, n ∉ r.nodes := by
      intro n mem
      exact fresh n (List.mem_append_left _ mem)
    have new : field.node ∉ (r.extend env (exp env base)).nodes := by
      intro known
      rcases Resolver.mem_nodes_extend.mp known with before | now
      · exact fresh field.node (by simp [nodes]) before
      · exact apart (inner.within _ now) (by simp [nodes])
    have taken := inner.runs r stack old
    have selected := @run_select env _ base field rfl (knows_exp left old) new
    rw [Resolver.extend_extend] at selected
    rw [Resolve.exp, run_bind taken]
    exact selected

mutual

theorem yields_exp {env : Env} (inside : env ≠ []) : (e : Exp) → (nodes e.idents).Nodup →
    Yields (Resolve.exp e) (nodes e.idents) env env () (exp env e)
  | .int _ _ _, _ => .pure env ()
  | .string _ _, _ => .pure env ()
  | .bool _ _, _ => .pure env ()
  | .ident id, _ => yields_use inside id
  | .dot base field, distinct => by
    have left := distinct
    rw [Exp.idents, nodes_append] at left
    exact yields_dot distinct (yields_exp inside base left.of_append_left)
  | .assign target value, distinct => by
    rw [Exp.idents, nodes_append] at distinct ⊢
    obtain ⟨left, right, apart⟩ := List.nodup_append'.mp distinct
    exact (yields_exp inside target left).seq (yields_exp inside value right) apart
  | .call callee args, distinct => by
    have split := List.nodup_cons.mp distinct
    exact (yields_use inside callee).seq (yields_exps inside args split.2) (by simpa using split.1)
  | .unary _ operand, distinct => yields_exp inside operand distinct
  | .binary _ left right, distinct => by
    rw [Exp.idents, nodes_append] at distinct ⊢
    obtain ⟨first, second, apart⟩ := List.nodup_append'.mp distinct
    exact (yields_exp inside left first).seq (yields_exp inside right second) apart

theorem yields_exps {env : Env} (inside : env ≠ []) : (es : List Exp) →
    (nodes (Exp.identsAll es)).Nodup →
    Yields (Resolve.exps es) (nodes (Exp.identsAll es)) env env () (exps env es)
  | [], _ => .pure env ()
  | e :: es, distinct => by
    rw [Exp.identsAll, nodes_append] at distinct ⊢
    obtain ⟨first, second, apart⟩ := List.nodup_append'.mp distinct
    exact (yields_exp inside e first).seq (yields_exps inside es second) apart

end

end Cinder.Scoping
