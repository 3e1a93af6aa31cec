import Cinder.Proofs.Scoping
import Cinder.Proofs.Table
import Cinder.Resolution
import Mathlib.Tactic.Tauto

/-!
# Steps of the resolver

A step of the resolver *yields* findings if, from every state in which the identifiers that it looks
at are still unknown, it runs without a fault and adds exactly these findings to the state. Steps that
look at different identifiers can be taken one after the other.
-/
namespace Cinder

namespace Scoping

namespace Findings

@[simp] theorem idents_append (f g : Findings) : (f ++ g).idents = f.idents ++ g.idents := rfl

@[simp] theorem dots_append (f g : Findings) : (f ++ g).dots = f.dots ++ g.dots := rfl

@[simp] theorem bad_append (f g : Findings) : (f ++ g).bad = f.bad ++ g.bad := rfl

@[simp] theorem diagnostics_append (f g : Findings) :
    (f ++ g).diagnostics = f.diagnostics ++ g.diagnostics := rfl

@[simp] theorem append_nothing (f : Findings) : f ++ nothing = f := by
  change Findings.mk _ _ _ _ = f
  simp [nothing]

@[simp] theorem nothing_append (f : Findings) : nothing ++ f = f := rfl

theorem append_assoc (f g h : Findings) : f ++ g ++ h = f ++ (g ++ h) := by
  change Findings.mk _ _ _ _ = Findings.mk _ _ _ _
  simp

/-- The identifiers that something is known about. -/
def nodes (f : Findings) : List Nat := f.idents.map Prod.fst ++ f.dots.map Prod.fst ++ f.bad

theorem mem_nodes_append {n : Nat} {f g : Findings} :
    n ∈ (f ++ g).nodes ↔ n ∈ f.nodes ∨ n ∈ g.nodes := by
  simp only [nodes, idents_append, dots_append, bad_append, List.map_append, List.mem_append]
  tauto

theorem mem_nodes_of_ident {n : Nat} {f : Findings} (mem : n ∈ f.idents.map Prod.fst) :
    n ∈ f.nodes :=
  List.mem_append_left _ (List.mem_append_left _ mem)

end Findings

open Findings (nothing report)

/-- An environment as a stack. -/
def Env.scopes (env : Env) : Scopes := ⟨env⟩

end Scoping

namespace Resolver

open Scoping (Env Findings)

/-- A resolver that also knows these findings, and whose stack is this environment. -/
def extend (r : Resolver) (env : Env) (f : Findings) : Resolver where
  scopes := env.scopes
  bindings := ⟨⟨r.bindings.idents.entries ++ f.idents⟩, ⟨r.bindings.dots.entries ++ f.dots⟩⟩
  badDots := f.bad.reverse ++ r.badDots
  diagnostics := r.diagnostics ++ f.diagnostics

theorem extend_extend (r : Resolver) (env env' : Env) (f g : Findings) :
    (r.extend env f).extend env' g = r.extend env' (f ++ g) := by
  simp [extend]

theorem extend_nothing {r : Resolver} {env : Env} (stack : r.scopes = env.scopes) :
    r.extend env .nothing = r := by
  obtain ⟨scopes, bindings, badDots, diagnostics⟩ := r
  subst stack
  simp [extend, Findings.nothing]

theorem extend_eq {r : Resolver} {env : Env} {f : Findings} (stack : r.scopes = env.scopes) :
    r.extend env f =
      { r with
        bindings :=
          ⟨⟨r.bindings.idents.entries ++ f.idents⟩, ⟨r.bindings.dots.entries ++ f.dots⟩⟩
        badDots := f.bad.reverse ++ r.badDots
        diagnostics := r.diagnostics ++ f.diagnostics } := by
  rw [extend, stack]

/-- The identifiers that a resolver knows something about. -/
def nodes (r : Resolver) : List Nat :=
  r.bindings.idents.entries.map Prod.fst ++ r.bindings.dots.entries.map Prod.fst ++ r.badDots

theorem mem_nodes_extend {n : Nat} {r : Resolver} {env : Env} {f : Findings} :
    n ∈ (r.extend env f).nodes ↔ n ∈ r.nodes ∨ n ∈ f.nodes := by
  simp only [nodes, extend, Findings.nodes, List.map_append, List.mem_append, List.mem_reverse]
  tauto

end Resolver

namespace Resolve

theorem run_query {α : Type} (look : Scopes → Except Fault α) (r : Resolver) :
    query look r = match look r.scopes with
      | .ok a => .ok a r
      | .error fault => .error fault r := by
  change (match look r.scopes with
    | .ok a => (return a : Resolve α)
    | .error fault => throw fault) r = _
  cases look r.scopes <;> rfl

theorem run_updateScopes (f : Scopes → Except Fault Scopes) (r : Resolver) :
    updateScopes f r = match f r.scopes with
      | .ok scopes => .ok () { r with scopes := scopes }
      | .error fault => .error fault r := by
  change (match f r.scopes with
    | .ok scopes => ((modify fun r : Resolver => { r with scopes := scopes }) : Resolve Unit)
    | .error fault => throw fault) r = _
  cases f r.scopes <;> rfl

theorem run_updateBindings (f : Bindings → Except Fault Bindings) (r : Resolver) :
    updateBindings f r = match f r.bindings with
      | .ok bindings => .ok () { r with bindings := bindings }
      | .error fault => .error fault r := by
  change (match f r.bindings with
    | .ok bindings => ((modify fun r : Resolver => { r with bindings := bindings }) : Resolve Unit)
    | .error fault => throw fault) r = _
  cases f r.bindings <;> rfl

end Resolve

namespace Scoping

open Findings (nothing report)

/-- A step that looks at these identifiers takes one environment to another, returns a result and
adds findings. It binds no identifier twice. -/
structure Yields {α : Type} (step : Resolve α) (ids : List Nat) (before after : Env) (a : α)
    (f : Findings) : Prop where
  within : ∀ n ∈ f.nodes, n ∈ ids
  once : (f.idents.map Prod.fst).Nodup
  runs : ∀ r : Resolver, r.scopes = before.scopes → (∀ n ∈ ids, n ∉ r.nodes) →
    step r = .ok a (r.extend after f)

namespace Yields

variable {α β : Type} {ids more : List Nat} {env env' env'' : Env} {a : α} {b : β}
  {f g : Findings}

theorem widen {step : Resolve α} (h : Yields step ids env env' a f) (sub : ∀ n ∈ ids, n ∈ more) :
    Yields step more env env' a f := by
  constructor
  · intro n mem
    exact sub n (h.within n mem)
  · exact h.once
  · intro r stack fresh
    exact h.runs r stack fun n mem => fresh n (sub n mem)

theorem pure (env : Env) (a : α) : Yields (Pure.pure a) [] env env a nothing := by
  constructor
  · intro n mem
    cases mem
  · exact List.nodup_nil
  · intro r stack _
    rw [Resolver.extend_nothing stack]
    rfl

/-- A step leaves the identifiers unknown that it does not look at. -/
theorem leaves_fresh {step : Resolve α} (h : Yields step ids env env' a f)
    (apart : ids.Disjoint more) {r : Resolver} (fresh : ∀ n ∈ more, n ∉ r.nodes) :
    ∀ n ∈ more, n ∉ (r.extend env' f).nodes := by
  intro n mem known
  rcases Resolver.mem_nodes_extend.mp known with old | new
  · exact fresh n mem old
  · exact apart (h.within n new) mem

/-- Two steps that look at different identifiers. -/
theorem bind {step : Resolve α} {next : α → Resolve β} (first : Yields step ids env env' a f)
    (second : Yields (next a) more env' env'' b g) (apart : ids.Disjoint more) :
    Yields (step >>= next) (ids ++ more) env env'' b (f ++ g) := by
  constructor
  · intro n mem
    rw [List.mem_append]
    rcases Findings.mem_nodes_append.mp mem with left | right
    · exact .inl (first.within n left)
    · exact .inr (second.within n right)
  · rw [Findings.idents_append, List.map_append]
    refine List.nodup_append'.mpr ⟨first.once, second.once, ?_⟩
    intro n left right
    exact apart (first.within n (Findings.mem_nodes_of_ident left))
      (second.within n (Findings.mem_nodes_of_ident right))
  · intro r stack fresh
    have taken := first.runs r stack fun n mem => fresh n (List.mem_append_left _ mem)
    have still := first.leaves_fresh apart fun n mem => fresh n (List.mem_append_right _ mem)
    have rest := second.runs (r.extend env' f) rfl still
    rw [Resolver.extend_extend] at rest
    change EStateM.bind step next r = _
    rw [EStateM.bind, taken]
    exact rest

/-- A step before which nothing is found. -/
theorem after {step : Resolve α} {next : α → Resolve β} (first : Yields step [] env env' a nothing)
    (second : Yields (next a) ids env' env'' b f) : Yields (step >>= next) ids env env'' b f := by
  simpa using first.bind second (by simp)

/-- A step after which nothing is found. -/
theorem before {step : Resolve α} {next : α → Resolve β} (first : Yields step ids env env' a f)
    (second : Yields (next a) [] env' env'' b nothing) : Yields (step >>= next) ids env env'' b f := by
  simpa using first.bind second (by simp)

/-- Without a result that matters. -/
theorem seq {step : Resolve α} {next : Resolve β} (first : Yields step ids env env' a f)
    (second : Yields next more env' env'' b g) (apart : ids.Disjoint more) :
    Yields (step >>= fun _ => next) (ids ++ more) env env'' b (f ++ g) :=
  first.bind second apart

theorem report (env : Env) (position : Position) (problem : Problem) :
    Yields (Resolve.report position problem) ids env env () (.report position problem) := by
  constructor
  · intro n mem
    cases mem
  · exact List.nodup_nil
  · intro r stack _
    rw [Resolver.extend_eq stack]
    simp [Findings.report]
    rfl

theorem markBad (env : Env) (field : Ident) :
    Yields (Resolve.markBad field) [field.node] env env () { bad := [field.node] } := by
  constructor
  · intro n mem
    exact mem
  · exact List.nodup_nil
  · intro r stack _
    rw [Resolver.extend_eq stack]
    simp
    rfl

theorem query {look : Scopes → Except Fault α} (found : look env.scopes = .ok a) :
    Yields (Resolve.query look) [] env env a nothing := by
  constructor
  · intro n mem
    cases mem
  · exact List.nodup_nil
  · intro r stack _
    rw [Resolver.extend_nothing stack, Resolve.run_query, stack, found]

theorem updateScopes {f : Scopes → Except Fault Scopes} (done : f env.scopes = .ok env'.scopes) :
    Yields (Resolve.updateScopes f) [] env env' () nothing := by
  constructor
  · intro n mem
    cases mem
  · exact List.nodup_nil
  · intro r stack _
    rw [Resolve.run_updateScopes, stack, done]
    simp [Resolver.extend, nothing]

/-- Binds an identifier about which nothing is known. -/
theorem bindIdent (env : Env) (id : Ident) (s : Symbol) :
    Yields (Resolve.bind id s) [id.node] env env () (.bind id s) := by
  constructor
  · intro n mem
    exact mem
  · exact List.nodup_singleton id.node
  · intro r stack fresh
    have absent : id.node ∉ r.bindings.idents.entries.map Prod.fst := by
      intro known
      exact fresh id.node (by simp) (by simp [Resolver.nodes, known])
    have bound : r.bindings.bind id s =
        .ok ⟨⟨r.bindings.idents.entries ++ [(id.node, s)]⟩, r.bindings.dots⟩ := by
      have free : r.bindings.idents.contains id.node = false := Table.contains_eq_false.mpr absent
      rw [Bindings.bind, free, if_neg (by simp), Table.insert, Table.put_of_not_mem absent]
    rw [Resolve.bind, Resolve.run_updateBindings, bound, Resolver.extend_eq stack]
    simp [Findings.bind]

end Yields

end Scoping

end Cinder
