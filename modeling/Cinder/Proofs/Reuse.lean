import Cinder.Proofs.Growth.Walk
import Cinder.Proofs.Rules.Programs
import Cinder.Proofs.Tape.Source

/-!
# A resolver that is used again

A resolver may be kept and asked to resolve program after program, also one that it has seen before,
and to check types against what it has bound so far. Resolving may end in a fault at any point of a
program and leaves the state as it was there. Main result: however such a session goes, nothing that
was bound is lost or changed, no scope is lost, and the next request only adds to what is there.
-/
namespace Cinder

/-- What a resolver is asked to do. -/
inductive Request where
  | resolve (p : Program)
  | check (p : Program)

namespace Request

def program : Request → Program
  | resolve p => p
  | check p => p

/-- The program was read from a source, with its identifiers numbered from anywhere. -/
def IsRead (request : Request) : Prop :=
  ∃ first source, (Text.parseFrom first source).program = some request.program

theorem IsRead.named {request : Request} (read : request.IsRead) :
    ∀ id ∈ request.program.idents, id.name ≠ [] := by
  obtain ⟨first, source, parsed⟩ := read
  exact (Program.proper_of_parseFrom parsed).named

end Request

namespace Resolver

/-- The state after a request, and the fault that it ended in. -/
def answer (r : Resolver) : Request → Resolver × Option Fault
  | .resolve p =>
    match r.program p with
    | .ok _ s => (s, none)
    | .error fault s => (s, some fault)
  | .check p =>
    ({ r with diagnostics := r.diagnostics ++ (p.check r.bindings).diagnostics }, none)

/-- The state after some requests, whether or not they ended in faults. -/
def after (r : Resolver) (requests : List Request) : Resolver :=
  requests.foldl (fun s request => (s.answer request).1) r

/-- A later state still has every binding and every scope. -/
structure Keeps (r s : Resolver) : Prop where
  symbols : ∀ id symbol, r.bindings.symbolOf id = some symbol → s.bindings.symbolOf id = some symbol
  structs : ∀ field d, r.bindings.structOf field = some d → s.bindings.structOf field = some d
  size : r.bindings.size ≤ s.bindings.size
  depth : r.scopes.depth ≤ s.scopes.depth

/-- What a request may do to the state. Resolving touches the innermost frame and those that it
pushes itself, and fails for a rebinding only. Checking touches neither scopes nor bindings. -/
def Honours (r : Resolver) : Request → Resolver × Option Fault → Prop
  | .resolve _, outcome =>
    (∃ n, r.scopes.Grows n outcome.1.scopes) ∧
      (outcome.2 = none → outcome.1.scopes.depth = r.scopes.depth) ∧
      ∀ fault, outcome.2 = some fault → fault.isRebinding = true
  | .check _, outcome =>
    outcome.1.scopes = r.scopes ∧ outcome.1.bindings = r.bindings ∧ outcome.2 = none

theorem Grows.keeps {r s : Resolver} {n : Nat} (grown : r.Grows n s) : r.Keeps s := by
  constructor
  · intro id symbol found
    exact grown.idents.find? found
  · intro field d found
    exact grown.dots.find? found
  · exact grown.idents.size_le
  · rw [grown.scopes.depth_eq]
    omega

variable {r : Resolver}

/-- One request, whatever it ends in. -/
theorem grows_answer (inside : r.scopes.frames ≠ []) (request : Request)
    (named : ∀ id ∈ request.program.idents, id.name ≠ []) :
    ∃ n, r.Grows n (r.answer request).1 ∧ ((r.answer request).2 = none → n = 0) ∧
      ∀ fault, (r.answer request).2 = some fault → fault.isRebinding = true := by
  cases request with
  | check p =>
    refine ⟨0, ⟨.refl inside, .refl _, .refl _⟩, fun _ => rfl, ?_⟩
    rintro fault ⟨⟩
  | resolve p =>
    have allowed : r.Allows 0 (r.program p) := Resolve.steady_decls p.decls named r inside
    rw [answer]
    cases result : r.program p with
    | ok a s =>
      rw [result] at allowed
      refine ⟨0, allowed, fun _ => rfl, ?_⟩
      rintro fault ⟨⟩
    | error fault s =>
      rw [result] at allowed
      obtain ⟨rebinding, n, grown⟩ := allowed
      refine ⟨n, grown, ?_, ?_⟩
      · rintro ⟨⟩
      · rintro _ ⟨⟩
        exact rebinding

theorem honours_answer (inside : r.scopes.frames ≠ []) (request : Request)
    (named : ∀ id ∈ request.program.idents, id.name ≠ []) :
    r.Honours request (r.answer request) := by
  cases request with
  | check p => exact ⟨rfl, rfl, rfl⟩
  | resolve p =>
    obtain ⟨n, grown, returned, rebinding⟩ := grows_answer inside (.resolve p) named
    refine ⟨⟨n, grown.scopes⟩, ?_, rebinding⟩
    intro normal
    rw [grown.scopes.depth_eq, returned normal, Nat.add_zero]

/-- Any number of requests. -/
theorem grows_after (inside : r.scopes.frames ≠ []) (requests : List Request)
    (named : ∀ request ∈ requests, ∀ id ∈ request.program.idents, id.name ≠ []) :
    ∃ n, r.Grows n (r.after requests) := by
  induction requests generalizing r with
  | nil => exact ⟨0, .refl inside⟩
  | cons request requests ih =>
    obtain ⟨first, others⟩ := List.forall_mem_cons.mp named
    obtain ⟨n, grown, -⟩ := grows_answer inside request first
    obtain ⟨m, more⟩ := ih grown.scopes.inside others
    exact ⟨m + n, grown.trans more⟩

/-- At every point of a session there is a scope, all that was bound up to there stays bound to the
same symbols through whatever follows, no scope is lost, and the next request keeps to its frame. -/
theorem session_keeps (done later : List Request)
    (read : ∀ request ∈ done ++ later, request.IsRead) :
    let r := initial.after done
    1 ≤ r.scopes.depth ∧ r.Keeps (initial.after (done ++ later)) ∧
      ∀ request, request.IsRead → r.Honours request (r.answer request) := by
  intro r
  have named := fun request mem => (read request mem).named
  obtain ⟨early, late⟩ := List.forall_mem_append.mp named
  obtain ⟨n, start⟩ := grows_after (r := initial) (by simp [initial, Scopes.initial]) done early
  obtain ⟨m, rest⟩ := grows_after start.scopes.inside later late
  refine ⟨List.length_pos_of_ne_nil start.scopes.inside, ?_, ?_⟩
  · rw [after, List.foldl_append]
    exact rest.keeps
  · intro request next
    exact honours_answer start.scopes.inside request next.named

/-- A function is resolved, resolved again, checked, and resolved once more. The second walk stops
at the variable in the function and leaves its scope open, and so the last one stops at its name. -/
theorem session_keeps_open_scope :
    ∃ p, (Text.parse "void f() \x7b int x; x = 1; \x7d").program = some p ∧
      let r := initial.after [.resolve p]
      let s := initial.after [.resolve p, .resolve p, .check p]
      (r.scopes.depth = 1 ∧ s.scopes.depth = 2 ∧ r.bindings.size = 3) ∧
        (s.answer (.resolve p)).2.isSome = true ∧
        r.Keeps s ∧ s.Honours (.resolve p) (s.answer (.resolve p)) := by
  obtain ⟨p, parsed, open', failed⟩ : ∃ p,
      (Text.parse "void f() \x7b int x; x = 1; \x7d").program = some p ∧
      ((initial.after [.resolve p]).scopes.depth = 1 ∧
        (initial.after [.resolve p, .resolve p, .check p]).scopes.depth = 2 ∧
        (initial.after [.resolve p]).bindings.size = 3) ∧
      ((initial.after [.resolve p, .resolve p, .check p]).answer (.resolve p)).2.isSome = true :=
    Text.exists_of_parseOnTape (by decide +kernel)
  have read : ∀ request ∈ [Request.resolve p, .resolve p, .check p], request.IsRead := by
    intro request mem
    refine ⟨0, _, parsed.trans (congrArg some ?_)⟩
    simp only [List.mem_cons, List.not_mem_nil, or_false] at mem
    rcases mem with rfl | rfl | rfl <;> rfl
  refine ⟨p, parsed, open', failed, ?_, ?_⟩
  · exact (session_keeps [.resolve p] [.resolve p, .check p] read).2.1
  · exact (session_keeps [.resolve p, .resolve p, .check p] [] read).2.2 (.resolve p)
      (read _ (by simp))

end Resolver

end Cinder
