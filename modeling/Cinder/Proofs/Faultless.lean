import Cinder.Proofs.Rules.Programs
import Cinder.Proofs.Tape.Source

/-!
# Analysis without faults

The resolver walks through a program by procedures that call each other. Whenever one of them is
entered in the analysis of a program, the identifiers of the part that it walks through are still
unknown and the stack is the environment of that part. So none of the calls ends in a fault, and each
one gives the stack back: a block as it was, a function with its own name in the file scope at most.
-/
namespace Cinder

namespace Scoping

/-! ## Calls -/

/-- A part of a program that the resolver walks through in one call. -/
inductive Part where
  | decls (ds : List Decl)
  | fn (d : FnDecl)
  | block (b : Block)
  | stmts (ss : List Stmt)
  | stmt (s : Stmt)

namespace Part

def idents : Part → List Ident
  | decls ds => ds.flatMap Decl.idents
  | fn d => (Decl.fn d).idents
  | block b => b.idents
  | stmts ss => Stmt.identsAll ss
  | stmt s => s.idents

/-- Declarations of the file are resolved in the file scope alone. -/
def Fits : Part → Env → Prop
  | decls _, env => ∃ globals, env = [globals]
  | fn _, env => ∃ globals, env = [globals]
  | _, env => env ≠ []

end Part

/-- What is done in a function before its statements are resolved. -/
def fnEntry (d : FnDecl) : Resolve Unit := do
  let accepted ← Resolve.fnName d
  Resolve.resultType d.resultType
  Resolve.updateScopes fun s => .ok s.enter
  let params ← Resolve.formals d.formals
  if accepted then Resolve.completeFn d params
  Resolve.varDecls d.body.decls

/-- What is done in a block before its statements are resolved. -/
def blockEntry (decls : List VarDecl) : Resolve Unit := do
  Resolve.updateScopes fun s => .ok s.enter
  Resolve.varDecls decls

/-- In the analysis of a program the resolver is called on a part in a state. A call makes other calls
in the states that its steps up to there lead to. -/
inductive Called (p : Program) : Part → Resolver → Prop where
  | program : Called p (.decls p.decls) .initial
  | fn {d ds r} (call : Called p (.decls (.fn d :: ds)) r) : Called p (.fn d) r
  | rest {d ds r s} (call : Called p (.decls (d :: ds)) r) (done : Resolve.decl d r = .ok () s) :
      Called p (.decls ds) s
  | fnBody {d r s} (call : Called p (.fn d) r) (done : fnEntry d r = .ok () s) :
      Called p (.stmts d.body.stmts) s
  | blockBody {decls body r s} (call : Called p (.block (.mk decls body)) r)
      (done : blockEntry decls r = .ok () s) : Called p (.stmts body) s
  | stmt {c cs r} (call : Called p (.stmts (c :: cs)) r) : Called p (.stmt c) r
  | others {c cs r s} (call : Called p (.stmts (c :: cs)) r) (done : Resolve.stmt c r = .ok () s) :
      Called p (.stmts cs) s
  | ifThen {condition body r s} (call : Called p (.stmt (.ifThen condition body)) r)
      (done : Resolve.exp condition r = .ok () s) : Called p (.block body) s
  | yes {condition yes no r s} (call : Called p (.stmt (.ifElse condition yes no)) r)
      (done : Resolve.exp condition r = .ok () s) : Called p (.block yes) s
  | no {condition yes no r s} (call : Called p (.stmt (.ifElse condition yes no)) r)
      (done : (do
        Resolve.exp condition
        Resolve.block yes) r = .ok () s) : Called p (.block no) s
  | whileLoop {condition body r s} (call : Called p (.stmt (.whileLoop condition body)) r)
      (done : Resolve.exp condition r = .ok () s) : Called p (.block body) s
  | repeatLoop {count body r s} (call : Called p (.stmt (.repeatLoop count body)) r)
      (done : Resolve.exp count r = .ok () s) : Called p (.block body) s

/-! ## What every call finds -/

/-- Identifiers that are told apart, have a name and are still unknown. -/
structure Pending (ids : List Ident) (r : Resolver) : Prop where
  proper : Proper ids
  fresh : ∀ n ∈ nodes ids, n ∉ r.nodes

namespace Pending

variable {ids more : List Ident} {r : Resolver}

theorem left (pending : Pending (ids ++ more) r) : Pending ids r := by
  refine ⟨pending.proper.append.1, fun n mem => pending.fresh n ?_⟩
  rw [nodes_append]
  exact List.mem_append_left _ mem

theorem right (pending : Pending (ids ++ more) r) : Pending more r := by
  refine ⟨pending.proper.append.2.1, fun n mem => pending.fresh n ?_⟩
  rw [nodes_append]
  exact List.mem_append_right _ mem

theorem perm (pending : Pending ids r) (same : ids.Perm more) : Pending more r := by
  refine ⟨pending.proper.perm same, fun n mem => pending.fresh n ?_⟩
  exact (same.map Ident.node).mem_iff.mpr mem

end Pending

/-- The resolver can walk through a part: its identifiers are pending, and the stack is an
environment of the part. -/
structure Ready (part : Part) (env : Env) (r : Resolver) : Prop where
  pending : Pending part.idents r
  stack : r.scopes = env.scopes
  fits : part.Fits env

/-- Once steps have been taken that look at other identifiers, the resolver is ready for what comes
after them. -/
theorem Ready.after {α : Type} {step : Resolve α} {ids : List Ident} {env env' : Env} {a a' : α}
    {f : Findings} {r s : Resolver} {part : Part} (first : Yields step (nodes ids) env env' a f)
    (pending : Pending (ids ++ part.idents) r) (stack : r.scopes = env.scopes)
    (done : step r = .ok a' s) (fits : part.Fits env') : Ready part env' s := by
  obtain ⟨_, later, apart⟩ := pending.proper.append
  have taken := first.runs r stack pending.left.fresh
  rw [taken] at done
  cases done
  exact ⟨⟨later, first.leaves_fresh apart pending.right.fresh⟩, rfl, fits⟩

theorem Ready.governed {condition : Exp} {body : Block} {env : Env} {r s : Resolver}
    (pending : Pending (condition.idents ++ body.idents) r) (stack : r.scopes = env.scopes)
    (inside : env ≠ []) (done : Resolve.exp condition r = .ok () s) : Ready (.block body) env s :=
  .after (yields_exp inside condition pending.left.proper.distinct) pending stack done inside

theorem fnEntry_eq_heading (d : FnDecl) :
    fnEntry d = (heading d >>= completion d) >>= fun _ => Resolve.varDecls d.body.decls := by
  simp only [fnEntry, heading, bind_assoc, pure_bind]
  refine bind_congr fun accepted => bind_congr fun _ => bind_congr fun _ => bind_congr fun _ => ?_
  cases accepted <;> simp [completion]

theorem Ready.fnBody {d : FnDecl} {globals : Scope} {r s : Resolver}
    (ready : Ready (.fn d) [globals] r) (done : fnEntry d r = .ok () s) :
    ∃ env, Ready (.stmts d.body.stmts) env s := by
  rw [fnEntry_eq_heading] at done
  obtain ⟨type, name, formals, ⟨decls, body⟩⟩ := d
  have pending := ready.pending.perm (fnIdents_perm _)
  rw [fnIdents, Block.idents, ← List.append_assoc] at pending
  obtain ⟨head, inner, apart⟩ := pending.left.proper.append
  have headed := @yields_headed globals ⟨type, name, formals, ⟨decls, body⟩⟩ head
  have steps := headed.seq (yields_varDecls decls inner) apart
  rw [← nodes_append] at steps
  exact ⟨_, .after steps pending ready.stack done (List.cons_ne_nil _ _)⟩

theorem ready_of_called {p : Program} (proper : Proper p.idents) {part : Part} {r : Resolver}
    (call : Called p part r) : ∃ env, Ready part env r := by
  induction call with
  | program =>
    refine ⟨[.empty], ⟨proper, ?_⟩, rfl, .empty, rfl⟩
    simp [Resolver.nodes, Resolver.initial, Bindings.empty, Table.empty]
  | fn _ ih =>
    obtain ⟨env, pending, stack, fits⟩ := ih
    rw [Part.idents, List.flatMap_cons] at pending
    exact ⟨env, pending.left, stack, fits⟩
  | rest _ done ih =>
    obtain ⟨env, pending, stack, globals, rfl⟩ := ih
    rw [Part.idents, List.flatMap_cons] at pending
    exact ⟨_, .after (yields_decl _ pending.left.proper) pending stack done ⟨_, rfl⟩⟩
  | fnBody _ done ih =>
    obtain ⟨env, ready⟩ := ih
    obtain ⟨globals, rfl⟩ := ready.fits
    exact ready.fnBody done
  | blockBody _ done ih =>
    obtain ⟨env, pending, stack, _⟩ := ih
    rw [Part.idents, Block.idents] at pending
    have declared := @yields_varDecls env .empty _ pending.left.proper
    exact ⟨_, .after ((yields_enter env).after declared) pending stack done (List.cons_ne_nil _ _)⟩
  | stmt _ ih =>
    obtain ⟨env, pending, stack, inside⟩ := ih
    exact ⟨env, pending.left, stack, inside⟩
  | others _ done ih =>
    obtain ⟨env, pending, stack, inside⟩ := ih
    exact ⟨env, .after (yields_stmt inside _ pending.left.proper) pending stack done inside⟩
  | ifThen _ done ih | whileLoop _ done ih | repeatLoop _ done ih =>
    obtain ⟨env, pending, stack, inside⟩ := ih
    exact ⟨env, .governed pending stack inside done⟩
  | yes _ done ih =>
    obtain ⟨env, pending, stack, inside⟩ := ih
    exact ⟨env, .governed pending.left stack inside done⟩
  | no _ done ih =>
    obtain ⟨env, pending, stack, inside⟩ := ih
    rw [Part.idents, Stmt.idents] at pending
    obtain ⟨first, second, apart⟩ := pending.left.proper.append
    have steps := (yields_exp inside _ first.distinct).seq (yields_block _ second) apart
    rw [← nodes_append] at steps
    exact ⟨env, .after steps pending stack done inside⟩

end Scoping

/-! ## Programs -/

open Scoping (Called)

/-- The analysis of a program ends with the file scope alone on the stack. In the course of it, every
block leaves the stack as it was, and every function does so up to its own name in the file scope. -/
structure Program.Faultless (p : Program) : Prop where
  ends : ∃ a, p.analyze = .ok a ∧ a.scopes.depth = 1
  blocks : ∀ b r, Called p (.block b) r →
    ∃ s, Resolve.block b r = .ok () s ∧ s.scopes.frames = r.scopes.frames
  functions : ∀ d r, Called p (.fn d) r →
    ∃ s, Resolve.fnDecl d r = .ok () s ∧
      (s.scopes.frames = r.scopes.frames ∨
        ∃ globals params, r.scopes.frames = [globals] ∧ globals.find? d.name.name = none ∧
          s.scopes.frames =
            [globals.insert d.name.name (.function d.name.name d.resultType.type params)])

theorem Program.faultless_of_proper {p : Program} (proper : Scoping.Proper p.idents) :
    p.Faultless := by
  constructor
  · have resolved := p.resolve_eq_extend proper
    exact ⟨_, by rw [Program.analyze, resolved]; rfl, rfl⟩
  · intro b r call
    obtain ⟨env, pending, stack, _⟩ := Scoping.ready_of_called proper call
    refine ⟨_, (Scoping.yields_block b pending.proper).runs r stack pending.fresh, ?_⟩
    rw [stack]
    rfl
  · intro d r call
    obtain ⟨env, pending, stack, globals, rfl⟩ := Scoping.ready_of_called proper call
    refine ⟨_, (Scoping.yields_fnDecl pending.proper).runs r stack pending.fresh, ?_⟩
    rw [stack]
    cases found : globals.find? d.name.name with
    | some symbol =>
      have taken : globals.contains d.name.name = true := by rw [Table.contains, found]; rfl
      left
      rw [Scoping.fnDecl, taken]
      rfl
    | none =>
      have free : globals.contains d.name.name = false := by rw [Table.contains, found]; rfl
      right
      rw [Scoping.fnDecl, free]
      exact ⟨globals, _, rfl, found, rfl⟩

/-- No fault can occur in the analysis of a program that was read, nor of any other program whose
identifiers are told apart by their numbers and have a name. -/
theorem Program.analyze_faultless :
    (∀ (source : Text) (p : Program), source.parse.program = some p → p.Faultless) ∧
    ∀ p : Program, (p.idents.map Ident.node).Nodup → (∀ id ∈ p.idents, id.name ≠ []) →
      p.Faultless := by
  constructor
  · intro source p parsed
    exact faultless_of_proper (proper_of_parse parsed)
  · intro p distinct named
    exact faultless_of_proper ⟨distinct, named⟩

/-- A source that declares a name twice and calls it, and a tree that no source gives: selecting from
a number and assigning to one, in a function that has the name of an empty struct. The block of that
function is entered, and it is left with the stack that it was entered with. -/
theorem Program.analyze_faultless_odd :
    (∃ q, (Text.parse "int x; void x() \x7b x(); \x7d").program = some q ∧ q.Faultless) ∧
    let f : Nat → Ident := fun n => ⟨n, "f", ⟨1, n⟩⟩
    let inner : Block := .mk [⟨.int, f 2⟩] [.assign (.int 1 "1" ⟨1, 3⟩) (.call (f 4) [])]
    let second : FnDecl :=
      ⟨.void, f 1, [], .mk [] [.ifThen (.dot (.int 0 "0" ⟨1, 5⟩) (f 6)) inner]⟩
    let p : Program := ⟨[.struct ⟨f 0, []⟩, .fn second]⟩
    (p.idents.map Ident.node).Nodup ∧ (∀ id ∈ p.idents, id.name ≠ []) ∧
      (∃ a, p.analyze = .ok a ∧ a.scopes.depth = 1) ∧
      ∃ r s, Called p (.block inner) r ∧ r.scopes.depth = 2 ∧
        Resolve.block inner r = .ok () s ∧ s.scopes.frames = r.scopes.frames := by
  have isSome : (Text.parse "int x; void x() \x7b x(); \x7d").program.isSome := by
    rw [Text.parse_eq_parseOnTape]
    decide +kernel
  obtain ⟨q, parsed⟩ := Option.isSome_iff_exists.mp isSome
  refine ⟨⟨q, parsed, analyze_faultless.1 _ q parsed⟩, ?_⟩
  intro f inner second p
  have distinct : (p.idents.map Ident.node).Nodup := by decide
  have named : ∀ id ∈ p.idents, id.name ≠ [] := by decide
  have faultless := analyze_faultless.2 p distinct named
  obtain ⟨r, call, depth⟩ : ∃ r, Called p (.block inner) r ∧ r.scopes.depth = 2 :=
    ⟨_, .ifThen (.stmt (.fnBody (.fn (.rest .program rfl)) rfl)) rfl, rfl⟩
  obtain ⟨s, left, frames⟩ := faultless.blocks inner r call
  exact ⟨distinct, named, faultless.ends, r, s, call, depth, left, frames⟩

end Cinder
