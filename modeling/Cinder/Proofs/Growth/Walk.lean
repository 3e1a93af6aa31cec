import Cinder.Proofs.Growth

/-!
# Growth along a walk

Declarations, statements and functions are steady wherever they stand, if no identifier in them has
an empty name: a name is looked for in the innermost frame before it is declared there, and a frame
that was pushed is dropped. A declaration does not fail because the name was free just before, so what
comes after a question to the innermost frame is followed with the answer at hand.
-/
namespace Cinder

namespace Resolve

/-! ## Declarations -/

theorem steady_structNamed (name : Text) : Steady (structNamed name) := by
  refine (steady_find name).bind ?_
  intro found
  split <;> exact .pure _

theorem steady_candidate (d : VarDecl) : Steady (candidate d) := by
  obtain ⟨type, name⟩ := d
  cases type with
  | int => exact .pure _
  | bool => exact .pure _
  | void => exact .reject name.position .voidVariable none
  | struct typeName =>
    refine (steady_structNamed typeName.name).bind ?_
    intro definition?
    cases definition? with
    | none => exact .reject typeName.position .unknownStruct none
    | some definition =>
      exact (steady_bind typeName (.structDef definition)).bind fun _ => .pure _

/-- What a sequence of two steps returns comes from what the first one returned. -/
theorem exists_of_bind {α β : Type} {step : Resolve α} {next : α → Resolve β} {r t : Resolver}
    {b : β} (done : (step >>= next) r = .ok b t) :
    ∃ a s, step r = .ok a s ∧ next a s = .ok b t := by
  change EStateM.bind step next r = _ at done
  rw [EStateM.bind] at done
  cases result : step r with
  | ok a s =>
    rw [result] at done
    exact ⟨a, s, rfl, done⟩
  | error fault s =>
    rw [result] at done
    cases done

theorem query_eq_ok {α : Type} {look : Scopes → Except Fault α} {r s : Resolver} {a : α}
    (done : query look r = .ok a s) : look r.scopes = .ok a ∧ s = r := by
  rw [run_query] at done
  split at done
  · rename_i b answer
    cases done
    exact ⟨answer, rfl⟩
  · cases done

theorem updateScopes_eq_ok {f : Scopes → Except Fault Scopes} {r s : Resolver} {a : Unit}
    (done : updateScopes f r = .ok a s) : s.bindings = r.bindings := by
  rw [run_updateScopes] at done
  split at done
  · cases done
    rfl
  · cases done

theorem updateBindings_eq_ok {f : Bindings → Except Fault Bindings} {r s : Resolver} {a : Unit}
    (done : updateBindings f r = .ok a s) :
    f r.bindings = .ok s.bindings ∧ s.scopes = r.scopes := by
  rw [run_updateBindings] at done
  split at done
  · rename_i b answer
    cases done
    exact ⟨answer, rfl⟩
  · cases done

theorem name_of_candidate {d : VarDecl} {symbol : Symbol} {r s : Resolver}
    (done : candidate d r = .ok (some symbol) s) : symbol.name = d.name.name := by
  obtain ⟨type, name⟩ := d
  cases type with
  | int =>
    cases done
    rfl
  | bool =>
    cases done
    rfl
  | void =>
    obtain ⟨_, _, -, rejected⟩ := exists_of_bind done
    cases rejected
  | struct typeName =>
    obtain ⟨definition?, t, -, rest⟩ := exists_of_bind done
    cases definition? with
    | none =>
      obtain ⟨_, _, -, rejected⟩ := exists_of_bind rest
      cases rejected
    | some definition =>
      obtain ⟨_, _, -, accepted⟩ := exists_of_bind rest
      cases accepted
      rfl

section

variable {α : Type} {r s : Resolver} {n m : Nat}

/-- The innermost frame is asked for a name, and what follows knows the answer. -/
theorem allows_findLocal {name : Text} {next : Option Symbol → Resolve α} (grown : r.Grows n s)
    (rest : ∀ found, s.scopes.findLocal name = .ok found → r.Allows m (next found s)) :
    r.Allows m ((query (·.findLocal name) >>= next) s) := by
  obtain ⟨top, below, frames⟩ := List.exists_cons_of_ne_nil grown.scopes.inside
  have answer : s.scopes.findLocal name = .ok (top.find? name) := by
    rw [Scopes.findLocal, frames]
  have asked : query (·.findLocal name) s = .ok (top.find? name) s := by
    rw [run_query, answer]
  rw [Scoping.run_bind asked]
  exact rest _ answer

theorem allows_declare {name : Text} {next : Resolve α} (grown : r.Grows n s) (named : name ≠ [])
    (free : s.scopes.findLocal name = .ok none) (symbol : Symbol) (rest : Steady next) :
    r.Allows n ((updateScopes (·.declare name (some symbol)) >>= fun _ => next) s) := by
  obtain ⟨scopes, declared, more⟩ := Scopes.Grows.declare named free symbol
  have done : updateScopes (·.declare name (some symbol)) s = .ok () { s with scopes } := by
    rw [run_updateScopes, declared]
  rw [Scoping.run_bind done]
  have all : r.Grows (0 + n) { s with scopes } := grown.trans ⟨more, .refl _, .refl _⟩
  rw [Nat.zero_add] at all
  exact rest.after all

theorem allows_enter (grown : r.Grows n s) :
    r.Allows (1 + n) (updateScopes (fun s => .ok s.enter) s) := by
  rw [run_updateScopes]
  exact grown.trans ⟨.enter grown.scopes.inside, .refl _, .refl _⟩

theorem allows_leave (grown : r.Grows 1 s) : r.Allows 0 (updateScopes (·.leave) s) := by
  obtain ⟨scopes, left, below⟩ := grown.scopes.leave
  rw [run_updateScopes, left]
  exact ⟨below, grown.idents, grown.dots⟩

end

theorem steady_varDecl {d : VarDecl} (named : d.name.name ≠ []) : Steady (varDecl d) := by
  intro r inside
  refine (steady_candidate d r inside).bind ?_
  intro symbol? s _ grown
  apply allows_findLocal grown
  intro found answer
  cases found with
  | some other =>
    cases symbol? <;> exact (Steady.reject d.name.position .redeclared none).after grown
  | none =>
    cases symbol? with
    | none => exact (Steady.pure none).after grown
    | some symbol =>
      exact allows_declare grown named answer symbol
        ((steady_bind d.name symbol).bind fun _ => .pure _)

theorem steady_varDecls : (ds : List VarDecl) →
    (∀ id ∈ ds.flatMap VarDecl.idents, id.name ≠ []) → Steady (varDecls ds)
  | [], _ => .pure ()
  | d :: ds, named => by
    obtain ⟨first, others⟩ := List.forall_mem_append.mp named
    exact (steady_varDecl (first d.name (by simp [VarDecl.idents]))).bind fun _ =>
      steady_varDecls ds others

theorem steady_formals : (ds : List VarDecl) →
    (∀ id ∈ ds.flatMap VarDecl.idents, id.name ≠ []) → Steady (formals ds)
  | [], _ => .pure []
  | d :: ds, named => by
    obtain ⟨first, others⟩ := List.forall_mem_append.mp named
    exact (steady_varDecl (first d.name (by simp [VarDecl.idents]))).bind fun _ =>
      (steady_formals ds others).bind fun _ => .pure _

theorem steady_fieldDecl (definition : StructDef) {d : VarDecl} (named : d.name.name ≠ []) :
    Steady (fieldDecl definition d) := by
  intro r inside
  refine (steady_candidate d r inside).bind ?_
  intro symbol? s done grown
  dsimp only
  cases taken : (definition.field? d.name.name).isSome with
  | true =>
    cases symbol? <;> exact (Steady.reject d.name.position .redeclared definition).after grown
  | false =>
    cases symbol? with
    | none => exact (Steady.pure definition).after grown
    | some symbol =>
      have own := name_of_candidate done
      have declared : definition.declare symbol =
          .ok (.mk definition.name (definition.fields ++ [symbol])) := by
        rw [StructDef.declare, own, if_neg named, taken, if_neg (by simp)]
      simp only [declared, Bool.false_eq_true, if_false]
      exact ((steady_bind d.name symbol).bind fun _ => .pure _).after grown

theorem steady_fieldDecls : (definition : StructDef) → (ds : List VarDecl) →
    (∀ id ∈ ds.flatMap VarDecl.idents, id.name ≠ []) → Steady (fieldDecls definition ds)
  | definition, [], _ => .pure definition
  | definition, d :: ds, named => by
    obtain ⟨first, others⟩ := List.forall_mem_append.mp named
    exact (steady_fieldDecl definition (first d.name (by simp [VarDecl.idents]))).bind fun wider =>
      steady_fieldDecls wider ds others

/-- A step that does not change the scopes. -/
def Still {α : Type} (step : Resolve α) : Prop := ∀ r a s, step r = .ok a s → s.scopes = r.scopes

theorem Still.bind {α β : Type} {step : Resolve α} {next : α → Resolve β} (first : Still step)
    (second : ∀ a, Still (next a)) : Still (step >>= next) := by
  intro r b t done
  obtain ⟨a, s, early, late⟩ := exists_of_bind done
  rw [second a s b t late, first r a s early]

theorem still_pure {α : Type} (a : α) : Still (pure a) := by
  rintro r b s ⟨⟩
  rfl

theorem still_report (position : Position) (problem : Problem) :
    Still (report position problem) := by
  rintro r a s ⟨⟩
  rfl

theorem still_query {α : Type} (look : Scopes → Except Fault α) : Still (query look) := by
  intro r a s done
  rw [(query_eq_ok done).2]

theorem still_updateBindings (f : Bindings → Except Fault Bindings) : Still (updateBindings f) := by
  intro r a s done
  exact (updateBindings_eq_ok done).2

theorem still_candidate (d : VarDecl) : Still (candidate d) := by
  obtain ⟨type, name⟩ := d
  cases type with
  | int => exact still_pure _
  | bool => exact still_pure _
  | void => exact (still_report name.position .voidVariable).bind fun _ => still_pure none
  | struct typeName =>
    have named : Still (structNamed typeName.name) := by
      refine (still_query _).bind ?_
      intro found
      split <;> exact still_pure _
    refine named.bind ?_
    intro definition?
    cases definition? with
    | none => exact (still_report typeName.position .unknownStruct).bind fun _ => still_pure none
    | some definition => exact (still_updateBindings _).bind fun _ => still_pure _

theorem still_fieldDecl (definition : StructDef) (d : VarDecl) :
    Still (fieldDecl definition d) := by
  refine (still_candidate d).bind ?_
  intro symbol?
  dsimp only
  have rejected : Still (do
      report d.name.position .redeclared
      return definition) :=
    (still_report d.name.position .redeclared).bind fun _ => still_pure definition
  cases (definition.field? d.name.name).isSome with
  | true => cases symbol? <;> exact rejected
  | false =>
    cases symbol? with
    | none => exact still_pure definition
    | some symbol =>
      simp only [Bool.false_eq_true, if_false]
      cases definition.declare symbol with
      | ok wider => exact (still_updateBindings _).bind fun _ => still_pure wider
      | error fault =>
        rintro r a s ⟨⟩

theorem still_fieldDecls : (definition : StructDef) → (ds : List VarDecl) →
    Still (fieldDecls definition ds)
  | definition, [] => still_pure definition
  | definition, d :: ds =>
    (still_fieldDecl definition d).bind fun wider => still_fieldDecls wider ds

theorem steady_structDecl {d : StructDecl} (named : ∀ id ∈ (Decl.struct d).idents, id.name ≠ []) :
    Steady (structDecl d) := by
  obtain ⟨own, fields⟩ := List.forall_mem_cons.mp named
  intro r inside
  apply allows_findLocal (.refl inside)
  intro found answer
  cases found with
  | some other => exact Steady.report d.name.position .redeclared r inside
  | none =>
    refine (steady_fieldDecls (.mk d.name.name []) d.fields fields r inside).bind ?_
    intro definition s done grown
    have free : s.scopes.findLocal d.name.name = .ok none := by
      rw [still_fieldDecls _ _ r definition s done, answer]
    exact allows_declare grown own free _ (steady_bind d.name _)

/-! ## Statements -/

/-- A frame is filled, used and dropped. -/
theorem allows_frameSteps {decls : List VarDecl} {body : List Stmt} {r s : Resolver}
    (named : ∀ id ∈ decls.flatMap VarDecl.idents, id.name ≠ []) (inner : Steady (stmts body))
    (grown : r.Grows 1 s) : r.Allows 0 (Scoping.frameSteps decls body s) := by
  refine ((steady_varDecls decls named).after grown).bind ?_
  intro _ t _ grown
  refine (inner.after grown).bind ?_
  intro _ u _ grown
  exact allows_leave grown

mutual

theorem steady_stmt : (s : Stmt) → (∀ id ∈ s.idents, id.name ≠ []) → Steady (stmt s)
  | .assign target value, _ => (steady_exp target).bind fun _ => steady_exp value
  | .increment target, _ => steady_exp target
  | .decrement target, _ => steady_exp target
  | .read target, _ => steady_exp target
  | .write value, _ => steady_exp value
  | .ifThen condition body, named => by
    obtain ⟨-, inner⟩ := List.forall_mem_append.mp named
    exact (steady_exp condition).bind fun _ => steady_block body inner
  | .ifElse condition yes no, named => by
    obtain ⟨before, last⟩ := List.forall_mem_append.mp named
    obtain ⟨-, first⟩ := List.forall_mem_append.mp before
    exact (steady_exp condition).bind fun _ =>
      (steady_block yes first).bind fun _ => steady_block no last
  | .whileLoop condition body, named => by
    obtain ⟨-, inner⟩ := List.forall_mem_append.mp named
    exact (steady_exp condition).bind fun _ => steady_block body inner
  | .repeatLoop count body, named => by
    obtain ⟨-, inner⟩ := List.forall_mem_append.mp named
    exact (steady_exp count).bind fun _ => steady_block body inner
  | .call callee args, _ => (steady_useIdent callee).bind fun _ => steady_exps args
  | .giveBack none _, _ => .pure ()
  | .giveBack (some value) _, _ => steady_exp value

theorem steady_block : (b : Block) → (∀ id ∈ b.idents, id.name ≠ []) → Steady (block b)
  | .mk decls body, named => by
    obtain ⟨first, others⟩ := List.forall_mem_append.mp named
    intro r inside
    refine (allows_enter (.refl inside)).bind ?_
    intro _ s _ grown
    exact allows_frameSteps first (steady_stmts body others) grown

theorem steady_stmts : (ss : List Stmt) → (∀ id ∈ Stmt.identsAll ss, id.name ≠ []) →
    Steady (stmts ss)
  | [], _ => .pure ()
  | s :: ss, named => by
    obtain ⟨first, others⟩ := List.forall_mem_append.mp named
    exact (steady_stmt s first).bind fun _ => steady_stmts ss others

end

/-! ## Functions -/

theorem steady_resultType (type : TypeExp) : Steady (resultType type) := by
  cases type with
  | struct name =>
    refine (steady_structNamed name.name).bind ?_
    intro definition?
    cases definition? with
    | none => exact .pure ()
    | some definition => exact steady_bind name (.structDef definition)
  | _ => exact .pure ()

theorem steady_fnName {d : FnDecl} (named : d.name.name ≠ []) : Steady (fnName d) := by
  intro r inside
  apply allows_findLocal (.refl inside)
  intro found answer
  cases found with
  | some other => exact Steady.reject d.name.position .redeclared false r inside
  | none =>
    exact allows_declare (.refl inside) named answer _
      ((steady_bind d.name _).bind fun _ => .pure true)

/-- The name of an accepted function was free, and its identifier unbound. -/
theorem free_of_fnName {d : FnDecl} {r s : Resolver} (done : fnName d r = .ok true s) :
    r.scopes.findLocal d.name.name = .ok none ∧ d.name.node ∉ r.bindings.idents.keys := by
  obtain ⟨found, t, asked, rest⟩ := exists_of_bind done
  obtain ⟨answer, rfl⟩ := query_eq_ok asked
  cases found with
  | some other =>
    obtain ⟨_, _, -, rejected⟩ := exists_of_bind rest
    cases rejected
  | none =>
    obtain ⟨_, u, declared, rest⟩ := exists_of_bind rest
    obtain ⟨_, v, bound, -⟩ := exists_of_bind rest
    obtain ⟨fresh, -⟩ := updateBindings_eq_ok bound
    refine ⟨answer, ?_⟩
    rw [updateScopes_eq_ok declared, Bindings.bind] at fresh
    split at fresh
    · cases fresh
    · rename_i free
      exact Table.contains_eq_false.mp (Bool.eq_false_iff.mpr free)

theorem allows_heading {d : FnDecl} {r : Resolver} (inside : r.scopes.frames ≠ [])
    (own : d.name.name ≠ []) (named : ∀ id ∈ d.formals.flatMap VarDecl.idents, id.name ≠ []) :
    r.Allows 1 (Scoping.heading d r) := by
  refine (steady_fnName own r inside).bind ?_
  intro accepted s _ grown
  refine ((steady_resultType d.resultType).after grown).bind ?_
  intro _ t _ grown
  refine (allows_enter grown).bind ?_
  intro _ u _ grown
  exact ((steady_formals d.formals named).bind fun _ => .pure _).after grown

/-- The symbol of a function is completed where it was put since the heading began. -/
theorem allows_completion {d : FnDecl} {r s : Resolver} {head : Bool × List Ty}
    (done : Scoping.heading d r = .ok head s) (grown : r.Grows 1 s) :
    r.Allows 1 (Scoping.completion d head s) := by
  obtain ⟨accepted, params⟩ := head
  cases accepted with
  | false => exact grown
  | true =>
    obtain ⟨accepted, t, start, rest⟩ := exists_of_bind done
    obtain ⟨_, _, -, rest⟩ := exists_of_bind rest
    obtain ⟨_, _, -, rest⟩ := exists_of_bind rest
    obtain ⟨_, _, -, last⟩ := exists_of_bind rest
    cases last
    obtain ⟨free, unbound⟩ := free_of_fnName start
    constructor
    · exact grown.scopes.amendOuter free _
    · exact grown.idents.insert unbound _
    · exact grown.dots

theorem steady_fnDecl {d : FnDecl} (named : ∀ id ∈ (Decl.fn d).idents, id.name ≠ []) :
    Steady (fnDecl d) := by
  obtain ⟨type, name, formals, decls, body⟩ := d
  obtain ⟨outer, inner⟩ := List.forall_mem_append.mp named
  obtain ⟨before, formalsNamed⟩ := List.forall_mem_append.mp outer
  obtain ⟨-, own⟩ := List.forall_mem_append.mp before
  obtain ⟨declsNamed, bodyNamed⟩ := List.forall_mem_append.mp inner
  intro r inside
  rw [Scoping.fnDecl_eq_heading]
  have headed := allows_heading inside (own name (by simp)) formalsNamed
  refine (headed.bind fun _ _ done grown => allows_completion done grown).bind ?_
  intro _ s _ grown
  exact allows_frameSteps declsNamed (steady_stmts body bodyNamed) grown

theorem steady_decl : (d : Decl) → (∀ id ∈ d.idents, id.name ≠ []) → Steady (decl d)
  | .var d, named =>
    (steady_varDecl (named d.name (by simp [Decl.idents, VarDecl.idents]))).bind fun _ => .pure ()
  | .fn _, named => steady_fnDecl named
  | .struct _, named => steady_structDecl named

theorem steady_decls : (ds : List Decl) → (∀ id ∈ ds.flatMap Decl.idents, id.name ≠ []) →
    Steady (decls ds)
  | [], _ => .pure ()
  | d :: ds, named => by
    obtain ⟨first, others⟩ := List.forall_mem_append.mp named
    exact (steady_decl d first).bind fun _ => steady_decls ds others

end Resolve

end Cinder
