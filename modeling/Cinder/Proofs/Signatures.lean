import Cinder.Proofs.FileScope
import Cinder.Proofs.Nominal.Programs

/-!
# Signatures of functions

The name of a function is declared before its formals are looked at, so that its body can call it,
and its symbol is completed when they are known. In the end the file scope, the name itself and
every use of the function agree on one symbol, which has the declared result type and one type for
each formal. No later declaration changes it.
-/
namespace Cinder

/-- Why a formal is rejected, given the scope of the file and the names of the formals that were
accepted before it. A struct name that one of these has taken means no struct. -/
inductive VarDecl.Rejected (file : Scoping.Scope) (taken : List Text) (d : VarDecl) : Prop where
  | void (type : d.type = .void)
  | noStruct {typeName : Ident} (type : d.type = .struct typeName)
      (invisible : typeName.name ∈ taken ∨
        ∀ struct, file.find? typeName.name ≠ some (.structDef struct))
  | redeclared (again : d.name.name ∈ taken)

/-- The types that formals ask of arguments, one for each: `error` for a formal that is rejected,
and its declared type for any other. -/
inductive VarDecl.Signature (file : Scoping.Scope) :
    List Text → List VarDecl → List Ty → Prop where
  | nil {taken} : Signature file taken [] []
  | rejected {taken d ds types} (bad : d.Rejected file taken)
      (rest : Signature file taken ds types) : Signature file taken (d :: ds) (.error :: types)
  | accepted {taken d ds types} (good : ¬ d.Rejected file taken)
      (rest : Signature file (taken ++ [d.name.name]) ds types) :
      Signature file taken (d :: ds) (d.type.type :: types)

/-- The name of a function and its entry in the file scope have this symbol. -/
def Resolver.Gives (r : Resolver) (d : FnDecl) (symbol : Symbol) : Prop :=
  r.bindings.symbolOf d.name = some symbol ∧
    ∃ globals, r.scopes.frames = [globals] ∧ globals.find? d.name.name = some symbol

theorem VarDecl.Signature.length_eq {file : Scoping.Scope} {taken : List Text} {ds : List VarDecl}
    {types : List Ty} (signature : Signature file taken ds types) : types.length = ds.length := by
  induction signature with
  | nil => rfl
  | rejected _ _ ih | accepted _ _ ih => rw [List.length_cons, List.length_cons, ih]

namespace Exp

mutual

/-- A name that is used is an expression or a callee. -/
theorem ident_mem_parts {id : Ident} : (e : Exp) → id ∈ e.uses → .ident id ∈ e.parts
  | .ident _, mem => by
    obtain rfl := List.mem_singleton.mp mem
    exact List.mem_cons_self
  | .dot base _, mem => List.mem_cons_of_mem _ (ident_mem_parts base mem)
  | .assign target value, mem => by
    refine List.mem_cons_of_mem _ (List.mem_append.mpr ?_)
    exact (List.mem_append.mp mem).imp (ident_mem_parts target) (ident_mem_parts value)
  | .call callee args, mem => by
    refine List.mem_cons_of_mem _ (List.mem_cons.mpr ?_)
    exact (List.mem_cons.mp mem).imp (congrArg _) (ident_mem_partsAll args)
  | .unary _ operand, mem => List.mem_cons_of_mem _ (ident_mem_parts operand mem)
  | .binary _ left right, mem => by
    refine List.mem_cons_of_mem _ (List.mem_append.mpr ?_)
    exact (List.mem_append.mp mem).imp (ident_mem_parts left) (ident_mem_parts right)

theorem ident_mem_partsAll {id : Ident} : (es : List Exp) → id ∈ usesAll es →
    .ident id ∈ partsAll es
  | e :: es, mem => by
    rw [partsAll, List.mem_append]
    exact (List.mem_append.mp mem).imp (ident_mem_parts e) (ident_mem_partsAll es)

end

theorem mem_usesAll_flatMap {id : Ident} {ds : List Decl}
    (mem : id ∈ usesAll (ds.flatMap Decl.exps)) :
    ∃ d, .fn d ∈ ds ∧ id ∈ usesAll d.body.exps := by
  induction ds with
  | nil => cases mem
  | cons d ds ih =>
    rw [List.flatMap_cons, usesAll_append, List.mem_append] at mem
    rcases mem with here | later
    · cases d with
      | fn d => exact ⟨d, List.mem_cons_self, here⟩
      | _ => cases here
    · obtain ⟨e, declared, used⟩ := ih later
      exact ⟨e, List.mem_cons_of_mem _ declared, used⟩

end Exp

namespace Scoping

variable {p : Program} {r : Resolver} {globals scope : Scope}

/-! ## Formals -/

/-- Among formals, a struct name means what it means in the file, unless a formal has taken it. -/
theorem find_eq_structDef {name : Text} {struct : StructDef} (own : OfVariables scope) :
    Env.find [scope, globals] name = some (.structDef struct) ↔
      name ∉ scope.keys ∧ globals.find? name = some (.structDef struct) := by
  simp only [Env.find, List.findSome?_cons, List.findSome?_nil]
  cases found : scope.find? name with
  | none =>
    have absent : name ∉ scope.keys := Table.lookup_eq_none.mp found
    cases globals.find? name <;> simp [absent]
  | some s =>
    have mem := Table.mem_of_find? found
    have present : name ∈ scope.keys := List.mem_map_of_mem mem
    have kind := own _ mem
    constructor
    · rintro ⟨⟩
      cases kind
    · rintro ⟨absent, -⟩
      exact absurd present absent

theorem candidate_eq_none_iff (own : OfVariables scope) (d : VarDecl) :
    (candidate [scope, globals] d).1 = none ↔
      d.type = .void ∨ ∃ typeName, d.type = .struct typeName ∧ (typeName.name ∈ scope.keys ∨
        ∀ struct, globals.find? typeName.name ≠ some (.structDef struct)) := by
  obtain ⟨type, name⟩ := d
  cases type with
  | struct typeName =>
    simp only [candidate]
    cases found : Env.struct [scope, globals] typeName.name with
    | none =>
      have invisible : ∀ struct, ¬ (typeName.name ∉ scope.keys ∧
          globals.find? typeName.name = some (.structDef struct)) := by
        intro struct visible
        have known := Rules.struct_eq_some.mpr ((find_eq_structDef own).mpr visible)
        rw [found] at known
        cases known
      by_cases taken : typeName.name ∈ scope.keys
      · simp [taken]
      · simpa [taken] using invisible
    | some struct =>
      have visible := (find_eq_structDef own).mp (Rules.struct_eq_some.mp found)
      simp [visible]
  | _ => simp [candidate]

theorem rejected_iff (own : OfVariables scope) (d : VarDecl) :
    d.Rejected globals scope.keys ↔
      (declare [scope, globals] (scope.contains d.name.name) d).1 = none := by
  cases taken : scope.contains d.name.name with
  | true =>
    have again : d.name.name ∈ scope.keys := by
      by_contra absent
      rw [Table.contains_eq_false.mpr absent] at taken
      cases taken
    exact ⟨fun _ => rfl, fun _ => .redeclared again⟩
  | false =>
    have free := Table.contains_eq_false.mp taken
    have chosen : (declare [scope, globals] false d).1 = (candidate [scope, globals] d).1 := by
      cases accepted : (candidate [scope, globals] d).1 with
      | none => rw [declare_rejected accepted]
      | some s => rw [declare_accepted accepted]
    rw [chosen, candidate_eq_none_iff own]
    constructor
    · intro rejected
      cases rejected with
      | void type => exact .inl type
      | noStruct type invisible => exact .inr ⟨_, type, invisible⟩
      | redeclared again => exact absurd again free
    · rintro (type | ⟨typeName, type, invisible⟩)
      · exact .void type
      · exact .noStruct type invisible

theorem candidate_of_declare {env : Env} {taken : Bool} {d : VarDecl} {s : Symbol}
    (accepted : (declare env taken d).1 = some s) :
    taken = false ∧ (candidate env d).1 = some s := by
  cases taken with
  | true => cases accepted
  | false =>
    cases chosen : (candidate env d).1 with
    | none =>
      rw [declare_rejected chosen] at accepted
      cases accepted
    | some t =>
      rw [declare_accepted chosen] at accepted
      exact ⟨rfl, accepted⟩

/-- The types that are collected while formals are declared. -/
theorem signature_declareAll (own : OfVariables scope) (ds : List VarDecl) :
    VarDecl.Signature globals scope.keys ds
      (paramTypes (declareAll (· :: [globals]) scope ds).symbols) := by
  induction ds generalizing scope with
  | nil => exact .nil
  | cons d ds ih =>
    have rejected := @rejected_iff globals scope own d
    have still := @ofVariables_declareAll (· :: [globals]) scope own [d]
    simp only [declareAll] at still ⊢
    rw [paramTypes, List.map_cons]
    cases chosen : (declare [scope, globals] (scope.contains d.name.name) d).1 with
    | none =>
      rw [chosen] at rejected still
      exact .rejected (rejected.mpr rfl) (ih own)
    | some s =>
      rw [chosen] at rejected still
      obtain ⟨free, candidate⟩ := candidate_of_declare chosen
      have types := ih still
      rw [Option.elim_some, Table.keys_insert (Table.contains_eq_false.mp free)] at types
      rw [Option.map_some, Option.getD_some, (candidate_some candidate).2]
      refine .accepted (fun bad => ?_) types
      cases rejected.mp bad

/-! ## Functions -/

/-- The symbol that a function has once its formals are known. -/
def fnSymbol (globals : Scope) (d : FnDecl) : Symbol :=
  .function d.name.name d.resultType.type
    (paramTypes (declareAll (· :: [globals]) .empty d.formals).symbols)

/-- The name of a function is bound exactly if it was free. -/
theorem symbolOf_fnDecl {d : FnDecl} (proper : Proper (Decl.fn d).idents) :
    (fnDecl globals d).2.bindings.symbolOf d.name =
      if globals.contains d.name.name then none else some (fnSymbol globals d) := by
  obtain ⟨-, rest, beside⟩ := (proper.perm (idents_fn_perm d)).append
  obtain ⟨-, inner, -⟩ := rest.append
  obtain ⟨formals, body, -⟩ := inner.append
  let declared := declareAll (· :: [globals]) .empty d.formals
  let bodyDeclared := declareAll (· :: [(fnDecl globals d).1]) declared.scope d.body.decls
  let other := resultType globals d.resultType ++ (declared.findings ++ (bodyDeclared.findings ++
    stmts [bodyDeclared.scope, (fnDecl globals d).1] d.body.stmts))
  have absent : d.name.node ∉ other.nodes := by
    intro known
    refine beside (List.mem_singleton_self _) ?_
    rw [nodes_append, nodes_append, List.mem_append, List.mem_append]
    rcases Findings.mem_nodes_append.mp known with result | known
    · exact .inl ((yields_resultType d.resultType).within _ result)
    rcases Findings.mem_nodes_append.mp known with formal | inside
    · exact .inr (.inl ((yields_varDecls d.formals formals).within _ formal))
    · exact .inr (.inr ((yields_fnBody _ _ body).within _ inside))
  change (ownFindings globals d ++ other).bindings.symbolOf d.name = _
  rw [Findings.symbolOf_append, (Findings.not_mem_of_nodes absent).1, Option.or_none, ownFindings]
  split
  · rfl
  · exact Findings.symbolOf_bind d.name _

/-- From its declaration on, a function stands in the file scope with its complete symbol. -/
theorem find?_fn {before : List Decl} {d : FnDecl}
    (free : (decls .empty before).1.find? d.name.name = none) (middle : List Decl) :
    (decls .empty (before ++ .fn d :: middle)).1.find? d.name.name =
      some (fnSymbol (decls .empty before).1 d) := by
  have entered : (fnDecl (decls .empty before).1 d).1.find? d.name.name =
      some (fnSymbol (decls .empty before).1 d) := by
    rw [fnDecl, Table.contains, free]
    exact (Table.find?_insert ..).trans (if_pos rfl)
  rw [decls_append]
  exact find?_decls entered middle

theorem symbolOf_fn (proper : Proper p.idents) (resolved : p.resolve = .ok r)
    {before after : List Decl} {d : FnDecl} (split : p.decls = before ++ .fn d :: after) :
    r.bindings.symbolOf d.name = if (decls .empty before).1.contains d.name.name then none
      else some (fnSymbol (decls .empty before).1 d) := by
  have sited := sited_decl proper split
  have mem : d.name.node ∈ nodes (Decl.fn d).idents := by simp [nodes, Decl.idents]
  rw [(sited.bindings resolved mem).1]
  exact symbolOf_fnDecl sited.pending.proper

theorem gives_fn (proper : Proper p.idents) (resolved : p.resolve = .ok r)
    {before after : List Decl} {d : FnDecl} (split : p.decls = before ++ .fn d :: after)
    (free : (decls .empty before).1.find? d.name.name = none) :
    r.Gives d (fnSymbol (decls .empty before).1 d) := by
  constructor
  · rw [symbolOf_fn proper resolved split, Table.contains, free]
    rfl
  · rw [p.resolve_eq_extend proper] at resolved
    cases resolved
    refine ⟨(program p).1, rfl, ?_⟩
    rw [program, split]
    exact find?_fn free after

/-! ## Uses -/

theorem symbolOf_findings_use (env : Env) (id : Ident) :
    (use env id).bindings.symbolOf id = env.find id.name := by
  rw [use]
  cases env.find id.name with
  | none => rfl
  | some s => exact Findings.symbolOf_bind id s

/-- A name that is used in a function is bound to what the scopes inside the function say, which
hold variables only, or else to what it means in the file up to the function. -/
theorem symbolOf_use (proper : Proper p.idents) (resolved : p.resolve = .ok r)
    {before after : List Decl} {d : FnDecl} (split : p.decls = before ++ .fn d :: after) {id : Ident}
    (used : id ∈ Exp.usesAll d.body.exps) :
    ∃ t locals, Visited p (.ident id) t ∧
      t.scopes.frames = locals ++ [(decls .empty (before ++ [.fn d])).1] ∧
      (∀ scope ∈ locals, OfVariables scope) ∧
      r.bindings.symbolOf id = (locals.findSome? (·.find? id.name)).or
        ((decls .empty (before ++ [.fn d])).1.find? id.name) := by
  obtain ⟨t, visit, below⟩ := visitedOver_fn proper split (Exp.ident_mem_partsAll _ used)
  obtain ⟨env, inside, layered, sited⟩ := sited_of_visited proper visit
  have bound := (sited.bindings resolved (List.mem_map_of_mem List.mem_cons_self)).1
  rw [exp, symbolOf_findings_use] at bound
  obtain ⟨locals, frames⟩ := below
  have stack : env = locals ++ [(decls .empty (before ++ [.fn d])).1] := by
    rw [frames, sited.stack]
    rfl
  refine ⟨t, locals, visit, frames.symm, ?_, ?_⟩
  · rw [stack, Env.Layered, List.dropLast_concat] at layered
    exact layered
  · rw [bound, stack, Env.find, List.findSome?_append, List.findSome?_singleton]

/-- A use of a function that has been declared is bound to it, unless a scope inside the function
that it stands in hides the name. -/
theorem symbolOf_use_fn (proper : Proper p.idents) (resolved : p.resolve = .ok r)
    {before after : List Decl} {d : FnDecl} (split : p.decls = before ++ .fn d :: after)
    (free : (decls .empty before).1.find? d.name.name = none) {id : Ident}
    (used : id ∈ Exp.usesAll ((.fn d :: after).flatMap Decl.exps)) (same : id.name = d.name.name) :
    ∃ t locals file, Visited p (.ident id) t ∧ t.scopes.frames = locals ++ [file] ∧
      r.bindings.symbolOf id = (locals.findSome? (·.find? id.name)).or
        (some (fnSymbol (decls .empty before).1 d)) := by
  obtain ⟨e, mem, used⟩ := Exp.mem_usesAll_flatMap used
  obtain ⟨middle, rest, order⟩ := List.append_of_mem mem
  have whole : p.decls = (before ++ middle) ++ .fn e :: rest := by
    rw [split, order, List.append_assoc]
  -- the function that the use stands in is this one or a later one
  obtain ⟨more, upTo⟩ : ∃ more, (before ++ middle) ++ [.fn e] = before ++ .fn d :: more := by
    cases middle with
    | nil =>
      cases order
      exact ⟨[], by simp⟩
    | cons first others =>
      cases order
      exact ⟨others ++ [.fn e], by simp⟩
  obtain ⟨t, locals, visit, frames, -, bound⟩ := symbolOf_use proper resolved whole used
  refine ⟨t, locals, _, visit, frames, ?_⟩
  rw [bound, upTo, ← find?_fn free more, same]

/-- What is no variable has one meaning in the whole file. -/
theorem find?_of_use (proper : Proper p.idents) (resolved : p.resolve = .ok r)
    {id : Ident} {s : Symbol} (used : id ∈ p.uses) (bound : r.bindings.symbolOf id = some s)
    (kind : s.isVariable = false) : (program p).1.find? s.name = some s := by
  obtain ⟨d, mem, used⟩ := Exp.mem_usesAll_flatMap used
  obtain ⟨before, after, split⟩ := List.append_of_mem mem
  obtain ⟨t, locals, -, -, hidden, meaning⟩ := symbolOf_use proper resolved split used
  rw [bound] at meaning
  cases found : locals.findSome? (·.find? id.name) with
  | some s' =>
    rw [found] at meaning
    cases meaning
    obtain ⟨scope, inside, here⟩ := List.exists_of_findSome?_eq_some found
    rw [hidden scope inside _ (Table.mem_of_find? here)] at kind
    cases kind
  | none =>
    rw [found, Option.none_or] at meaning
    have declared : (program p).1.find? id.name = some s := by
      rw [program, split, List.append_cons, decls_append]
      exact find?_decls meaning.symm after
    have own : s.name = id.name :=
      (upholds_program proper).file.labelled _ (Table.mem_of_find? declared)
    rw [own]
    exact declared

end Scoping

/-- A function is accepted if its name is free in the file scope that the declarations before it
give. Then there is one symbol, with the result type and the signature as declared, that is bound to
its name, stands in the file scope and is bound to all of its uses. A use of the name in its own
body or after it is bound to it, unless a scope on top of the file scope hides it where the resolver
comes to the use. However much of the rest of the program follows, the name and the file scope have
the same symbol. -/
theorem Program.signatures_complete (p : Program) (distinct : (p.idents.map Ident.node).Nodup)
    (named : ∀ id ∈ p.idents, id.name ≠ []) (before after : List Decl) (d : FnDecl)
    (split : p.decls = before ++ .fn d :: after) :
    ∃ earlier file r, (Program.mk before).resolve = .ok earlier ∧ earlier.scopes.frames = [file] ∧
      p.resolve = .ok r ∧
      ((r.bindings.symbolOf d.name).isSome = true ↔ file.find? d.name.name = none) ∧
      (file.find? d.name.name = none →
        ∃ params, VarDecl.Signature file [] d.formals params ∧ params.length = d.formals.length ∧
          let symbol := Symbol.function d.name.name d.resultType.type params
          r.Gives d symbol ∧
          (∀ id ∈ p.uses, ∀ s, r.bindings.symbolOf id = some s → s.isVariable = false →
            s.name = d.name.name → s = symbol) ∧
          (∀ id ∈ Exp.usesAll ((.fn d :: after).flatMap Decl.exps), id.name = d.name.name →
            ∃ t locals file, Scoping.Visited p (.ident id) t ∧ t.scopes.frames = locals ++ [file] ∧
              r.bindings.symbolOf id =
                (locals.findSome? (·.find? id.name)).or (some symbol)) ∧
          ∀ middle rest, after = middle ++ rest →
            ∃ t, (Program.mk (before ++ .fn d :: middle)).resolve = .ok t ∧ t.Gives d symbol) := by
  have proper : Scoping.Proper p.idents := ⟨distinct, named⟩
  have resolved := p.resolve_eq_extend proper
  have earlier := (Program.mk before).resolve_eq_extend (Scoping.proper_before proper split)
  refine ⟨_, (Scoping.decls .empty before).1, _, earlier, rfl, resolved, ?_, fun free => ?_⟩
  · rw [Scoping.symbolOf_fn proper resolved split, Table.contains]
    cases (Scoping.decls .empty before).1.find? d.name.name <;> simp
  · have signature := @Scoping.signature_declareAll (Scoping.decls .empty before).1 .empty
      Scoping.ofVariables_empty d.formals
    have given := Scoping.gives_fn proper resolved split free
    refine ⟨_, signature, signature.length_eq, given, ?_, ?_, ?_⟩
    · intro id used s bound kind same
      have declared := Scoping.find?_of_use proper resolved used bound kind
      obtain ⟨-, globals, frames, found⟩ := given
      cases frames
      rw [same, found] at declared
      exact (Option.some.inj declared).symm
    · intro id used same
      exact Scoping.symbolOf_use_fn proper resolved split free used same
    · rintro middle rest rfl
      have whole : p.decls = (before ++ .fn d :: middle) ++ rest := by
        rw [split, List.append_assoc, List.cons_append]
      have proper' := Scoping.proper_before proper whole
      have resolved' := (Program.mk (before ++ .fn d :: middle)).resolve_eq_extend proper'
      exact ⟨_, resolved', Scoping.gives_fn proper' resolved' rfl free⟩

/-- A function that calls itself, with three formals that are rejected, and a variable of the same
name after it. -/
theorem Program.signatures_complete_recursive :
    let v : Nat → Text → Ident := fun n name => ⟨n, name, ⟨1, n⟩⟩
    let formals : List VarDecl := [⟨.struct (v 3 "A"), v 4 "a"⟩, ⟨.void, v 5 "b"⟩,
      ⟨.bool, v 6 "a"⟩, ⟨.struct (v 7 "a"), v 8 "c"⟩, ⟨.bool, v 9 "b"⟩]
    let d : FnDecl := ⟨.int, v 2 "f", formals, .mk [] [.call (v 10 "f") [.ident (v 11 "b")]]⟩
    let before : List Decl := [.struct ⟨v 0 "A", [⟨.int, v 1 "x"⟩]⟩]
    let after : List Decl := [.var ⟨.bool, v 12 "f"⟩]
    let p : Program := ⟨before ++ .fn d :: after⟩
    (p.idents.map Ident.node).Nodup ∧ (∀ id ∈ p.idents, id.name ≠ []) ∧
      ∃ earlier file r params, (Program.mk before).resolve = .ok earlier ∧
        earlier.scopes.frames = [file] ∧ p.resolve = .ok r ∧ file.find? "f" = none ∧
        VarDecl.Signature file [] formals params ∧ r.Gives d (.function "f" .int params) ∧
        params = [.struct "A", .error, .error, .error, .bool] ∧
        r.bindings.symbolOf (v 10 "f") = some (.function "f" .int params) := by
  intro v formals d before after p
  have distinct : (p.idents.map Ident.node).Nodup := by decide
  have named : ∀ id ∈ p.idents, id.name ≠ [] := by decide
  obtain ⟨earlier, file, r, began, frames, resolved, -, accepted⟩ :=
    p.signatures_complete distinct named before after d rfl
  have proper : Scoping.Proper p.idents := ⟨distinct, named⟩
  have free : file.find? "f" = none := by
    rw [(Program.mk before).resolve_eq_extend (Scoping.proper_before proper rfl)] at began
    cases began
    cases frames
    rfl
  obtain ⟨params, signature, -, given, calls, -⟩ := accepted free
  obtain ⟨s, resolved', name, called⟩ : ∃ s, p.resolve = .ok s ∧
      s.bindings.symbolOf d.name =
        some (.function "f" .int [.struct "A", .error, .error, .error, .bool]) ∧
      (s.bindings.symbolOf (v 10 "f")).any fun t => t.isVariable = false ∧ t.name = d.name.name :=
    ⟨_, p.resolve_eq_extend proper, by rfl, by decide +kernel⟩
  obtain rfl : r = s := Except.ok.inj (resolved.symm.trans resolved')
  have recursive : r.bindings.symbolOf (v 10 "f") = some (.function "f" .int params) := by
    have uses : p.uses = [v 10 "f", v 11 "b"] := rfl
    obtain ⟨t, bound, function⟩ := (Option.any_eq_true _ _).mp called
    obtain ⟨kind, same⟩ := of_decide_eq_true function
    rw [bound, calls (v 10 "f") (by simp [uses]) t bound kind same]
    rfl
  have types : params = [.struct "A", .error, .error, .error, .bool] :=
    (Symbol.function.inj (Option.some.inj (given.1.symm.trans name))).2.2
  exact ⟨distinct, named, earlier, file, r, params, began, frames, resolved, free, signature, given,
    types, recursive⟩

end Cinder
