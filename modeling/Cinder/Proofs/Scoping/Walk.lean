import Cinder.Proofs.Scoping.Expressions

/-!
# The walk of the resolver

The resolver keeps one stack of frames that it pushes, pops and writes to as it goes. On programs
whose identifiers are told apart by their numbers, its walk yields exactly the findings of lexical
scoping, and it leaves the stack as it found it but for what was declared in the innermost frame.
-/
namespace Cinder

namespace Scoping

open Findings (nothing)

/-- Identifiers that are told apart by their numbers and all have a name. -/
structure Proper (ids : List Ident) : Prop where
  distinct : (nodes ids).Nodup
  named : ∀ id ∈ ids, id.name ≠ []

theorem Proper.append {ids more : List Ident} (proper : Proper (ids ++ more)) :
    Proper ids ∧ Proper more ∧ (nodes ids).Disjoint (nodes more) := by
  obtain ⟨distinct, named⟩ := proper
  rw [nodes_append] at distinct
  obtain ⟨left, right, apart⟩ := List.nodup_append'.mp distinct
  refine ⟨⟨left, ?_⟩, ⟨right, ?_⟩, apart⟩
  · intro id mem
    exact named id (List.mem_append_left _ mem)
  · intro id mem
    exact named id (List.mem_append_right _ mem)

theorem Proper.perm {ids more : List Ident} (same : ids.Perm more) (proper : Proper ids) :
    Proper more := by
  constructor
  · exact (same.map Ident.node).nodup_iff.mp proper.distinct
  · intro id mem
    exact proper.named id (same.mem_iff.mpr mem)

/-! ## Steps on the stack -/

theorem yields_findLocal (scope : Scope) (outer : Env) (name : Text) :
    Yields (Resolve.query (·.findLocal name)) [] (scope :: outer) (scope :: outer)
      (scope.find? name) nothing :=
  .query rfl

theorem yields_enter (env : Env) :
    Yields (Resolve.updateScopes fun s => .ok s.enter) [] env (.empty :: env) () nothing :=
  .updateScopes rfl

theorem yields_leave (scope : Scope) (env : Env) :
    Yields (Resolve.updateScopes (·.leave)) [] (scope :: env) env () nothing :=
  .updateScopes rfl

/-- A name that is free and not empty can be given a symbol. -/
theorem yields_put {scope : Scope} {name : Text} (named : name ≠ [])
    (free : scope.contains name = false) (outer : Env) (s : Symbol) :
    Yields (Resolve.updateScopes (·.declare name (some s))) [] (scope :: outer)
      (scope.insert name s :: outer) () nothing :=
  .updateScopes (by simp [Scopes.declare, Env.scopes, named, free])

/-! ## Declarations of variables -/

theorem yields_structNamed {env : Env} (inside : env ≠ []) (name : Text) :
    Yields (Resolve.structNamed name) [] env env (env.struct name) nothing := by
  have look : Yields (Resolve.query (·.find name)) [] env env (env.find name) nothing :=
    .query (Env.find_scopes inside name)
  rw [Resolve.structNamed]
  refine look.after ?_
  rw [Env.struct]
  cases env.find name with
  | none => exact .pure env none
  | some s => cases s <;> exact .pure env _

theorem yields_candidate {env : Env} (inside : env ≠ []) (d : VarDecl) :
    Yields (Resolve.candidate d) (nodes d.type.idents) env env (candidate env d).1
      (candidate env d).2 := by
  obtain ⟨type, name⟩ := d
  cases type with
  | int => exact .pure env _
  | bool => exact .pure env _
  | void => exact (Yields.report env name.position .voidVariable).before (.pure env none)
  | struct typeName =>
    have named := yields_structNamed inside typeName.name
    refine named.after ?_
    simp only [candidate]
    cases env.struct typeName.name with
    | none => exact (Yields.report env typeName.position .unknownStruct).before (.pure env none)
    | some definition =>
      exact (Yields.bindIdent env typeName (.structDef definition)).before (.pure env _)

theorem declare_taken (env : Env) (d : VarDecl) :
    declare env true d = (none, (candidate env d).2 ++ .report d.name.position .redeclared) := rfl

theorem declare_rejected {env : Env} {d : VarDecl} (rejected : (candidate env d).1 = none) :
    declare env false d = (none, (candidate env d).2) := by
  rcases chosen : candidate env d with ⟨symbol?, found⟩
  obtain rfl : symbol? = none := by simpa [chosen] using rejected
  simp only [declare, chosen]

theorem declare_accepted {env : Env} {d : VarDecl} {s : Symbol}
    (accepted : (candidate env d).1 = some s) :
    declare env false d = (some s, (candidate env d).2 ++ .bind d.name s) := by
  rcases chosen : candidate env d with ⟨symbol?, found⟩
  obtain rfl : symbol? = some s := by simpa [chosen] using accepted
  simp only [declare, chosen]

theorem candidate_some {env : Env} {d : VarDecl} {s : Symbol}
    (accepted : (candidate env d).1 = some s) : s.name = d.name.name ∧ s.type = d.type.type := by
  obtain ⟨type, name⟩ := d
  cases type with
  | void => cases accepted
  | struct typeName =>
    simp only [candidate] at accepted
    cases found : env.struct typeName.name with
    | none => simp [found] at accepted
    | some definition =>
      simp only [found, Option.some.injEq] at accepted
      subst accepted
      exact ⟨rfl, rfl⟩
  | _ =>
    cases accepted
    exact ⟨rfl, rfl⟩

theorem yields_varDecl {scope : Scope} {outer : Env} {d : VarDecl} (proper : Proper d.idents) :
    let one := declare (scope :: outer) (scope.contains d.name.name) d
    Yields (Resolve.varDecl d) (nodes d.idents) (scope :: outer)
      (one.1.elim scope (scope.insert d.name.name) :: outer) (one.1.map Symbol.type) one.2 := by
  have chosen := @yields_candidate (scope :: outer) (by simp) d
  have look := yields_findLocal scope outer d.name.name
  obtain ⟨_, ⟨_, named⟩, apart⟩ := proper.append
  rw [Resolve.varDecl, VarDecl.idents, nodes_append]
  cases taken : scope.contains d.name.name with
  | true =>
    have known : (scope.find? d.name.name).isSome = true := taken
    refine chosen.bind (look.after ?_) apart
    simp only [known, if_true]
    refine (Yields.report _ d.name.position .redeclared).before ?_
    cases (candidate (scope :: outer) d).1 <;> exact .pure _ none
  | false =>
    have unknown : (scope.find? d.name.name).isSome = false := taken
    cases accepted : (candidate (scope :: outer) d).1 with
    | none =>
      rw [accepted] at chosen
      rw [declare_rejected accepted]
      refine (chosen.before (look.after ?_)).widen fun n => List.mem_append_left _
      simp only [unknown]
      exact .pure _ none
    | some s =>
      rw [accepted] at chosen
      rw [declare_accepted accepted]
      refine chosen.bind (look.after ?_) apart
      simp only [unknown, Bool.false_eq_true, if_false, Option.map_some, (candidate_some accepted).2]
      have put := yields_put (named d.name (by simp)) taken outer s
      exact put.after ((Yields.bindIdent _ d.name s).before (.pure _ _))

theorem yields_varDecls {outer : Env} : {scope : Scope} → (ds : List VarDecl) →
    Proper (ds.flatMap VarDecl.idents) →
    let all := declareAll (· :: outer) scope ds
    Yields (Resolve.varDecls ds) (nodes (ds.flatMap VarDecl.idents)) (scope :: outer)
      (all.scope :: outer) () all.findings
  | scope, [], _ => .pure (scope :: outer) ()
  | scope, d :: ds, proper => by
    rw [List.flatMap_cons] at proper ⊢
    obtain ⟨first, second, apart⟩ := proper.append
    rw [nodes_append]
    exact (yields_varDecl first).seq (yields_varDecls ds second) apart

theorem yields_formals {outer : Env} : {scope : Scope} → (ds : List VarDecl) →
    Proper (ds.flatMap VarDecl.idents) →
    let all := declareAll (· :: outer) scope ds
    Yields (Resolve.formals ds) (nodes (ds.flatMap VarDecl.idents)) (scope :: outer)
      (all.scope :: outer) (paramTypes all.symbols) all.findings
  | scope, [], _ => .pure (scope :: outer) []
  | scope, d :: ds, proper => by
    rw [List.flatMap_cons] at proper ⊢
    obtain ⟨first, second, apart⟩ := proper.append
    rw [nodes_append]
    exact (yields_varDecl first).bind ((yields_formals ds second).before (.pure _ _)) apart

/-! ## Statements -/

/-- What is done in a frame that has been entered, up to its end. -/
def frameSteps (decls : List VarDecl) (body : List Stmt) : Resolve Unit := do
  Resolve.varDecls decls
  Resolve.stmts body
  Resolve.updateScopes (·.leave)

/-- Declarations of a frame are gone when it has been left. -/
theorem yields_frameSteps {scope : Scope} {env : Env} {decls : List VarDecl} {body : List Stmt}
    (proper : Proper (decls.flatMap VarDecl.idents))
    (apart : (nodes (decls.flatMap VarDecl.idents)).Disjoint (nodes (Stmt.identsAll body)))
    (inner : ∀ env : Env, env ≠ [] →
      Yields (Resolve.stmts body) (nodes (Stmt.identsAll body)) env env () (stmts env body)) :
    let all := declareAll (· :: env) scope decls
    Yields (frameSteps decls body)
      (nodes (decls.flatMap VarDecl.idents) ++ nodes (Stmt.identsAll body)) (scope :: env) env ()
      (all.findings ++ stmts (all.scope :: env) body) := by
  exact (yields_varDecls decls proper).seq
    ((inner _ (by simp)).before (yields_leave _ env)) apart

mutual

theorem yields_stmt {env : Env} (inside : env ≠ []) : (s : Stmt) → Proper s.idents →
    Yields (Resolve.stmt s) (nodes s.idents) env env () (stmt env s)
  | .assign target value, proper => by
    rw [Stmt.idents, nodes_append]
    obtain ⟨first, second, apart⟩ := proper.append
    exact (yields_exp inside target first.distinct).seq
      (yields_exp inside value second.distinct) apart
  | .increment target, proper => yields_exp inside target proper.distinct
  | .decrement target, proper => yields_exp inside target proper.distinct
  | .read target, proper => yields_exp inside target proper.distinct
  | .write value, proper => yields_exp inside value proper.distinct
  | .ifThen condition body, proper => by
    rw [Stmt.idents, nodes_append]
    obtain ⟨first, second, apart⟩ := proper.append
    exact (yields_exp inside condition first.distinct).seq (yields_block body second) apart
  | .ifElse condition yes no, proper => by
    rw [Stmt.idents, List.append_assoc] at proper ⊢
    obtain ⟨first, branches, apart⟩ := proper.append
    obtain ⟨second, third, between⟩ := branches.append
    rw [nodes_append, nodes_append yes.idents]
    rw [nodes_append] at apart
    exact (yields_exp inside condition first.distinct).seq
      ((yields_block yes second).seq (yields_block no third) between) apart
  | .whileLoop condition body, proper => by
    rw [Stmt.idents, nodes_append]
    obtain ⟨first, second, apart⟩ := proper.append
    exact (yields_exp inside condition first.distinct).seq (yields_block body second) apart
  | .repeatLoop count body, proper => by
    rw [Stmt.idents, nodes_append]
    obtain ⟨first, second, apart⟩ := proper.append
    exact (yields_exp inside count first.distinct).seq (yields_block body second) apart
  | .call callee args, proper => yields_exp inside (.call callee args) proper.distinct
  | .giveBack none _, _ => .pure env ()
  | .giveBack (some value) _, proper => yields_exp inside value proper.distinct

theorem yields_block {env : Env} : (b : Block) → Proper b.idents →
    Yields (Resolve.block b) (nodes b.idents) env env () (block env b)
  | .mk decls body, proper => by
    rw [Block.idents, nodes_append]
    obtain ⟨first, second, apart⟩ := proper.append
    exact (yields_enter env).after
      (yields_frameSteps first apart fun _ inside => yields_stmts inside body second)

theorem yields_stmts {env : Env} (inside : env ≠ []) : (ss : List Stmt) →
    Proper (Stmt.identsAll ss) →
    Yields (Resolve.stmts ss) (nodes (Stmt.identsAll ss)) env env () (stmts env ss)
  | [], _ => .pure env ()
  | s :: ss, proper => by
    rw [Stmt.identsAll, nodes_append]
    obtain ⟨first, second, apart⟩ := proper.append
    exact (yields_stmt inside s first).seq (yields_stmts inside ss second) apart

end

/-! ## Structs -/

/-- Every symbol stands under its own name. -/
def Labelled (scope : Scope) : Prop := ∀ entry ∈ scope.entries, entry.2.name = entry.1

theorem field?_values {scope : Scope} (labelled : Labelled scope) (struct name : Text) :
    (StructDef.mk struct scope.values).field? name = scope.find? name := by
  rw [StructDef.field?, StructDef.fields, Table.values, Table.find?]
  rw [Labelled] at labelled
  generalize scope.entries = entries at labelled
  induction entries with
  | nil => rfl
  | cons entry rest ih =>
    have here : entry.2.name = entry.1 := labelled entry (by simp)
    have below := ih fun entry mem => labelled entry (List.mem_cons_of_mem _ mem)
    rw [List.map_cons, List.find?_cons, Table.lookup_cons_eq, below, here]
    by_cases same : entry.1 = name
    · simp [same]
    · simp [same, Ne.symm same]

theorem labelled_insert {scope : Scope} (labelled : Labelled scope) {name : Text} {s : Symbol}
    (free : name ∉ scope.keys) (own : s.name = name) : Labelled (scope.insert name s) := by
  rw [Table.insert, Table.put_of_not_mem free]
  intro entry mem
  rcases List.mem_append.mp mem with old | new
  · exact labelled entry old
  · obtain rfl := List.mem_singleton.mp new
    exact own

theorem labelled_declareAll {visible : Scope → Env} : {scope : Scope} → Labelled scope →
    (ds : List VarDecl) → Labelled (declareAll visible scope ds).scope
  | _, labelled, [] => labelled
  | scope, labelled, d :: ds => by
    refine labelled_declareAll ?_ ds
    cases taken : scope.contains d.name.name with
    | true => exact labelled
    | false =>
      cases accepted : (candidate (visible scope) d).1 with
      | none => rwa [declare_rejected accepted]
      | some s =>
        rw [declare_accepted accepted]
        exact labelled_insert labelled (Table.contains_eq_false.mp taken)
          (candidate_some accepted).1

theorem yields_fieldDecl {env : Env} (inside : env ≠ []) {scope : Scope} (labelled : Labelled scope)
    (struct : Text) {d : VarDecl} (proper : Proper d.idents) :
    let one := declare env (scope.contains d.name.name) d
    Yields (Resolve.fieldDecl (.mk struct scope.values) d) (nodes d.idents) env env
      (.mk struct (one.1.elim scope (scope.insert d.name.name)).values) one.2 := by
  have chosen := yields_candidate inside d
  obtain ⟨_, ⟨_, named⟩, apart⟩ := proper.append
  rw [Resolve.fieldDecl, VarDecl.idents, nodes_append]
  have known : ((StructDef.mk struct scope.values).field? d.name.name).isSome
      = scope.contains d.name.name := by
    rw [field?_values labelled]
    rfl
  simp only [known]
  cases taken : scope.contains d.name.name with
  | true =>
    refine chosen.bind ?_ apart
    refine (Yields.report _ d.name.position .redeclared).before ?_
    cases (candidate env d).1 <;> exact .pure _ _
  | false =>
    cases accepted : (candidate env d).1 with
    | none =>
      rw [accepted] at chosen
      rw [declare_rejected accepted]
      refine (chosen.before ?_).widen fun n => List.mem_append_left _
      exact .pure _ _
    | some s =>
      rw [accepted] at chosen
      rw [declare_accepted accepted]
      refine chosen.bind ?_ apart
      have own : s.name = d.name.name := (candidate_some accepted).1
      have declared : (StructDef.mk struct scope.values).declare s =
          .ok (.mk struct (scope.insert d.name.name s).values) := by
        have absent := Table.contains_eq_false.mp taken
        rw [StructDef.declare, own, known, taken, if_neg (named d.name (by simp)),
          Table.insert, Table.put_of_not_mem absent]
        simp [StructDef.name, StructDef.fields, Table.values]
      simp only [declared]
      exact (Yields.bindIdent _ d.name s).before (.pure _ _)

theorem yields_fieldDecls {env : Env} (inside : env ≠ []) (struct : Text) : {scope : Scope} →
    Labelled scope → (ds : List VarDecl) → Proper (ds.flatMap VarDecl.idents) →
    let all := declareAll (fun _ => env) scope ds
    Yields (Resolve.fieldDecls (.mk struct scope.values) ds) (nodes (ds.flatMap VarDecl.idents))
      env env (.mk struct all.scope.values) all.findings
  | scope, _, [], _ => .pure env _
  | scope, labelled, d :: ds, proper => by
    rw [List.flatMap_cons] at proper ⊢
    obtain ⟨first, second, apart⟩ := proper.append
    rw [nodes_append]
    have still := @labelled_declareAll (fun _ => env) scope labelled [d]
    exact (yields_fieldDecl inside labelled struct first).bind
      (yields_fieldDecls inside struct still ds second) apart

theorem yields_structDecl {globals : Scope} {d : StructDecl} (proper : Proper (Decl.struct d).idents) :
    Yields (Resolve.structDecl d) (nodes (Decl.struct d).idents) [globals]
      [(structDecl globals d).1] () (structDecl globals d).2 := by
  have look := yields_findLocal globals [] d.name.name
  obtain ⟨⟨_, named⟩, fields, apart⟩ := @Proper.append [d.name] _ proper
  rw [Resolve.structDecl, structDecl]
  refine look.after ?_
  cases taken : globals.contains d.name.name with
  | true =>
    have known : (globals.find? d.name.name).isSome = true := taken
    simp only [known, if_true]
    exact .report _ d.name.position .redeclared
  | false =>
    have unknown : (globals.find? d.name.name).isSome = false := taken
    simp only [unknown, Bool.false_eq_true, if_false]
    have bare : Labelled .empty := by simp [Labelled, Table.empty]
    have inner := yields_fieldDecls (List.cons_ne_nil globals []) d.name.name bare d.fields fields
    have put := yields_put (named d.name (by simp)) taken []
    have rest : ∀ s, Yields (do
        Resolve.updateScopes (·.declare d.name.name (some s))
        Resolve.bind d.name s) (nodes [d.name]) [globals] [globals.insert d.name.name s] ()
        (.bind d.name s) := fun s => (put s).after (.bindIdent _ d.name s)
    refine (inner.bind (rest _) (List.disjoint_comm.mp apart)).widen fun n mem => ?_
    simpa [Decl.idents, nodes, or_comm] using mem

/-! ## Functions -/

theorem yields_resultType {globals : Scope} (type : TypeExp) :
    Yields (Resolve.resultType type) (nodes type.idents) [globals] [globals] ()
      (resultType globals type) := by
  cases type with
  | struct name =>
    refine (yields_structNamed (List.cons_ne_nil globals []) name.name).after ?_
    simp only [resultType]
    cases Env.struct [globals] name.name with
    | none => exact (Yields.pure _ ()).widen (by simp)
    | some definition => exact .bindIdent _ name _
  | _ => exact .pure _ ()

/-- A function name that was free hides no struct. -/
theorem struct_insert_function {scopes : List Scope} {globals : Scope} {name : Text}
    (free : globals.contains name = false) (result : Ty) (params : List Ty) (other : Text) :
    Env.struct (scopes ++ [globals.insert name (.function name result params)]) other =
      Env.struct (scopes ++ [globals]) other := by
  have absent : globals.find? name = none := by
    simpa [Table.contains] using free
  rw [Env.struct, Env.struct, Env.find, Env.find, List.findSome?_append, List.findSome?_append]
  cases scopes.findSome? (·.find? other) with
  | some s => rfl
  | none =>
    simp only [Option.none_or, List.findSome?_cons, List.findSome?_nil, Table.find?_insert]
    by_cases same : other = name
    · simp [same, absent]
    · simp [same]

theorem candidate_congr {env env' : Env} (same : ∀ name, env.struct name = env'.struct name)
    (d : VarDecl) : candidate env d = candidate env' d := by
  obtain ⟨type, name⟩ := d
  cases type <;> simp only [candidate, same]

theorem declareAll_congr {visible visible' : Scope → Env}
    (same : ∀ scope name, (visible scope).struct name = (visible' scope).struct name) :
    (scope : Scope) → (ds : List VarDecl) →
    declareAll visible scope ds = declareAll visible' scope ds
  | _, [] => rfl
  | scope, d :: ds => by
    simp only [declareAll, declare, candidate_congr (same scope) d, declareAll_congr same _ ds]

/-- Completing the symbol of a function is as good as declaring it complete at once. -/
theorem yields_completeFn {α : Type} {step : Resolve α} {next : α → Resolve Unit} {a : α}
    {ids : List Nat} {globals scope : Scope} {d : FnDecl} {early params : List Ty} {f : Findings}
    (free : globals.contains d.name.name = false) (here : d.name.node ∈ ids)
    (completes : next a = Resolve.completeFn d params)
    (first : Yields step ids [globals]
      [scope, globals.insert d.name.name (.function d.name.name d.resultType.type early)] a
      (.bind d.name (.function d.name.name d.resultType.type early) ++ f)) :
    Yields (step >>= next) ids [globals]
      [scope, globals.insert d.name.name (.function d.name.name d.resultType.type params)] ()
      (.bind d.name (.function d.name.name d.resultType.type params) ++ f) := by
  constructor
  · exact first.within
  · exact first.once
  · intro r stack fresh
    have absent : d.name.node ∉ r.bindings.idents.entries.map Prod.fst := by
      intro known
      exact fresh d.name.node here (by simp [Resolver.nodes, known])
    have unknown := Table.contains_eq_false.mp free
    rw [run_bind (first.runs r stack fresh), completes]
    change EStateM.Result.ok () _ = _
    congr 1
    simp only [Resolver.extend, Env.scopes, Scopes.amendOuter, Bindings.amend, Table.insert,
      Findings.idents_append, Findings.bind, List.singleton_append, Table.put_of_not_mem unknown,
      Table.put_of_mem unknown, Table.put_of_mem absent]
    rfl

/-- The part of a function before its body. -/
def heading (d : FnDecl) : Resolve (Bool × List Ty) := do
  let accepted ← Resolve.fnName d
  Resolve.resultType d.resultType
  Resolve.updateScopes fun s => .ok s.enter
  let params ← Resolve.formals d.formals
  return (accepted, params)

/-- What is done between the heading and the body. -/
def completion (d : FnDecl) : Bool × List Ty → Resolve Unit
  | (true, params) => Resolve.completeFn d params
  | (false, _) => return ()

theorem fnDecl_eq_heading (d : FnDecl) :
    Resolve.fnDecl d =
      (heading d >>= completion d) >>= fun _ => frameSteps d.body.decls d.body.stmts := by
  simp only [Resolve.fnDecl, heading, frameSteps, bind_assoc, pure_bind]
  refine bind_congr fun accepted => bind_congr fun _ => bind_congr fun _ => bind_congr fun _ => ?_
  cases accepted <;> simp [completion]

/-- The identifiers of a function in the order in which they are resolved. -/
def fnIdents (d : FnDecl) : List Ident :=
  [d.name] ++ (d.resultType.idents ++ d.formals.flatMap VarDecl.idents) ++ d.body.idents

theorem fnIdents_perm (d : FnDecl) : (Decl.fn d).idents.Perm (fnIdents d) := by
  rw [Decl.idents, fnIdents, ← List.append_assoc [d.name]]
  exact ((List.perm_append_comm.append_right _).append_right _)

/-- The same with the parts of a function taken one by one. -/
theorem idents_fn_perm (d : FnDecl) : (Decl.fn d).idents.Perm ([d.name] ++ (d.resultType.idents ++
    (d.formals.flatMap VarDecl.idents ++ d.body.idents))) := by
  simpa [fnIdents] using fnIdents_perm d

theorem yields_heading {globals outer : Scope} {d : FnDecl} {accepted : Bool} {own : Findings}
    (name : Yields (Resolve.fnName d) (nodes [d.name]) [globals] [outer] accepted own)
    (same : ∀ scopes other,
      Env.struct (scopes ++ [outer]) other = Env.struct (scopes ++ [globals]) other)
    (proper : Proper ([d.name] ++ (d.resultType.idents ++ d.formals.flatMap VarDecl.idents))) :
    let all := declareAll (· :: [globals]) .empty d.formals
    Yields (heading d)
      (nodes ([d.name] ++ (d.resultType.idents ++ d.formals.flatMap VarDecl.idents)))
      [globals] [all.scope, outer] (accepted, paramTypes all.symbols)
      (own ++ (resultType globals d.resultType ++ all.findings)) := by
  obtain ⟨_, rest, apart⟩ := proper.append
  obtain ⟨_, formals, between⟩ := rest.append
  rw [nodes_append] at apart
  rw [nodes_append, nodes_append d.resultType.idents]
  have enter := yields_enter [outer]
  have result := @yields_resultType outer d.resultType
  have result_eq : resultType outer d.resultType = resultType globals d.resultType := by
    have alone : ∀ other, Env.struct [outer] other = Env.struct [globals] other := same []
    cases d.resultType <;> simp only [resultType, alone]
  have declared := @yields_formals [outer] .empty d.formals formals
  have declared_eq := @declareAll_congr (· :: [outer]) (· :: [globals]) (fun scope => same [scope])
    .empty d.formals
  rw [result_eq] at result
  rw [declared_eq] at declared
  exact name.bind (result.seq (enter.after (declared.before (.pure _ _))) between) apart

theorem yields_fnBody (scope outer : Scope) {b : Block} (proper : Proper b.idents) :
    let all := declareAll (· :: [outer]) scope b.decls
    Yields (frameSteps b.decls b.stmts) (nodes b.idents) [scope, outer] [outer] ()
      (all.findings ++ stmts [all.scope, outer] b.stmts) := by
  obtain ⟨decls, body⟩ := b
  rw [Block.idents, nodes_append]
  obtain ⟨first, second, apart⟩ := proper.append
  exact yields_frameSteps first apart fun _ inside => yields_stmts inside body second

/-- What is found out about the name of a function. -/
def ownFindings (globals : Scope) (d : FnDecl) : Findings :=
  let formals := declareAll (· :: [globals]) .empty d.formals
  let symbol := Symbol.function d.name.name d.resultType.type (paramTypes formals.symbols)
  if globals.contains d.name.name then .report d.name.position .redeclared else .bind d.name symbol

/-- Before its body, the formals of a function are declared, and its own name is around them. -/
theorem yields_headed {globals : Scope} {d : FnDecl}
    (proper : Proper ([d.name] ++ (d.resultType.idents ++ d.formals.flatMap VarDecl.idents))) :
    let formals := declareAll (· :: [globals]) .empty d.formals
    Yields (heading d >>= completion d)
      (nodes ([d.name] ++ (d.resultType.idents ++ d.formals.flatMap VarDecl.idents)))
      [globals] [formals.scope, (fnDecl globals d).1] ()
      (ownFindings globals d ++ (resultType globals d.resultType ++ formals.findings)) := by
  have look := yields_findLocal globals [] d.name.name
  rw [fnDecl, ownFindings]
  cases taken : globals.contains d.name.name with
  | true =>
    have known : (globals.find? d.name.name).isSome = true := taken
    have name : Yields (Resolve.fnName d) (nodes [d.name]) [globals] [globals] false
        (.report d.name.position .redeclared) := by
      refine look.after ?_
      simp only [known, if_true]
      exact (Yields.report _ _ _).before (.pure _ _)
    exact (yields_heading name (fun _ _ => rfl) proper).before (.pure _ ())
  | false =>
    have unknown : (globals.find? d.name.name).isSome = false := taken
    let early := Symbol.function d.name.name d.resultType.type []
    have put := yields_put (proper.named d.name (by simp)) taken [] early
    have name : Yields (Resolve.fnName d) (nodes [d.name]) [globals]
        [globals.insert d.name.name early] true (.bind d.name early) := by
      refine look.after ?_
      simp only [unknown, Bool.false_eq_true, if_false]
      exact put.after ((Yields.bindIdent _ _ _).before (.pure _ _))
    have here : d.name.node ∈
        nodes ([d.name] ++ (d.resultType.idents ++ d.formals.flatMap VarDecl.idents)) := by
      simp [nodes]
    have begun := yields_heading name (fun _ other => struct_insert_function taken _ _ other) proper
    exact yields_completeFn taken here rfl begun

theorem yields_fnDecl {globals : Scope} {d : FnDecl} (proper : Proper (Decl.fn d).idents) :
    Yields (Resolve.fnDecl d) (nodes (Decl.fn d).idents) [globals] [(fnDecl globals d).1] ()
      (fnDecl globals d).2 := by
  obtain ⟨head, inner, apart⟩ := (proper.perm (fnIdents_perm d)).append
  have order : ∀ n ∈ nodes (fnIdents d), n ∈ nodes (Decl.fn d).idents := by
    intro n mem
    exact ((fnIdents_perm d).map Ident.node).mem_iff.mpr mem
  have whole := (@yields_headed globals d head).seq (yields_fnBody _ _ inner) apart
  rw [Findings.append_assoc, Findings.append_assoc, ← nodes_append] at whole
  rw [fnDecl_eq_heading]
  exact whole.widen order

/-! ## The file -/

theorem yields_decl {globals : Scope} : (d : Decl) → Proper d.idents →
    Yields (Resolve.decl d) (nodes d.idents) [globals] [(decl globals d).1] () (decl globals d).2
  | .var d, proper => by
    have alone : [d].flatMap VarDecl.idents = d.idents := by simp
    have declared := @yields_varDecls [] globals [d]
    rw [alone] at declared
    exact declared proper
  | .fn _, proper => yields_fnDecl proper
  | .struct _, proper => yields_structDecl proper

theorem yields_decls : {globals : Scope} → (ds : List Decl) → Proper (ds.flatMap Decl.idents) →
    Yields (Resolve.decls ds) (nodes (ds.flatMap Decl.idents)) [globals] [(decls globals ds).1] ()
      (decls globals ds).2
  | globals, [], _ => .pure [globals] ()
  | _, d :: ds, proper => by
    rw [List.flatMap_cons] at proper ⊢
    obtain ⟨first, second, apart⟩ := proper.append
    rw [nodes_append]
    exact (yields_decl d first).seq (yields_decls ds second) apart

end Scoping

end Cinder
