import Cinder.Proofs.Faultless
import Cinder.Proofs.Nominal

/-!
# Visits to expressions

The resolver visits every expression of a program, and every part of one. When it does, the names of
the expression are still unknown, and the rest of the walk adds the findings about the expression to
the state of the visit and then others, none of which are about these names. So what is bound to
them in the end is what the environment of the visit says. Of that environment, the last scope is
the file scope up to the function that the expression stands in, and the others hold variables only.
-/
namespace Cinder

/-- The expression of a statement that is resolved before the blocks inside the statement. -/
def Stmt.subject : Stmt → Option Exp
  | .assign target value => some (.assign target value)
  | .increment target => some target
  | .decrement target => some target
  | .read target => some target
  | .write value => some value
  | .ifThen condition _ => some condition
  | .ifElse condition _ _ => some condition
  | .whileLoop condition _ => some condition
  | .repeatLoop count _ => some count
  | .call callee args => some (.call callee args)
  | .giveBack value _ => value

theorem Exp.identsAll_append (es more : List Exp) :
    Exp.identsAll (es ++ more) = Exp.identsAll es ++ Exp.identsAll more := by
  induction es with
  | nil => rfl
  | cons e es ih => rw [List.cons_append, identsAll, ih, identsAll, List.append_assoc]

/-- What a variable, a formal or a field is bound to. -/
def Symbol.isVariable : Symbol → Bool
  | plain _ _ => true
  | structVar _ _ _ => true
  | _ => false

namespace Scoping

open Findings (nothing)

/-- In the analysis of a program the resolver comes to an expression in a state. -/
inductive Visited (p : Program) : Exp → Resolver → Prop where
  | subject {s e r} (call : Called p (.stmt s) r) (own : s.subject = some e) : Visited p e r
  | base {base field r} (visit : Visited p (.dot base field) r) : Visited p base r
  | target {target value r} (visit : Visited p (.assign target value) r) : Visited p target r
  | value {target value r s} (visit : Visited p (.assign target value) r)
      (done : Resolve.exp target r = .ok () s) : Visited p value s
  | callee {callee args r} (visit : Visited p (.call callee args) r) : Visited p (.ident callee) r
  | argument {callee before e after r s} (visit : Visited p (.call callee (before ++ e :: after)) r)
      (done : (do
        Resolve.useIdent callee
        Resolve.exps before) r = .ok () s) : Visited p e s
  | operand {op operand r} (visit : Visited p (.unary op operand) r) : Visited p operand r
  | left {op left right r} (visit : Visited p (.binary op left right) r) : Visited p left r
  | right {op left right r s} (visit : Visited p (.binary op left right) r)
      (done : Resolve.exp left r = .ok () s) : Visited p right s

/-! ## Lists of findings -/

theorem exps_append (env : Env) (es more : List Exp) :
    exps env (es ++ more) = exps env es ++ exps env more := by
  induction es with
  | nil => rfl
  | cons e es ih => rw [List.cons_append, exps, ih, exps, Findings.append_assoc]

theorem decls_append (globals : Scope) (ds more : List Decl) :
    decls globals (ds ++ more) =
      ((decls (decls globals ds).1 more).1,
        (decls globals ds).2 ++ (decls (decls globals ds).1 more).2) := by
  induction ds generalizing globals with
  | nil => rfl
  | cons d ds ih => rw [List.cons_append, decls, ih, decls, Findings.append_assoc]

@[simp] theorem Findings.symbolOf_bind (id : Ident) (s : Symbol) :
    (Findings.bind id s).bindings.symbolOf id = some s := by
  simp [bind, bindings, Bindings.symbolOf, Table.find?]

/-! ## Scopes of variables -/

/-- A scope in which only variables are declared. -/
def OfVariables (scope : Scope) : Prop := ∀ entry ∈ scope.entries, entry.2.isVariable = true

/-- Every scope but the last, which is the file scope, is one of variables. -/
def Env.Layered (env : Env) : Prop := ∀ scope ∈ env.dropLast, OfVariables scope

theorem ofVariables_empty : OfVariables .empty := by
  intro entry mem
  cases mem

theorem isVariable_of_candidate {env : Env} {d : VarDecl} {s : Symbol}
    (accepted : (candidate env d).1 = some s) : s.isVariable = true := by
  obtain ⟨type, name⟩ := d
  cases type with
  | void => cases accepted
  | struct typeName =>
    simp only [candidate] at accepted
    cases found : env.struct typeName.name with
    | none => simp [found] at accepted
    | some definition =>
      simp only [found, Option.some.injEq] at accepted
      subst accepted
      rfl
  | _ =>
    cases accepted
    rfl

theorem ofVariables_declareAll {visible : Scope → Env} : {scope : Scope} → OfVariables scope →
    (ds : List VarDecl) → OfVariables (declareAll visible scope ds).scope
  | _, own, [] => own
  | scope, own, d :: ds => by
    refine ofVariables_declareAll ?_ ds
    cases taken : scope.contains d.name.name with
    | true => exact own
    | false =>
      cases accepted : (candidate (visible scope) d).1 with
      | none => rwa [declare_rejected accepted]
      | some s =>
        rw [declare_accepted accepted]
        intro entry mem
        rcases Table.mem_put mem with rfl | old
        · exact isVariable_of_candidate accepted
        · exact own entry old

theorem Env.Layered.cons {scope : Scope} {env : Env} (layered : env.Layered) (inside : env ≠ [])
    (own : OfVariables scope) : Env.Layered (scope :: env) := by
  intro other mem
  rw [List.dropLast_cons_of_ne_nil inside] at mem
  rcases List.mem_cons.mp mem with rfl | mem
  · exact own
  · exact layered other mem

/-! ## The place of a part in the whole -/

/-- The names of a part are pending. The walk ends in the state that is there before the part,
extended by the findings about the part and by others that are not about its names. -/
structure Sited (p : Program) (ids : List Ident) (env : Env) (f : Findings) (r : Resolver) :
    Prop where
  pending : Pending ids r
  stack : r.scopes = env.scopes
  ends : ∃ later : Findings, p.resolve = .ok (r.extend [(program p).1] (f ++ later)) ∧
    ∀ n ∈ nodes ids, n ∉ later.nodes

namespace Sited

variable {p : Program} {ids more others : List Ident} {env env' : Env} {f g h : Findings}
  {r s : Resolver}

theorem perm (sited : Sited p ids env f r) (same : ids.Perm more) : Sited p more env f r := by
  obtain ⟨later, resolved, apart⟩ := sited.ends
  refine ⟨sited.pending.perm same, sited.stack, later, resolved, fun n mem => apart n ?_⟩
  exact (same.map Ident.node).mem_iff.mpr mem

/-- From a part to one inside it, when the steps before it have been taken. -/
theorem inner {α : Type} {step : Resolve α} {a a' : α}
    (sited : Sited p (ids ++ (more ++ others)) env (f ++ (g ++ h)) r)
    (first : Yields step (nodes ids) env env' a f) (done : step r = .ok a' s)
    (rest : ∀ n ∈ h.nodes, n ∈ nodes others) : Sited p more env' g s := by
  obtain ⟨later, resolved, apart⟩ := sited.ends
  obtain ⟨_, proper, beside⟩ := sited.pending.proper.append
  obtain ⟨own, _, between⟩ := proper.append
  rw [first.runs r sited.stack sited.pending.left.fresh] at done
  cases done
  rw [nodes_append] at beside
  -- after the inner part comes the rest of the outer one, and then what came after that
  refine ⟨⟨own, first.leaves_fresh ?_ sited.pending.right.left.fresh⟩, rfl, h ++ later, ?_, ?_⟩
  · exact List.disjoint_of_subset_right (List.subset_append_left _ _) beside
  · rw [resolved, Resolver.extend_extend, Findings.append_assoc, Findings.append_assoc]
  · intro n mem known
    rcases Findings.mem_nodes_append.mp known with old | new
    · exact between mem (rest n old)
    · exact apart n (by simp [nodes_append, mem]) new

/-- From a part to what it begins with. -/
theorem left (sited : Sited p (more ++ others) env (g ++ h) r)
    (rest : ∀ n ∈ h.nodes, n ∈ nodes others) : Sited p more env g r :=
  @inner p [] more others env env nothing g h r r Unit (pure ()) () () sited (.pure env ()) rfl rest

/-- From a part to what it ends with. -/
theorem right {α : Type} {step : Resolve α} {a a' : α} (sited : Sited p (ids ++ more) env (f ++ g) r)
    (first : Yields step (nodes ids) env env' a f) (done : step r = .ok a' s) :
    Sited p more env' g s := by
  refine @inner p ids more [] env env' f g nothing r s α step a a' ?_ first done ?_
  · rwa [List.append_nil, Findings.append_nothing]
  · intro n mem
    cases mem

/-- What is bound to the names of a part in the end was found out about the part. -/
theorem bindings {final : Resolver} (sited : Sited p ids env f r) (resolved : p.resolve = .ok final)
    {id : Ident} (mem : id.node ∈ nodes ids) :
    final.bindings.symbolOf id = f.bindings.symbolOf id ∧
      final.bindings.structOf id = f.bindings.structOf id := by
  obtain ⟨later, ends, apart⟩ := sited.ends
  rw [ends] at resolved
  cases resolved
  have fresh := sited.pending.fresh _ mem
  simp only [Resolver.nodes, List.mem_append, not_or] at fresh
  obtain ⟨unbound, none⟩ := Findings.not_mem_of_nodes (apart _ mem)
  constructor
  · change (r.bindings.idents.entries ++ (f ++ later).idents).lookup id.node = _
    rw [List.lookup_append, Table.lookup_eq_none.mpr fresh.1.1, Option.none_or]
    exact (Findings.symbolOf_append f later id).trans (by rw [unbound, Option.or_none])
  · change (r.bindings.dots.entries ++ (f ++ later).dots).lookup id.node = _
    rw [List.lookup_append, Table.lookup_eq_none.mpr fresh.1.2, Option.none_or]
    exact (Findings.structOf_append f later id).trans (by rw [none, Option.or_none])

end Sited

/-! ## Calls -/

/-- What is found out about a part. -/
def Part.findings (env : Env) : Part → Findings
  | decls ds => (Scoping.decls (env.headD .empty) ds).2
  | fn d => (fnDecl (env.headD .empty) d).2
  | block b => Scoping.block env b
  | stmts ss => Scoping.stmts env ss
  | stmt s => Scoping.stmt env s

/-- A part is called where it stands in the program, in an environment that fits it. -/
structure Placed (p : Program) (part : Part) (env : Env) (r : Resolver) : Prop where
  fits : part.Fits env
  layered : env.Layered
  sited : Sited p part.idents env (part.findings env) r

theorem layered_alone (globals : Scope) : Env.Layered [globals] := by
  intro scope mem
  cases mem

variable {p : Program} {r s : Resolver} {env : Env}

theorem yields_blockEntry {decls : List VarDecl} (proper : Proper (decls.flatMap VarDecl.idents)) :
    let all := declareAll (· :: env) .empty decls
    Yields (blockEntry decls) (nodes (decls.flatMap VarDecl.idents)) env (all.scope :: env) ()
      all.findings :=
  (yields_enter env).after (yields_varDecls decls proper)

/-- What is found out about a function before its statements. -/
theorem yields_fnEntry {globals : Scope} {d : FnDecl}
    (proper : Proper ([d.name] ++ (d.resultType.idents ++ d.formals.flatMap VarDecl.idents) ++
      d.body.decls.flatMap VarDecl.idents)) :
    let formals := declareAll (· :: [globals]) .empty d.formals
    let body := declareAll (· :: [(fnDecl globals d).1]) formals.scope d.body.decls
    Yields (fnEntry d)
      (nodes ([d.name] ++ (d.resultType.idents ++ d.formals.flatMap VarDecl.idents) ++
        d.body.decls.flatMap VarDecl.idents))
      [globals] [body.scope, (fnDecl globals d).1] ()
      (ownFindings globals d ++ (resultType globals d.resultType ++ formals.findings) ++
        body.findings) := by
  obtain ⟨head, inner, apart⟩ := proper.append
  rw [fnEntry_eq_heading, nodes_append]
  exact (yields_headed head).seq (yields_varDecls d.body.decls inner) apart

theorem idents_fnBody_perm (d : FnDecl) :
    (Decl.fn d).idents.Perm ([d.name] ++ (d.resultType.idents ++
      d.formals.flatMap VarDecl.idents) ++ d.body.decls.flatMap VarDecl.idents ++
        Stmt.identsAll d.body.stmts) := by
  obtain ⟨type, name, formals, ⟨decls, body⟩⟩ := d
  rw [List.append_assoc]
  exact fnIdents_perm _

theorem Placed.fnBody {d : FnDecl} {globals : Scope} (placed : Placed p (.fn d) [globals] r)
    (done : fnEntry d r = .ok () s) :
    ∃ scope, Placed p (.stmts d.body.stmts) [scope, (fnDecl globals d).1] s := by
  have sited := placed.sited.perm (idents_fnBody_perm d)
  have entered := @yields_fnEntry globals d sited.pending.left.proper
  refine ⟨_, List.cons_ne_nil _ _, ?_, Sited.right ?_ entered done⟩
  · refine (layered_alone _).cons (by simp) (ofVariables_declareAll ?_ d.body.decls)
    exact ofVariables_declareAll ofVariables_empty d.formals
  · rw [Findings.append_assoc, Findings.append_assoc, Findings.append_assoc]
    exact sited

theorem Placed.governed {condition : Exp} {body : Block} (inside : env ≠ []) (layered : env.Layered)
    (sited : Sited p (condition.idents ++ body.idents) env (exp env condition ++ block env body) r)
    (done : Resolve.exp condition r = .ok () s) : Placed p (.block body) env s :=
  ⟨inside, layered,
    sited.right (yields_exp inside condition sited.pending.left.proper.distinct) done⟩

theorem placed_of_called (proper : Proper p.idents) {part : Part} (call : Called p part r) :
    ∃ env, Placed p part env r := by
  induction call with
  | program =>
    refine ⟨[.empty], ⟨.empty, rfl⟩, layered_alone _, ⟨proper, ?_⟩, rfl, nothing, ?_, ?_⟩
    · simp [Resolver.nodes, Resolver.initial, Bindings.empty, Table.empty]
    · rw [Findings.append_nothing]
      exact p.resolve_eq_extend proper
    · intro n _ mem
      cases mem
  | fn _ ih =>
    obtain ⟨env, ⟨globals, rfl⟩, layered, sited⟩ := ih
    rw [Part.idents, List.flatMap_cons] at sited
    have rest := sited.pending.right.proper
    exact ⟨_, ⟨globals, rfl⟩, layered, sited.left (yields_decls _ rest).within⟩
  | rest _ done ih =>
    obtain ⟨env, ⟨globals, rfl⟩, _, sited⟩ := ih
    rw [Part.idents, List.flatMap_cons] at sited
    have first := sited.pending.left.proper
    exact ⟨_, ⟨_, rfl⟩, layered_alone _, sited.right (yields_decl _ first) done⟩
  | fnBody _ done ih =>
    obtain ⟨env, placed⟩ := ih
    obtain ⟨globals, rfl⟩ := placed.fits
    obtain ⟨scope, placed⟩ := placed.fnBody done
    exact ⟨_, placed⟩
  | blockBody _ done ih =>
    obtain ⟨env, inside, layered, sited⟩ := ih
    rw [Part.idents, Block.idents] at sited
    have entered := @yields_blockEntry env _ sited.pending.left.proper
    refine ⟨_, List.cons_ne_nil _ _, layered.cons inside ?_, sited.right entered done⟩
    exact ofVariables_declareAll ofVariables_empty _
  | stmt _ ih =>
    obtain ⟨env, inside, layered, sited⟩ := ih
    have rest := yields_stmts inside _ sited.pending.right.proper
    exact ⟨env, inside, layered, sited.left rest.within⟩
  | others _ done ih =>
    obtain ⟨env, inside, layered, sited⟩ := ih
    have first := yields_stmt inside _ sited.pending.left.proper
    exact ⟨env, inside, layered, sited.right first done⟩
  | ifThen _ done ih | whileLoop _ done ih | repeatLoop _ done ih =>
    obtain ⟨env, inside, layered, sited⟩ := ih
    exact ⟨env, .governed inside layered sited done⟩
  | yes _ done ih =>
    obtain ⟨env, inside, layered, sited⟩ := ih
    rw [Part.idents, Stmt.idents, List.append_assoc] at sited
    have condition := yields_exp inside _ sited.pending.left.proper.distinct
    have rest := @yields_block env _ sited.pending.right.right.proper
    exact ⟨env, inside, layered, sited.inner condition done rest.within⟩
  | no _ done ih =>
    obtain ⟨env, inside, layered, sited⟩ := ih
    rw [Part.idents, Stmt.idents, Part.findings, stmt, ← Findings.append_assoc] at sited
    obtain ⟨first, second, apart⟩ := sited.pending.left.proper.append
    have steps := (yields_exp inside _ first.distinct).seq (yields_block _ second) apart
    rw [← nodes_append] at steps
    exact ⟨env, inside, layered, sited.right steps done⟩

/-! ## Visits -/

/-- What is resolved first in a statement is where the statement begins. -/
theorem Sited.subject {c : Stmt} {e : Exp} (sited : Sited p c.idents env (stmt env c) r)
    (own : c.subject = some e) : Sited p e.idents env (exp env e) r := by
  cases c with
  | ifThen condition body | whileLoop condition body | repeatLoop condition body =>
    cases own
    rw [Stmt.idents] at sited
    exact sited.left (yields_block body sited.pending.right.proper).within
  | ifElse condition yes no =>
    cases own
    rw [Stmt.idents, List.append_assoc] at sited
    obtain ⟨first, second, apart⟩ := sited.pending.right.proper.append
    have blocks := (@yields_block env yes first).seq (yields_block no second) apart
    rw [← nodes_append] at blocks
    exact sited.left blocks.within
  | giveBack value position =>
    cases own
    exact sited
  | _ =>
    cases own
    exact sited

theorem sited_of_visited (proper : Proper p.idents) {e : Exp} (visit : Visited p e r) :
    ∃ env : Env, env ≠ [] ∧ env.Layered ∧ Sited p e.idents env (exp env e) r := by
  induction visit with
  | subject call own =>
    obtain ⟨env, inside, layered, sited⟩ := placed_of_called proper call
    exact ⟨env, inside, layered, sited.subject own⟩
  | base _ ih =>
    obtain ⟨env, inside, layered, sited⟩ := ih
    refine ⟨env, inside, layered, sited.left fun n mem => ?_⟩
    simp [nodes, nodes_select mem]
  | target _ ih | left _ ih =>
    obtain ⟨env, inside, layered, sited⟩ := ih
    exact ⟨env, inside, layered, sited.left fun _ => nodes_exp _⟩
  | value _ done ih | right _ done ih =>
    obtain ⟨env, inside, layered, sited⟩ := ih
    have first := yields_exp inside _ sited.pending.left.proper.distinct
    exact ⟨env, inside, layered, sited.right first done⟩
  | callee _ ih =>
    obtain ⟨env, inside, layered, sited⟩ := ih
    exact ⟨env, inside, layered, @Sited.left p [_] _ env _ _ _ sited fun _ => nodes_exps _⟩
  | @argument callee before e after r s _ done ih =>
    obtain ⟨env, inside, layered, sited⟩ := ih
    rw [Exp.idents, Exp.identsAll_append, exp, exps_append, ← List.cons_append,
      ← Findings.append_assoc] at sited
    obtain ⟨_, first, apart⟩ := @Proper.append [callee] _ sited.pending.left.proper
    have steps := (yields_use inside callee).seq (yields_exps inside before first.distinct) apart
    exact ⟨env, inside, layered, sited.inner steps done fun _ => nodes_exps after⟩
  | operand _ ih => exact ih

/-- The resolver comes from an expression to those it is built from, with the same stack. -/
theorem exists_visited_child (proper : Proper p.idents) {e c : Exp} (visit : Visited p e r)
    (child : c ∈ e.children) : ∃ s, Visited p c s ∧ s.scopes = r.scopes := by
  obtain ⟨env, inside, _, sited⟩ := sited_of_visited proper visit
  have stack := sited.stack
  cases e with
  | dot base field =>
    obtain rfl := List.mem_singleton.mp child
    exact ⟨r, visit.base, rfl⟩
  | assign target value =>
    rcases List.mem_pair.mp child with rfl | rfl
    · exact ⟨r, visit.target, rfl⟩
    · have first := yields_exp inside target sited.pending.left.proper.distinct
      exact ⟨_, visit.value (first.runs r stack sited.pending.left.fresh), stack.symm⟩
  | call callee args =>
    rcases List.mem_cons.mp child with rfl | mem
    · exact ⟨r, visit.callee, rfl⟩
    · obtain ⟨before, after, rfl⟩ := List.append_of_mem mem
      have pending := sited.pending
      rw [Exp.idents, Exp.identsAll_append, ← List.cons_append] at pending
      obtain ⟨_, first, apart⟩ := @Proper.append [callee] _ pending.left.proper
      have steps := (yields_use inside callee).seq (yields_exps inside before first.distinct) apart
      exact ⟨_, visit.argument (steps.runs r stack pending.left.fresh), stack.symm⟩
  | unary op operand =>
    obtain rfl := List.mem_singleton.mp child
    exact ⟨r, visit.operand, rfl⟩
  | binary op left right =>
    rcases List.mem_pair.mp child with rfl | rfl
    · exact ⟨r, visit.left, rfl⟩
    · have first := yields_exp inside left sited.pending.left.proper.distinct
      exact ⟨_, visit.right (first.runs r stack sited.pending.left.fresh), stack.symm⟩
  | _ => cases child

/-! ## Every expression is visited -/

/-- An expression is visited with further scopes on top of these. -/
def VisitedOver (p : Program) (frames : List Frame) (e : Exp) : Prop :=
  ∃ r, Visited p e r ∧ frames <:+ r.scopes.frames

theorem VisitedOver.mono {frames more : List Frame} {e : Exp} (visit : VisitedOver p more e)
    (below : frames <:+ more) : VisitedOver p frames e := by
  obtain ⟨r, visited, above⟩ := visit
  exact ⟨r, visited, below.trans above⟩

theorem VisitedOver.child (proper : Proper p.idents) {frames : List Frame} {e c : Exp}
    (visit : VisitedOver p frames e) (child : c ∈ e.children) : VisitedOver p frames c := by
  obtain ⟨r, visited, above⟩ := visit
  obtain ⟨s, visited, same⟩ := exists_visited_child proper visited child
  exact ⟨s, visited, by rwa [same]⟩

/-- The resolver comes to an expression once the steps before it have been taken. -/
theorem visitedOver_after {step : Resolve Unit} {ids : List Ident} {env' : Env} {f : Findings}
    {e : Exp} (first : Yields step (nodes ids) env env' () f) (pending : Pending ids r)
    (stack : r.scopes = env.scopes) (below : env <:+ env')
    (rest : ∀ s, step r = .ok () s → VisitedOver p s.scopes.frames e) :
    VisitedOver p r.scopes.frames e := by
  refine (rest _ (first.runs r stack pending.fresh)).mono ?_
  rw [stack]
  exact below

theorem visitedOver_condition (proper : Proper p.idents) {c : Stmt} {condition e : Exp}
    {ids : List Ident} (call : Called p (.stmt c) r) (first : c.idents = condition.idents ++ ids)
    (rest : ∀ s, Resolve.exp condition r = .ok () s → VisitedOver p s.scopes.frames e) :
    VisitedOver p r.scopes.frames e := by
  obtain ⟨env, pending, stack, inside⟩ := ready_of_called proper call
  rw [Part.idents, first] at pending
  have tested := yields_exp inside condition pending.left.proper.distinct
  exact visitedOver_after tested pending.left stack List.suffix_rfl rest

mutual

theorem visitedOver_stmt (proper : Proper p.idents) {e : Exp} : (c : Stmt) → {r : Resolver} →
    Called p (.stmt c) r → e ∈ c.exps → VisitedOver p r.scopes.frames e
  | .assign _ _, r, call, mem | .increment _, r, call, mem | .decrement _, r, call, mem
  | .read _, r, call, mem | .write _, r, call, mem | .call _ _, r, call, mem
  | .giveBack (some _) _, r, call, mem => by
    obtain rfl := List.mem_singleton.mp mem
    exact ⟨r, .subject call rfl, List.suffix_rfl⟩
  | .ifThen condition body, r, call, mem => by
    rcases List.mem_cons.mp mem with rfl | mem
    · exact ⟨r, .subject call rfl, List.suffix_rfl⟩
    · refine visitedOver_condition proper call rfl fun s done => ?_
      exact visitedOver_block proper body (.ifThen call done) mem
  | .ifElse condition yes no, r, call, mem => by
    rw [Stmt.exps, List.cons_append] at mem
    rcases List.mem_cons.mp mem with rfl | mem
    · exact ⟨r, .subject call rfl, List.suffix_rfl⟩
    rcases List.mem_append.mp mem with mem | mem
    · refine visitedOver_condition proper call (List.append_assoc _ _ _) fun s done => ?_
      exact visitedOver_block proper yes (.yes call done) mem
    · obtain ⟨env, pending, stack, inside⟩ := ready_of_called proper call
      obtain ⟨first, second, apart⟩ := pending.left.proper.append
      have steps := (yields_exp inside _ first.distinct).seq (yields_block _ second) apart
      rw [← nodes_append] at steps
      refine visitedOver_after steps pending.left stack List.suffix_rfl fun s done => ?_
      exact visitedOver_block proper no (.no call done) mem
  | .whileLoop condition body, r, call, mem => by
    rcases List.mem_cons.mp mem with rfl | mem
    · exact ⟨r, .subject call rfl, List.suffix_rfl⟩
    · refine visitedOver_condition proper call rfl fun s done => ?_
      exact visitedOver_block proper body (.whileLoop call done) mem
  | .repeatLoop count body, r, call, mem => by
    rcases List.mem_cons.mp mem with rfl | mem
    · exact ⟨r, .subject call rfl, List.suffix_rfl⟩
    · refine visitedOver_condition proper call rfl fun s done => ?_
      exact visitedOver_block proper body (.repeatLoop call done) mem

theorem visitedOver_block (proper : Proper p.idents) {e : Exp} : (b : Block) → {r : Resolver} →
    Called p (.block b) r → e ∈ b.exps → VisitedOver p r.scopes.frames e
  | .mk decls body, r, call, mem => by
    obtain ⟨env, pending, stack, _⟩ := ready_of_called proper call
    rw [Part.idents, Block.idents] at pending
    have entered := @yields_blockEntry env decls pending.left.proper
    refine visitedOver_after entered pending.left stack (List.suffix_cons _ _) fun s done => ?_
    exact visitedOver_stmts proper body (.blockBody call done) mem

theorem visitedOver_stmts (proper : Proper p.idents) {e : Exp} : (cs : List Stmt) →
    {r : Resolver} → Called p (.stmts cs) r → e ∈ Stmt.expsAll cs →
    VisitedOver p r.scopes.frames e
  | c :: cs, r, call, mem => by
    rcases List.mem_append.mp mem with mem | mem
    · exact visitedOver_stmt proper c (.stmt call) mem
    · obtain ⟨env, pending, stack, inside⟩ := ready_of_called proper call
      have first := yields_stmt inside c pending.left.proper
      refine visitedOver_after first pending.left stack List.suffix_rfl fun s done => ?_
      exact visitedOver_stmts proper cs (.others call done) mem

end

/-- The resolver comes to the declarations of a program one after the other. -/
theorem called_decls (proper : Proper p.idents) (before : List Decl) {ds : List Decl}
    (split : p.decls = before ++ ds) :
    Called p (.decls ds) (Resolver.initial.extend [(decls .empty before).1]
      (decls .empty before).2) := by
  induction before using List.reverseRecOn generalizing ds with
  | nil =>
    rw [List.nil_append] at split
    rw [← split]
    exact .program
  | append_singleton before d ih =>
    rw [List.append_assoc, List.singleton_append] at split
    have call := ih split
    obtain ⟨env, pending, stack, -⟩ := ready_of_called proper call
    rw [Part.idents, List.flatMap_cons] at pending
    have first := @yields_decl (decls .empty before).1 d pending.left.proper
    have done := first.runs _ rfl pending.left.fresh
    rw [Resolver.extend_extend] at done
    simp only [decls_append, decls, Findings.append_nothing]
    exact .rest call done

/-- What stands in a function is visited over the file scope that has the function in it. -/
theorem visitedOver_fn (proper : Proper p.idents) {before after : List Decl} {d : FnDecl}
    (split : p.decls = before ++ .fn d :: after) {e : Exp} (part : e ∈ Exp.partsAll d.body.exps) :
    VisitedOver p [(decls .empty (before ++ [.fn d])).1] e := by
  have call := Called.fn (called_decls proper before split)
  obtain ⟨env, ready⟩ := ready_of_called proper call
  have pending := ready.pending.perm (idents_fnBody_perm d)
  have entered := @yields_fnEntry (decls .empty before).1 d pending.left.proper
  have done := entered.runs _ rfl pending.left.fresh
  refine Exp.holds_of_partsAll (fun _ visit _ child => visit.child proper child) _ ?_ part
  intro root mem
  have inside : root ∈ Stmt.expsAll d.body.stmts := by
    obtain ⟨type, name, formals, ⟨decls, body⟩⟩ := d
    exact mem
  refine (visitedOver_stmts proper _ (.fnBody call done) inside).mono ?_
  rw [decls_append]
  exact List.suffix_cons _ _

theorem exists_visited (proper : Proper p.idents) {e : Exp} (part : e ∈ p.parts) :
    ∃ r, Visited p e r := by
  suffices visit : VisitedOver p [] e from visit.imp fun _ visited => visited.1
  refine Exp.holds_of_partsAll (fun _ visit _ child => visit.child proper child) _ ?_ part
  intro root mem
  obtain ⟨d, declared, inside⟩ := List.mem_flatMap.mp mem
  obtain ⟨before, after, split⟩ := List.append_of_mem declared
  cases d with
  | fn d =>
    have whole := Exp.mem_partsAll inside root.self_mem_parts
    exact (visitedOver_fn proper split whole).mono List.nil_suffix
  | _ => cases inside

end Scoping

end Cinder
