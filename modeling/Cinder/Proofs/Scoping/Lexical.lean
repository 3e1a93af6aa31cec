import Cinder.Proofs.Scoping.Walk

/-!
# Resolution is lexical

The resolver finds exactly what lexical scoping says of a program: the same bindings, the same
diagnostics in the same order, and the same file scope. Of the names that a program uses, which are
the identifiers that stand as expressions and as callees, each one that is not bound is reported once,
at its own position, and nothing else is reported in these words.
-/
namespace Cinder

mutual

/-- The names that an expression uses, in source order. -/
def Exp.uses : Exp → List Ident
  | .int _ _ _ => []
  | .string _ _ => []
  | .bool _ _ => []
  | .ident id => [id]
  | .dot base _ => base.uses
  | .assign target value => target.uses ++ value.uses
  | .call callee args => callee :: Exp.usesAll args
  | .unary _ operand => operand.uses
  | .binary _ left right => left.uses ++ right.uses

def Exp.usesAll : List Exp → List Ident
  | [] => []
  | e :: rest => e.uses ++ Exp.usesAll rest

end

theorem Exp.usesAll_append (es more : List Exp) :
    Exp.usesAll (es ++ more) = Exp.usesAll es ++ Exp.usesAll more := by
  induction es with
  | nil => rfl
  | cons e es ih => rw [List.cons_append, usesAll, ih, usesAll, List.append_assoc]

/-- The names that a program uses. -/
def Program.uses (p : Program) : List Ident := Exp.usesAll (p.decls.flatMap Decl.exps)

/-- The diagnostics about names that have no declaration. -/
def Diagnostic.undeclared (ds : List Diagnostic) : List Diagnostic :=
  ds.filter (·.message = "Undeclared identifier")

theorem Diagnostic.undeclared_append (ds more : List Diagnostic) :
    undeclared (ds ++ more) = undeclared ds ++ undeclared more := List.filter_append ..

namespace Scoping

/-- Findings about a part of a program with these identifiers, in which these names are used: exactly
the uses that are not bound are reported as undeclared. -/
structure Accounts (ids : List Nat) (uses : List Ident) (f : Findings) : Prop where
  bound : ∀ n ∈ f.idents.map Prod.fst, n ∈ ids
  used : ∀ id ∈ uses, id.node ∈ ids
  undeclared : Diagnostic.undeclared f.diagnostics =
    (uses.filter fun id => id.node ∉ f.idents.map Prod.fst).map
      fun id => .error id.position .undeclared

namespace Accounts

variable {ids more : List Nat} {uses others : List Ident} {f g : Findings}

theorem append (first : Accounts ids uses f) (second : Accounts more others g)
    (apart : ids.Disjoint more) : Accounts (ids ++ more) (uses ++ others) (f ++ g) := by
  constructor
  · intro n mem
    rw [Findings.idents_append, List.map_append, List.mem_append] at mem
    rw [List.mem_append]
    exact mem.imp (first.bound n) (second.bound n)
  · intro id mem
    rw [List.mem_append] at mem ⊢
    exact mem.imp (first.used id) (second.used id)
  · have left : (uses.filter fun id => id.node ∉ (f ++ g).idents.map Prod.fst) =
        uses.filter fun id => id.node ∉ f.idents.map Prod.fst := by
      refine List.filter_congr fun id mem => ?_
      have absent : id.node ∉ g.idents.map Prod.fst := fun known =>
        apart (first.used id mem) (second.bound _ known)
      simp only [Findings.idents_append, List.map_append, List.mem_append, absent, or_false]
    have right : (others.filter fun id => id.node ∉ (f ++ g).idents.map Prod.fst) =
        others.filter fun id => id.node ∉ g.idents.map Prod.fst := by
      refine List.filter_congr fun id mem => ?_
      have absent : id.node ∉ f.idents.map Prod.fst := fun known =>
        apart (first.bound _ known) (second.used id mem)
      simp only [Findings.idents_append, List.map_append, List.mem_append, absent, false_or]
    rw [Findings.diagnostics_append, Diagnostic.undeclared_append, first.undeclared,
      second.undeclared, List.filter_append, left, right, List.map_append]

theorem widen (h : Accounts ids uses f) (sub : ∀ n ∈ ids, n ∈ more) : Accounts more uses f := by
  refine ⟨?_, ?_, h.undeclared⟩
  · intro n mem
    exact sub n (h.bound n mem)
  · intro id mem
    exact sub id.node (h.used id mem)

/-- Where no name is used, it is enough that none is reported. -/
theorem silent (within : ∀ n ∈ f.nodes, n ∈ ids)
    (quiet : Diagnostic.undeclared f.diagnostics = []) : Accounts ids [] f := by
  refine ⟨?_, ?_, quiet⟩
  · intro n mem
    exact within n (Findings.mem_nodes_of_ident mem)
  · intro id mem
    cases mem

end Accounts

theorem accounts_use (env : Env) (id : Ident) : Accounts [id.node] [id] (use env id) := by
  refine ⟨?_, by simp, ?_⟩
  · intro n mem
    simpa using nodes_use (Findings.mem_nodes_of_ident mem)
  · rw [use]
    cases env.find id.name with
    | none => rfl
    | some s => simp [Findings.bind, Diagnostic.undeclared]

theorem undeclared_select (base : Base) (position : Position) (field : Ident) :
    Diagnostic.undeclared (select base position field).diagnostics = [] := by
  cases base with
  | unbound => rfl
  | other => rfl
  | struct d =>
    rw [select]
    cases d.field? field.name with
    | none => rfl
    | some s => cases s <;> rfl

mutual

theorem accounts_exp {env : Env} : (e : Exp) → (nodes e.idents).Nodup →
    Accounts (nodes e.idents) e.uses (exp env e)
  | .int _ _ _, _ => .silent (by simp [exp, Findings.nodes, Findings.nothing]) rfl
  | .string _ _, _ => .silent (by simp [exp, Findings.nodes, Findings.nothing]) rfl
  | .bool _ _, _ => .silent (by simp [exp, Findings.nodes, Findings.nothing]) rfl
  | .ident id, _ => accounts_use env id
  | .dot base field, distinct => by
    rw [Exp.idents, nodes_append] at distinct ⊢
    obtain ⟨left, _, apart⟩ := List.nodup_append'.mp distinct
    have selected : Accounts (nodes [field]) [] (select (.of env base) base.position field) := by
      refine .silent (fun n mem => ?_) (undeclared_select _ _ _)
      simp [nodes, nodes_select mem]
    simpa [Exp.uses, exp] using (accounts_exp base left).append selected apart
  | .assign target value, distinct => by
    rw [Exp.idents, nodes_append] at distinct ⊢
    obtain ⟨left, right, apart⟩ := List.nodup_append'.mp distinct
    exact (accounts_exp target left).append (accounts_exp value right) apart
  | .call callee args, distinct => by
    have split := List.nodup_cons.mp distinct
    exact (accounts_use env callee).append (accounts_exps args split.2) (by simpa using split.1)
  | .unary _ operand, distinct => accounts_exp operand distinct
  | .binary _ left right, distinct => by
    rw [Exp.idents, nodes_append] at distinct ⊢
    obtain ⟨first, second, apart⟩ := List.nodup_append'.mp distinct
    exact (accounts_exp left first).append (accounts_exp right second) apart

theorem accounts_exps {env : Env} : (es : List Exp) → (nodes (Exp.identsAll es)).Nodup →
    Accounts (nodes (Exp.identsAll es)) (Exp.usesAll es) (exps env es)
  | [], _ => .silent (by simp [exps, Findings.nodes, Findings.nothing]) rfl
  | e :: es, distinct => by
    rw [Exp.identsAll, nodes_append] at distinct ⊢
    obtain ⟨first, second, apart⟩ := List.nodup_append'.mp distinct
    exact (accounts_exp e first).append (accounts_exps es second) apart

end

theorem accounts_alone {env : Env} (e : Exp) (distinct : (nodes e.idents).Nodup) :
    Accounts (nodes e.idents) (Exp.usesAll [e]) (exp env e) := by
  rw [Exp.usesAll, Exp.usesAll, List.append_nil]
  exact accounts_exp e distinct

theorem undeclared_candidate (env : Env) (d : VarDecl) :
    Diagnostic.undeclared (candidate env d).2.diagnostics = [] := by
  obtain ⟨type, name⟩ := d
  cases type with
  | struct typeName =>
    simp only [candidate]
    cases env.struct typeName.name <;> rfl
  | _ => rfl

theorem undeclared_declareAll {visible : Scope → Env} : (scope : Scope) → (ds : List VarDecl) →
    Diagnostic.undeclared (declareAll visible scope ds).findings.diagnostics = []
  | _, [] => rfl
  | scope, d :: ds => by
    have chosen := undeclared_candidate (visible scope) d
    rw [declareAll, Findings.diagnostics_append, Diagnostic.undeclared_append,
      undeclared_declareAll _ ds, List.append_nil]
    cases scope.contains d.name.name with
    | true =>
      rw [declare_taken, Findings.diagnostics_append, Diagnostic.undeclared_append, chosen]
      rfl
    | false =>
      cases accepted : (candidate (visible scope) d).1 with
      | none => rwa [declare_rejected accepted]
      | some s =>
        rw [declare_accepted accepted, Findings.diagnostics_append, Diagnostic.undeclared_append,
          chosen]
        rfl

/-- Declarations use no names, so a frame accounts for what its statements account for. -/
theorem accounts_frame {scope : Scope} {env : Env} {decls : List VarDecl} {body : List Stmt}
    (proper : Proper (decls.flatMap VarDecl.idents))
    (apart : (nodes (decls.flatMap VarDecl.idents)).Disjoint (nodes (Stmt.identsAll body)))
    (inner : ∀ env : Env, Accounts (nodes (Stmt.identsAll body)) (Exp.usesAll (Stmt.expsAll body))
      (stmts env body)) :
    let all := declareAll (· :: env) scope decls
    Accounts (nodes (decls.flatMap VarDecl.idents) ++ nodes (Stmt.identsAll body))
      (Exp.usesAll (Stmt.expsAll body)) (all.findings ++ stmts (all.scope :: env) body) := by
  have declared := Accounts.silent (@yields_varDecls env scope decls proper).within
    (undeclared_declareAll _ _)
  exact declared.append (inner _) apart

mutual

theorem accounts_stmt {env : Env} : (s : Stmt) → Proper s.idents →
    Accounts (nodes s.idents) (Exp.usesAll s.exps) (stmt env s)
  | .assign target value, proper => accounts_alone (.assign target value) proper.distinct
  | .increment target, proper => accounts_alone target proper.distinct
  | .decrement target, proper => accounts_alone target proper.distinct
  | .read target, proper => accounts_alone target proper.distinct
  | .write value, proper => accounts_alone value proper.distinct
  | .ifThen condition body, proper => by
    rw [Stmt.idents, nodes_append]
    obtain ⟨first, second, apart⟩ := proper.append
    exact (accounts_exp condition first.distinct).append (accounts_block body second) apart
  | .ifElse condition yes no, proper => by
    rw [Stmt.idents, List.append_assoc] at proper ⊢
    obtain ⟨first, branches, apart⟩ := proper.append
    obtain ⟨second, third, between⟩ := branches.append
    rw [nodes_append, nodes_append yes.idents]
    rw [nodes_append] at apart
    rw [Stmt.exps, List.cons_append, Exp.usesAll, Exp.usesAll_append]
    exact (accounts_exp condition first.distinct).append
      ((accounts_block yes second).append (accounts_block no third) between) apart
  | .whileLoop condition body, proper => by
    rw [Stmt.idents, nodes_append]
    obtain ⟨first, second, apart⟩ := proper.append
    exact (accounts_exp condition first.distinct).append (accounts_block body second) apart
  | .repeatLoop count body, proper => by
    rw [Stmt.idents, nodes_append]
    obtain ⟨first, second, apart⟩ := proper.append
    exact (accounts_exp count first.distinct).append (accounts_block body second) apart
  | .call callee args, proper => accounts_alone (.call callee args) proper.distinct
  | .giveBack none _, _ => .silent (by simp [stmt, Findings.nodes, Findings.nothing]) rfl
  | .giveBack (some value) _, proper => accounts_alone value proper.distinct

theorem accounts_block {env : Env} : (b : Block) → Proper b.idents →
    Accounts (nodes b.idents) (Exp.usesAll b.exps) (block env b)
  | .mk decls body, proper => by
    rw [Block.idents, nodes_append]
    obtain ⟨first, second, apart⟩ := proper.append
    exact accounts_frame first apart fun _ => accounts_stmts body second

theorem accounts_stmts {env : Env} : (ss : List Stmt) →
    Proper (Stmt.identsAll ss) →
    Accounts (nodes (Stmt.identsAll ss)) (Exp.usesAll (Stmt.expsAll ss)) (stmts env ss)
  | [], _ => .silent (by simp [stmts, Findings.nodes, Findings.nothing]) rfl
  | s :: ss, proper => by
    rw [Stmt.identsAll, nodes_append, Stmt.expsAll, Exp.usesAll_append]
    obtain ⟨first, second, apart⟩ := proper.append
    exact (accounts_stmt s first).append (accounts_stmts ss second) apart

end

theorem accounts_fnBody (scope outer : Scope) {b : Block} (proper : Proper b.idents) :
    let all := declareAll (· :: [outer]) scope b.decls
    Accounts (nodes b.idents) (Exp.usesAll b.exps)
      (all.findings ++ stmts [all.scope, outer] b.stmts) := by
  obtain ⟨decls, body⟩ := b
  rw [Block.idents, nodes_append]
  obtain ⟨first, second, apart⟩ := proper.append
  exact accounts_frame first apart fun _ => accounts_stmts body second

theorem accounts_resultType (globals : Scope) (type : TypeExp) :
    Accounts (nodes type.idents) [] (resultType globals type) := by
  refine .silent (yields_resultType type).within ?_
  cases type with
  | struct name =>
    simp only [resultType]
    cases Env.struct [globals] name.name <;> rfl
  | _ => rfl

theorem accounts_fnDecl {globals : Scope} {d : FnDecl} (proper : Proper (Decl.fn d).idents) :
    Accounts (nodes (Decl.fn d).idents) (Exp.usesAll d.body.exps) (fnDecl globals d).2 := by
  have order := idents_fn_perm d
  obtain ⟨_, rest, beside_name⟩ := (proper.perm order).append
  obtain ⟨_, inner, beside_result⟩ := rest.append
  obtain ⟨formals, body, beside_formals⟩ := inner.append
  have named : ∀ s, Accounts (nodes [d.name]) []
      (if globals.contains d.name.name then .report d.name.position .redeclared
        else .bind d.name s) := by
    intro s
    split
    · exact .silent (by simp [Findings.nodes, Findings.report]) rfl
    · exact .silent (by simp [Findings.nodes, Findings.bind, nodes]) rfl
  have declared := Accounts.silent (@yields_varDecls [globals] .empty d.formals formals).within
    (undeclared_declareAll _ _)
  suffices whole : Accounts (nodes ([d.name] ++ (d.resultType.idents ++
      (d.formals.flatMap VarDecl.idents ++ d.body.idents)))) (Exp.usesAll d.body.exps)
      (fnDecl globals d).2 from
    whole.widen fun n mem => (order.map Ident.node).mem_iff.mpr mem
  rw [nodes_append] at beside_result
  rw [nodes_append, nodes_append] at beside_name
  rw [nodes_append, nodes_append, nodes_append]
  exact (named _).append ((accounts_resultType globals d.resultType).append
    (declared.append (accounts_fnBody _ _ body) beside_formals) beside_result) beside_name

theorem accounts_decl {globals : Scope} : (d : Decl) → Proper d.idents →
    Accounts (nodes d.idents) (Exp.usesAll d.exps) (decl globals d).2
  | .var d, proper => by
    refine .silent (@yields_decl globals (.var d) proper).within ?_
    exact @undeclared_declareAll (fun scope => [scope]) globals [d]
  | .fn _, proper => accounts_fnDecl proper
  | .struct d, proper => by
    refine .silent (@yields_decl globals (.struct d) proper).within ?_
    rw [decl, structDecl]
    split
    · rfl
    · rw [Findings.diagnostics_append, Diagnostic.undeclared_append, undeclared_declareAll]
      rfl

theorem accounts_decls : {globals : Scope} → (ds : List Decl) → Proper (ds.flatMap Decl.idents) →
    Accounts (nodes (ds.flatMap Decl.idents)) (Exp.usesAll (ds.flatMap Decl.exps))
      (decls globals ds).2
  | _, [], _ => .silent (by simp [decls, Findings.nodes, Findings.nothing]) rfl
  | _, d :: ds, proper => by
    rw [List.flatMap_cons] at proper ⊢
    rw [List.flatMap_cons, nodes_append, Exp.usesAll_append]
    obtain ⟨first, second, apart⟩ := proper.append
    exact (accounts_decl d first).append (accounts_decls ds second) apart

end Scoping

theorem Program.resolve_eq_extend {p : Program} (proper : Scoping.Proper p.idents) :
    p.resolve = .ok (Resolver.initial.extend [(Scoping.program p).1] (Scoping.program p).2) := by
  have walk := (@Scoping.yields_decls .empty p.decls proper).runs .initial rfl
    (by simp [Resolver.nodes, Resolver.initial, Bindings.empty, Table.empty])
  rw [Program.resolve, Resolver.program, EStateM.run, walk]
  rfl

/-- The resolver agrees with lexical scoping on every program whose identifiers are told apart by
their numbers and have a name. -/
theorem Program.resolve_eq_scoping (p : Program) (distinct : (p.idents.map Ident.node).Nodup)
    (named : ∀ id ∈ p.idents, id.name ≠ []) :
    ∃ r, p.resolve = .ok r ∧
      r.scopes.frames = [(Scoping.program p).1] ∧
      r.bindings.idents.entries = (Scoping.program p).2.idents ∧
      r.bindings.dots.entries = (Scoping.program p).2.dots ∧
      r.diagnostics = (Scoping.program p).2.diagnostics ∧
      Diagnostic.undeclared r.diagnostics =
        (p.uses.filter fun id => (r.bindings.symbolOf id).isNone).map
          fun id => .error id.position .undeclared := by
  have proper : Scoping.Proper p.idents := ⟨distinct, named⟩
  refine ⟨_, p.resolve_eq_extend proper, rfl, rfl, rfl, rfl, ?_⟩
  have accounts := @Scoping.accounts_decls .empty p.decls proper
  refine accounts.undeclared.trans (congrArg _ (List.filter_congr fun id _ => ?_))
  rw [Bool.eq_iff_iff, decide_eq_true_iff, Option.isNone_iff_eq_none]
  exact Table.lookup_eq_none.symm

/-- A formal hides a variable of the file, the body may not declare it again, and the variable of a
block hides the formal. -/
theorem Program.resolve_shadowing :
    let x : Nat → Ident := fun n => ⟨n, "x", ⟨1, n⟩⟩
    let f : Nat → Ident := fun n => ⟨n, "f", ⟨2, n⟩⟩
    let y : Ident := ⟨8, "y", ⟨3, 8⟩⟩
    let inner : Block := .mk [⟨.int, x 5⟩] [.assign (.ident (x 6)) (.call (f 7) [.ident y])]
    let body : Block := .mk [⟨.int, x 3⟩] [.ifThen (.ident (x 4)) inner]
    let p : Program := ⟨[.var ⟨.int, x 0⟩, .fn ⟨.int, f 1, [⟨.bool, x 2⟩], body⟩]⟩
    (p.idents.map Ident.node).Nodup ∧ (∀ id ∈ p.idents, id.name ≠ []) ∧
      ∃ r, p.resolve = .ok r ∧
        r.bindings.symbolOf (x 4) = some (.plain "x" .bool) ∧
        r.bindings.symbolOf (x 6) = some (.plain "x" .int) ∧
        r.bindings.symbolOf (f 7) = some (.function "f" .int [.bool]) ∧
        r.diagnostics = [.error ⟨1, 3⟩ .redeclared, .error ⟨3, 8⟩ .undeclared] ∧
        Diagnostic.undeclared r.diagnostics =
          (p.uses.filter fun id => (r.bindings.symbolOf id).isNone).map
            fun id => .error id.position .undeclared := by
  intro x f y inner body p
  have distinct : (p.idents.map Ident.node).Nodup := by decide
  have named : ∀ id ∈ p.idents, id.name ≠ [] := by decide
  obtain ⟨r, resolved, _, idents, _, diagnostics, undeclared⟩ := p.resolve_eq_scoping distinct named
  refine ⟨distinct, named, r, resolved, ?_, ?_, ?_, diagnostics, undeclared⟩ <;>
    rw [Bindings.symbolOf, Table.find?, idents] <;> rfl

end Cinder
