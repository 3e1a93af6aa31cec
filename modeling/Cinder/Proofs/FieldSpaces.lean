import Cinder.Proofs.Chains
import Cinder.Proofs.Outline
import Cinder.Proofs.Signatures

/-!
# Fields have names of their own

Fields are declared by the same rules as variables, but nothing that is found out about other names
depends on them. What the resolver binds outside the bodies of structs is what the outline of the
program tells, and so are its reports, once those about the bodies of structs and about the fields
of dot-accesses are left out. Main result: programs with the same outline have the same meanings and
the same reports outside the bodies of their structs.
-/
namespace Cinder

/-! ## What reports are about -/

inductive Subject where
  /-- A declaration in the body of a struct. -/
  | member
  /-- The field of a dot-access. -/
  | selection
  | outside
  deriving DecidableEq

structure Report where
  subject : Subject
  diagnostic : Diagnostic

namespace Report

open Scoping (Env Scope Base Findings use select declareAll resultType ownFindings)

def about (subject : Subject) (f : Findings) : List Report := f.diagnostics.map (⟨subject, ·⟩)

/-- What is left without the reports about fields. -/
def outside (reports : List Report) : List Diagnostic :=
  (reports.filter (·.subject = .outside)).map diagnostic

/-- If there is nothing to select from, it is reported at what stands before the field. That is a
field itself if it is a dot-access. -/
def ofSelection (env : Env) : Exp → Subject
  | .dot _ _ => .selection
  | base =>
    match Base.of env base with
    | .other => .outside
    | _ => .selection

mutual

def ofExp (env : Env) : Exp → List Report
  | .int _ _ _ => []
  | .string _ _ => []
  | .bool _ _ => []
  | .ident id => about .outside (use env id)
  | .dot base field =>
    ofExp env base ++ about (ofSelection env base) (select (.of env base) base.position field)
  | .assign target value => ofExp env target ++ ofExp env value
  | .call callee args => about .outside (use env callee) ++ ofExps env args
  | .unary _ operand => ofExp env operand
  | .binary _ left right => ofExp env left ++ ofExp env right

def ofExps (env : Env) : List Exp → List Report
  | [] => []
  | e :: rest => ofExp env e ++ ofExps env rest

end

mutual

def ofStmt (env : Env) : Stmt → List Report
  | .assign target value => ofExp env target ++ ofExp env value
  | .increment target => ofExp env target
  | .decrement target => ofExp env target
  | .read target => ofExp env target
  | .write value => ofExp env value
  | .ifThen condition body => ofExp env condition ++ ofBlock env body
  | .ifElse condition yes no => ofExp env condition ++ (ofBlock env yes ++ ofBlock env no)
  | .whileLoop condition body => ofExp env condition ++ ofBlock env body
  | .repeatLoop count body => ofExp env count ++ ofBlock env body
  | .call callee args => about .outside (use env callee) ++ ofExps env args
  | .giveBack none _ => []
  | .giveBack (some value) _ => ofExp env value

def ofBlock (env : Env) : Block → List Report
  | .mk decls body =>
    let declared := declareAll (· :: env) .empty decls
    about .outside declared.findings ++ ofStmts (declared.scope :: env) body

def ofStmts (env : Env) : List Stmt → List Report
  | [] => []
  | s :: rest => ofStmt env s ++ ofStmts env rest

end

def ofFnDecl (globals : Scope) (d : FnDecl) : List Report :=
  let formals := declareAll (· :: [globals]) .empty d.formals
  let outer := (Scoping.fnDecl globals d).1
  let body := declareAll (· :: [outer]) formals.scope d.body.decls
  about .outside (ownFindings globals d) ++ (about .outside (resultType globals d.resultType)
    ++ (about .outside formals.findings
      ++ (about .outside body.findings ++ ofStmts [body.scope, outer] d.body.stmts)))

def ofDecl (globals : Scope) : Decl → List Report
  | .var d => about .outside (declareAll (fun scope => [scope]) globals [d]).findings
  | .fn d => ofFnDecl globals d
  | .struct d =>
    if globals.contains d.name.name then about .outside (.report d.name.position .redeclared)
    else about .member (declareAll (fun _ => [globals]) .empty d.fields).findings

def ofDecls (globals : Scope) : List Decl → List Report
  | [] => []
  | d :: rest => ofDecl globals d ++ ofDecls (Scoping.decl globals d).1 rest

end Report

/-- The reports about the names of a program, each with what it is about. -/
def Program.reports (p : Program) : List Report := Report.ofDecls .empty p.decls

namespace Report

open Scoping

@[simp] theorem diagnostics_about (subject : Subject) (f : Findings) :
    (about subject f).map diagnostic = f.diagnostics := by
  simp [about, Function.comp_def]

theorem about_append (subject : Subject) (f g : Findings) :
    about subject (f ++ g) = about subject f ++ about subject g :=
  List.map_append

@[simp] theorem outside_append (reports more : List Report) :
    outside (reports ++ more) = outside reports ++ outside more := by
  simp [outside]

@[simp] theorem outside_about (f : Findings) : outside (about .outside f) = f.diagnostics := by
  simp [outside, about, List.filter_map, Function.comp_def]

theorem outside_about_of_ne {subject : Subject} (inside : subject ≠ .outside) (f : Findings) :
    outside (about subject f) = [] := by
  simp [outside, about, List.filter_map, Function.comp_def, inside]

mutual

theorem diagnostics_ofExp {env : Env} : (e : Exp) →
    (ofExp env e).map diagnostic = (exp env e).diagnostics
  | .int _ _ _ | .string _ _ | .bool _ _ => rfl
  | .ident id => diagnostics_about _ _
  | .dot base field => by simp [ofExp, exp, diagnostics_ofExp base]
  | .assign target value => by simp [ofExp, exp, diagnostics_ofExp target, diagnostics_ofExp value]
  | .call callee args => by simp [ofExp, exp, diagnostics_ofExps args]
  | .unary _ operand => diagnostics_ofExp operand
  | .binary _ left right => by simp [ofExp, exp, diagnostics_ofExp left, diagnostics_ofExp right]

theorem diagnostics_ofExps {env : Env} : (es : List Exp) →
    (ofExps env es).map diagnostic = (exps env es).diagnostics
  | [] => rfl
  | e :: es => by simp [ofExps, exps, diagnostics_ofExp e, diagnostics_ofExps es]

end

mutual

theorem diagnostics_ofStmt {env : Env} : (s : Stmt) →
    (ofStmt env s).map diagnostic = (stmt env s).diagnostics
  | .assign target value => diagnostics_ofExp (.assign target value)
  | .increment target | .decrement target | .read target | .write target =>
    diagnostics_ofExp target
  | .ifThen condition body | .whileLoop condition body | .repeatLoop condition body => by
    simp [ofStmt, stmt, diagnostics_ofExp, diagnostics_ofBlock body]
  | .ifElse condition yes no => by
    simp [ofStmt, stmt, diagnostics_ofExp, diagnostics_ofBlock yes, diagnostics_ofBlock no]
  | .call callee args => diagnostics_ofExp (.call callee args)
  | .giveBack none _ => rfl
  | .giveBack (some value) _ => diagnostics_ofExp value

theorem diagnostics_ofBlock {env : Env} : (b : Block) →
    (ofBlock env b).map diagnostic = (block env b).diagnostics
  | .mk decls body => by simp [ofBlock, block, diagnostics_ofStmts body]

theorem diagnostics_ofStmts {env : Env} : (ss : List Stmt) →
    (ofStmts env ss).map diagnostic = (stmts env ss).diagnostics
  | [] => rfl
  | s :: ss => by simp [ofStmts, stmts, diagnostics_ofStmt s, diagnostics_ofStmts ss]

end

theorem diagnostics_ofDecl (globals : Scope) (d : Decl) :
    (ofDecl globals d).map diagnostic = (decl globals d).2.diagnostics := by
  cases d with
  | var d => exact diagnostics_about _ _
  | fn d => simp [ofDecl, ofFnDecl, decl, fnDecl, ownFindings, diagnostics_ofStmts]
  | struct d =>
    simp only [ofDecl, decl, structDecl]
    split
    · exact diagnostics_about _ _
    · simp [Findings.bind]

theorem diagnostics_ofDecls : (globals : Scope) → (ds : List Decl) →
    (ofDecls globals ds).map diagnostic = (decls globals ds).2.diagnostics
  | _, [] => rfl
  | globals, d :: ds => by
    simp [ofDecls, decls, diagnostics_ofDecl, diagnostics_ofDecls _ ds]

end Report

/-! ## Symbols and the declarations that they come from -/

/-- What a name is bound to, and the declaration that it comes from. It is the symbol that the
declaration gave its own name, and of the kind and the name that it declares. -/
inductive Traced (b : Bindings) (meanings : List (Ident × Option Origin)) (name : Text) :
    Option Symbol → Option Origin → Prop where
  | unbound : Traced b meanings name none none
  | bound {s : Symbol} {o : Origin} (kind : s.kind = o.kind) (symbol : s.name = name)
    (ident : o.ident.name = name) (declares : (o.ident, some o) ∈ meanings)
    (own : b.symbolOf o.ident = some s) : Traced b meanings name (some s) (some o)

theorem Traced.cases {b : Bindings} {meanings : List (Ident × Option Origin)} {name : Text}
    {symbol? : Option Symbol} {origin? : Option Origin}
    (h : Traced b meanings name symbol? origin?) : symbol? = none ∧ origin? = none ∨
      ∃ s o, symbol? = some s ∧ origin? = some o ∧ s.kind = o.kind := by
  cases h with
  | unbound => exact .inl ⟨rfl, rfl⟩
  | bound kind => exact .inr ⟨_, _, rfl, rfl, kind⟩

namespace Scoping

open Report (about outside_about outside_append about_append)

section

variable (b : Bindings) (all : List (Ident × Option Origin))

def TracedScope (scope : Scope) (marks : Outline.Scope) : Prop :=
  ∀ name, Traced b all name (scope.find? name) (Outline.declaration? marks name)

abbrev TracedEnv : Env → Outline.Env → Prop := List.Forall₂ (TracedScope b all)

/-- A part of a program with these identifiers, what is found out about it and what its outline
tells, as parts of what is known about the whole. -/
structure Portion (ids : List Ident) (f : Findings) (a : Outline.Account) : Prop where
  proper : Proper ids
  agree : Agree b f ids
  told : a.meanings ⊆ all

/-- What the outline tells is true. -/
structure Told (reports : List Report) (a : Outline.Account) : Prop where
  meanings : ∀ m ∈ a.meanings, Traced b all m.1.name (b.symbolOf m.1) m.2
  diagnostics : Report.outside reports = a.diagnostics

end

variable {b : Bindings} {all : List (Ident × Option Origin)}

theorem tracedScope_empty : TracedScope b all .empty [] := fun _ => .unbound

theorem TracedScope.env {scope : Scope} {marks : Outline.Scope}
    (h : TracedScope b all scope marks) : TracedEnv b all [scope] [marks] :=
  .cons h .nil

theorem TracedEnv.find {env : Env} {marks : Outline.Env} (h : TracedEnv b all env marks)
    (name : Text) : Traced b all name (env.find name) (marks.find name) := by
  induction h with
  | nil => exact .unbound
  | @cons scope declared env marks inner _ ih =>
    have here := inner name
    rw [Env.find, Outline.Env.find, List.findSome?_cons, List.findSome?_cons]
    generalize scope.find? name = symbol? at here ⊢
    generalize Outline.declaration? declared name = origin? at here ⊢
    cases here with
    | unbound => exact ih
    | bound kind symbol ident declares own => exact .bound kind symbol ident declares own

theorem TracedEnv.struct {env : Env} {marks : Outline.Env} (h : TracedEnv b all env marks)
    (name : Text) :
    Traced b all name ((env.struct name).map .structDef) (marks.struct name) := by
  have found := h.find name
  rw [Env.struct, Outline.Env.struct]
  generalize env.find name = symbol? at found ⊢
  generalize marks.find name = origin? at found ⊢
  cases found with
  | unbound => exact .unbound
  | @bound s o kind symbol ident declares own =>
    cases s with
    | structDef d =>
      have struct : o.kind = .structDef := kind.symm
      rw [Option.filter_some, if_pos (decide_eq_true struct)]
      exact .bound kind symbol ident declares own
    | _ =>
      rw [Option.filter_some, if_neg (by simp [← kind, Symbol.kind])]
      exact .unbound

theorem within_append {f g : Findings} {ids more : List Ident}
    (first : ∀ n ∈ f.nodes, n ∈ nodes ids) (second : ∀ n ∈ g.nodes, n ∈ nodes more) :
    ∀ n ∈ (f ++ g).nodes, n ∈ nodes (ids ++ more) := by
  intro n mem
  rw [nodes_append, List.mem_append]
  exact (Findings.mem_nodes_append.mp mem).imp (first n) (second n)

namespace Portion

variable {ids more : List Ident} {f g : Findings} {a c : Outline.Account}

theorem append (h : Portion b all (ids ++ more) (f ++ g) (a ++ c))
    (first : ∀ n ∈ f.nodes, n ∈ nodes ids) (second : ∀ n ∈ g.nodes, n ∈ nodes more) :
    Portion b all ids f a ∧ Portion b all more g c := by
  obtain ⟨left, right, apart⟩ := h.proper.append
  obtain ⟨here, there⟩ := h.agree.append apart first second
  obtain ⟨before, after⟩ := List.append_subset.mp h.told
  exact ⟨⟨left, here, before⟩, right, there, after⟩

theorem left (h : Portion b all (ids ++ more) f a) : Portion b all ids f a :=
  ⟨h.proper.append.1, fun id mem => h.agree id (List.mem_append_left _ mem), h.told⟩

theorem perm (h : Portion b all ids f a) (same : ids.Perm more) : Portion b all more f a :=
  ⟨h.proper.perm same, fun id mem => h.agree id (same.mem_iff.mpr mem), h.told⟩

end Portion

namespace Told

variable {reports more : List Report} {a c : Outline.Account}

/-- No name at all. -/
theorem silent {ds : List Diagnostic} (same : Report.outside reports = ds) :
    Told b all reports ⟨[], ds⟩ := by
  refine ⟨?_, same⟩
  intro m mem
  cases mem

theorem append (first : Told b all reports a) (second : Told b all more c) :
    Told b all (reports ++ more) (a ++ c) := by
  constructor
  · intro m mem
    exact (List.mem_append.mp mem).elim (first.meanings m) (second.meanings m)
  · rw [outside_append, first.diagnostics, second.diagnostics]
    rfl

/-- One name. -/
theorem one {id : Ident} {origin? : Option Origin} {f : Findings} {ds : List Diagnostic}
    (meaning : Traced b all id.name (b.symbolOf id) origin?) (same : f.diagnostics = ds) :
    Told b all (about .outside f) ⟨[(id, origin?)], ds⟩ := by
  refine ⟨?_, (outside_about f).trans same⟩
  intro m mem
  obtain rfl := List.mem_singleton.mp mem
  exact meaning

end Told

/-! ## Uses -/

theorem told_use {env : Env} {marks : Outline.Env} (around : TracedEnv b all env marks) {id : Ident}
    (part : Portion b all [id] (use env id) (Outline.use marks id)) :
    Told b all (about .outside (use env id)) (Outline.use marks id) := by
  have bound : b.symbolOf id = env.find id.name :=
    (part.agree id List.mem_cons_self).1.trans (symbolOf_findings_use env id)
  have meaning := around.find id.name
  rw [use, Outline.use]
  rcases meaning.cases with ⟨unknown, unmarked⟩ | ⟨s, o, found, marked, -⟩
  · rw [← bound, unmarked] at meaning
    rw [unknown, unmarked]
    exact .one meaning rfl
  · rw [← bound, marked] at meaning
    rw [found, marked]
    exact .one meaning rfl

/-- What is refused whatever the fields are, and nothing else, is reported outside. -/
theorem told_select {env : Env} {marks : Outline.Env} (around : TracedEnv b all env marks)
    (base : Exp) (field : Ident) :
    Told b all
      (about (Report.ofSelection env base) (select (.of env base) base.position field))
      (if Outline.refuses marks base then .report base.position .notStruct else .nothing) := by
  cases base with
  | ident id =>
    rcases (around.find id.name).cases with ⟨unknown, unmarked⟩ | ⟨s, o, found, marked, kind⟩
    · have base : Base.of env (.ident id) = .unbound := by rw [Base.of, unknown]; rfl
      have allowed : Outline.refuses marks (.ident id) = false := by
        rw [Outline.refuses, unmarked]; rfl
      rw [base, allowed]
      exact .silent rfl
    · have refused : Outline.refuses marks (.ident id) = decide (s.kind ≠ .structVar) := by
        rw [Outline.refuses, marked, kind]; rfl
      have base : Base.of env (.ident id) = .ofSymbol? (some s) := by rw [Base.of, found]
      simp only [Report.ofSelection, base, refused]
      cases s with
      | structVar => exact .silent (@Report.outside_about_of_ne .selection (by decide) _)
      | _ => exact .silent (outside_about _)
  | dot => exact .silent (@Report.outside_about_of_ne .selection (by decide) _)
  | _ => exact .silent (outside_about _)

mutual

theorem told_exp {env : Env} {marks : Outline.Env} (around : TracedEnv b all env marks) :
    (e : Exp) → Portion b all e.idents (exp env e) (Outline.exp marks e) →
      Told b all (Report.ofExp env e) (Outline.exp marks e)
  | .int _ _ _, _ | .string _ _, _ | .bool _ _, _ => .silent rfl
  | .ident _, part => told_use around part
  | .dot base field, part => by
    obtain ⟨before, -⟩ := part.append (fun _ => nodes_exp base) fun _ mem => by
      simp [nodes, nodes_select mem]
    exact (told_exp around base before).append (told_select around base field)
  | .assign target value, part => by
    obtain ⟨first, second⟩ := part.append (fun _ => nodes_exp target) fun _ => nodes_exp value
    exact (told_exp around target first).append (told_exp around value second)
  | .call callee args, part => by
    obtain ⟨first, second⟩ := @Portion.append b all [callee] _ _ _ _ _ part (fun _ mem => by
      simp [nodes, nodes_use mem]) fun _ => nodes_exps args
    exact (told_use around first).append (told_exps around args second)
  | .unary _ operand, part => told_exp around operand part
  | .binary _ left right, part => by
    obtain ⟨first, second⟩ := part.append (fun _ => nodes_exp left) fun _ => nodes_exp right
    exact (told_exp around left first).append (told_exp around right second)

theorem told_exps {env : Env} {marks : Outline.Env} (around : TracedEnv b all env marks) :
    (es : List Exp) → Portion b all (Exp.identsAll es) (exps env es) (Outline.exps marks es) →
      Told b all (Report.ofExps env es) (Outline.exps marks es)
  | [], _ => .silent rfl
  | e :: es, part => by
    obtain ⟨first, second⟩ := part.append (fun _ => nodes_exp e) fun _ => nodes_exps es
    exact (told_exp around e first).append (told_exps around es second)

end

/-! ## Declarations -/

theorem told_candidate {env : Env} {marks : Outline.Env} (around : TracedEnv b all env marks)
    {d : VarDecl}
    (part : Portion b all d.type.idents (candidate env d).2 (Outline.candidate marks d).2) :
    (Outline.candidate marks d).1 = (candidate env d).1.map Symbol.kind ∧
      Told b all (about .outside (candidate env d).2) (Outline.candidate marks d).2 := by
  obtain ⟨type, name⟩ := d
  cases type with
  | struct typeName =>
    have meaning := around.struct typeName.name
    have bound := (part.agree typeName List.mem_cons_self).1
    simp only [candidate, Outline.candidate] at bound ⊢
    rcases meaning.cases with ⟨unknown, unmarked⟩ | ⟨s, o, found, marked, -⟩
    · rw [Option.map_eq_none_iff.mp unknown] at bound ⊢
      rw [unmarked]
      exact ⟨rfl, .one (bound ▸ .unbound) rfl⟩
    · obtain ⟨definition, struct, rfl⟩ := Option.map_eq_some_iff.mp found
      rw [struct] at bound meaning ⊢
      rw [marked] at meaning ⊢
      refine ⟨rfl, .one ?_ rfl⟩
      rw [bound, Findings.symbolOf_bind]
      exact meaning
  | void => exact ⟨rfl, .silent rfl⟩
  | int => exact ⟨rfl, .silent rfl⟩
  | bool => exact ⟨rfl, .silent rfl⟩

/-- What is found out about a name that is declared, given what it would mean. -/
def naming (taken : Bool) (symbol? : Option Symbol) (id : Ident) : Findings :=
  if taken then .report id.position .redeclared else symbol?.elim .nothing (.bind id)

theorem declare_eq (env : Env) (taken : Bool) (d : VarDecl) :
    declare env taken d = (if taken then none else (candidate env d).1,
      (candidate env d).2 ++ naming taken (candidate env d).1 d.name) := by
  cases taken with
  | true => rfl
  | false =>
    cases accepted : (candidate env d).1 with
    | none => simp [declare_rejected accepted, naming]
    | some s => simp [declare_accepted accepted, naming]

theorem symbolOf_naming (taken : Bool) (symbol? : Option Symbol) (id : Ident) :
    (naming taken symbol? id).bindings.symbolOf id = if taken then none else symbol? := by
  cases taken with
  | true => rfl
  | false =>
    cases symbol? with
    | none => rfl
    | some s => exact Findings.symbolOf_bind id s

theorem nodes_naming {taken : Bool} {symbol? : Option Symbol} {id : Ident} {n : Nat}
    (mem : n ∈ (naming taken symbol? id).nodes) : n = id.node := by
  cases taken with
  | true => cases mem
  | false =>
    cases symbol? with
    | none => cases mem
    | some s => simpa [naming, Findings.nodes, Findings.bind] using mem

/-- A name is added to a scope exactly if it is added to the declarations. -/
theorem traced_introduce {scope : Scope} {marks : Outline.Scope}
    (around : TracedScope b all scope marks) {symbol? : Option Symbol} {id : Ident}
    (own : ∀ s, symbol? = some s → s.name = id.name)
    (part : Portion b all [id] (naming (scope.contains id.name) symbol? id)
      (Outline.introduce marks (symbol?.map Symbol.kind) id).2) :
    TracedScope b all
        ((if scope.contains id.name then none else symbol?).elim scope (scope.insert id.name))
        (Outline.introduce marks (symbol?.map Symbol.kind) id).1 ∧
      Told b all (about .outside (naming (scope.contains id.name) symbol? id))
        (Outline.introduce marks (symbol?.map Symbol.kind) id).2 := by
  have bound := (part.agree id List.mem_cons_self).1.trans (symbolOf_naming _ _ _)
  have told := part.told
  have taken : (Outline.declaration? marks id.name).isSome = scope.contains id.name := by
    rcases (around id.name).cases with ⟨unknown, unmarked⟩ | ⟨s, o, found, marked, -⟩
    · rw [unmarked, Table.contains, unknown]; rfl
    · rw [marked, Table.contains, found]; rfl
  simp only [Outline.introduce, taken] at told ⊢
  cases known : scope.contains id.name with
  | true =>
    rw [known] at bound
    exact ⟨around, .one (bound ▸ .unbound) rfl⟩
  | false =>
    rw [known] at bound told
    cases symbol? with
    | none => exact ⟨around, .one (bound ▸ .unbound) rfl⟩
    | some s =>
      have traced : Traced b all id.name (b.symbolOf id) (some ⟨s.kind, id⟩) := by
        rw [bound]
        exact .bound rfl (own s rfl) rfl (told List.mem_cons_self) bound
      refine ⟨?_, .one traced rfl⟩
      intro name
      rw [if_neg Bool.false_ne_true, Option.elim_some, Table.find?_insert]
      by_cases same : name = id.name
      · subst same
        simpa [Outline.declaration?, bound] using traced
      · simpa [Outline.declaration?, same, Ne.symm same] using around name

theorem told_declare {env : Env} {marks : Outline.Env} (around : TracedEnv b all env marks)
    {scope : Scope} {declared : Outline.Scope} (inner : TracedScope b all scope declared)
    {d : VarDecl} (within : ∀ n ∈ (candidate env d).2.nodes, n ∈ nodes d.type.idents)
    (part : Portion b all d.idents (declare env (scope.contains d.name.name) d).2
      (Outline.declare marks declared d).2) :
    TracedScope b all
        ((declare env (scope.contains d.name.name) d).1.elim scope (scope.insert d.name.name))
        (Outline.declare marks declared d).1 ∧
      Told b all (about .outside (declare env (scope.contains d.name.name) d).2)
        (Outline.declare marks declared d).2 := by
  rw [declare_eq] at part ⊢
  obtain ⟨type, name⟩ := part.append within fun _ mem => by simp [nodes, nodes_naming mem]
  obtain ⟨kinds, told⟩ := told_candidate around type
  have own : ∀ s, (candidate env d).1 = some s → s.name = d.name.name :=
    fun _ accepted => (candidate_some accepted).1
  simp only [Outline.declare, kinds] at name ⊢
  obtain ⟨grown, named⟩ := traced_introduce inner own name
  rw [about_append]
  exact ⟨grown, told.append named⟩

theorem told_declareAll {env : Env} {marks : Outline.Env} (around : TracedEnv b all env marks) :
    {scope : Scope} → {declared : Outline.Scope} → TracedScope b all scope declared →
    (ds : List VarDecl) → Portion b all (ds.flatMap VarDecl.idents)
      (declareAll (· :: env) scope ds).findings (Outline.declareAll (· :: marks) declared ds).2 →
    TracedScope b all (declareAll (· :: env) scope ds).scope
        (Outline.declareAll (· :: marks) declared ds).1 ∧
      Told b all (about .outside (declareAll (· :: env) scope ds).findings)
        (Outline.declareAll (· :: marks) declared ds).2
  | _, _, inner, [], _ => ⟨inner, .silent rfl⟩
  | scope, _, inner, d :: ds, part => by
    obtain ⟨first, second, -⟩ := part.proper.append
    obtain ⟨one, rest⟩ :=
      part.append (yields_varDecl first).within (yields_varDecls ds second).within
    have type := (yields_candidate (List.cons_ne_nil scope env) d).within
    obtain ⟨grown, told⟩ := told_declare (.cons inner around) inner type one
    obtain ⟨last, others⟩ := told_declareAll around grown ds rest
    refine ⟨last, ?_⟩
    have both := told.append others
    rwa [← about_append] at both

/-- Declarations that go into a scope, and what comes after them. -/
theorem told_frame {env : Env} {marks : Outline.Env} (around : TracedEnv b all env marks)
    {scope : Scope} {declared : Outline.Scope} (inner : TracedScope b all scope declared)
    {decls : List VarDecl} {body : List Stmt}
    (part : Portion b all (decls.flatMap VarDecl.idents ++ Stmt.identsAll body)
      ((declareAll (· :: env) scope decls).findings
        ++ stmts ((declareAll (· :: env) scope decls).scope :: env) body)
      ((Outline.declareAll (· :: marks) declared decls).2
        ++ Outline.stmts ((Outline.declareAll (· :: marks) declared decls).1 :: marks) body))
    (rest : ∀ {env : Env} {marks : Outline.Env}, env ≠ [] → TracedEnv b all env marks →
      Portion b all (Stmt.identsAll body) (stmts env body) (Outline.stmts marks body) →
      Told b all (Report.ofStmts env body) (Outline.stmts marks body)) :
    Told b all
      (about .outside (declareAll (· :: env) scope decls).findings
        ++ Report.ofStmts ((declareAll (· :: env) scope decls).scope :: env) body)
      ((Outline.declareAll (· :: marks) declared decls).2
        ++ Outline.stmts ((Outline.declareAll (· :: marks) declared decls).1 :: marks) body) := by
  obtain ⟨first, second, -⟩ := part.proper.append
  have inside := List.cons_ne_nil (declareAll (· :: env) scope decls).scope env
  obtain ⟨heading, ending⟩ :=
    part.append (yields_varDecls decls first).within (yields_stmts inside body second).within
  obtain ⟨grown, told⟩ := told_declareAll around inner decls heading
  exact told.append (rest inside (.cons grown around) ending)

mutual

theorem told_stmt {env : Env} {marks : Outline.Env} (around : TracedEnv b all env marks) :
    (s : Stmt) → Portion b all s.idents (stmt env s) (Outline.stmt marks s) →
      Told b all (Report.ofStmt env s) (Outline.stmt marks s)
  | .assign target value, part => told_exp around (.assign target value) part
  | .increment target, part | .decrement target, part | .read target, part
  | .write target, part => told_exp around target part
  | .ifThen condition body, part | .whileLoop condition body, part
  | .repeatLoop condition body, part => by
    obtain ⟨-, second, -⟩ := part.proper.append
    obtain ⟨first, rest⟩ :=
      part.append (fun _ => nodes_exp condition) (yields_block body second).within
    exact (told_exp around condition first).append (told_block around body rest)
  | .ifElse condition yes no, part => by
    rw [Stmt.idents, List.append_assoc] at part
    obtain ⟨-, blocks, -⟩ := part.proper.append
    obtain ⟨second, third, -⟩ := blocks.append
    have former := (@yields_block env yes second).within
    have latter := (@yields_block env no third).within
    obtain ⟨first, rest⟩ :=
      part.append (fun _ => nodes_exp condition) (within_append former latter)
    obtain ⟨left, right⟩ := rest.append former latter
    exact (told_exp around condition first).append
      ((told_block around yes left).append (told_block around no right))
  | .call callee args, part => told_exp around (.call callee args) part
  | .giveBack none _, _ => .silent rfl
  | .giveBack (some value) _, part => told_exp around value part

theorem told_block {env : Env} {marks : Outline.Env} (around : TracedEnv b all env marks) :
    (k : Block) → Portion b all k.idents (block env k) (Outline.block marks k) →
      Told b all (Report.ofBlock env k) (Outline.block marks k)
  | .mk _ body, part =>
    told_frame around tracedScope_empty part fun inside around => told_stmts inside around body

theorem told_stmts {env : Env} {marks : Outline.Env} (inside : env ≠ [])
    (around : TracedEnv b all env marks) : (ss : List Stmt) →
    Portion b all (Stmt.identsAll ss) (stmts env ss) (Outline.stmts marks ss) →
      Told b all (Report.ofStmts env ss) (Outline.stmts marks ss)
  | [], _ => .silent rfl
  | s :: ss, part => by
    obtain ⟨first, second, -⟩ := part.proper.append
    obtain ⟨one, rest⟩ :=
      part.append (yields_stmt inside s first).within (yields_stmts inside ss second).within
    exact (told_stmt around s one).append (told_stmts inside around ss rest)

end

/-! ## Declarations of the file -/

theorem told_resultType {globals : Scope} {marks : Outline.Scope}
    (around : TracedScope b all globals marks) (type : TypeExp)
    (part : Portion b all type.idents (resultType globals type) (Outline.resultType marks type)) :
    Told b all (about .outside (resultType globals type)) (Outline.resultType marks type) := by
  cases type with
  | struct name =>
    have bound : b.symbolOf name = (Env.struct [globals] name.name).map .structDef := by
      rw [(part.agree name List.mem_cons_self).1, resultType]
      cases Env.struct [globals] name.name with
      | none => rfl
      | some definition => exact Findings.symbolOf_bind name _
    exact .one (bound ▸ around.env.struct name.name) (Rules.resultType_clean globals _)
  | _ => exact .silent rfl

theorem told_fnDecl {globals : Scope} {marks : Outline.Scope}
    (around : TracedScope b all globals marks) {d : FnDecl}
    (part : Portion b all (Decl.fn d).idents (fnDecl globals d).2 (Outline.fnDecl marks d).2) :
    TracedScope b all (fnDecl globals d).1 (Outline.fnDecl marks d).1 ∧
      Told b all (Report.ofFnDecl globals d) (Outline.fnDecl marks d).2 := by
  have part := part.perm (idents_fn_perm d)
  obtain ⟨-, others, -⟩ := part.proper.append
  obtain ⟨-, inner, -⟩ := others.append
  obtain ⟨formals, block, -⟩ := inner.append
  have resulting := (@yields_resultType globals d.resultType).within
  have heading := (@yields_varDecls [globals] .empty d.formals formals).within
  have ending := (yields_fnBody (declareAll (· :: [globals]) .empty d.formals).scope
    (fnDecl globals d).1 block).within
  obtain ⟨name, part⟩ := @Portion.append b all [d.name] _
    (naming (globals.contains d.name.name) (some (fnSymbol globals d)) d.name) _ _ _ part
    (fun _ mem => by simp [nodes, nodes_naming mem])
    (within_append resulting (within_append heading ending))
  obtain ⟨result, part⟩ := part.append resulting (within_append heading ending)
  obtain ⟨first, part⟩ := part.append heading ending
  obtain ⟨outer, named⟩ := traced_introduce around (by rintro _ ⟨⟩; rfl) name
  have entered : (fnDecl globals d).1 = (if globals.contains d.name.name then none
      else some (fnSymbol globals d)).elim globals (globals.insert d.name.name) := by
    rw [fnDecl]
    cases globals.contains d.name.name <;> rfl
  rw [← entered] at outer
  obtain ⟨frame, headed⟩ := told_declareAll around.env tracedScope_empty d.formals first
  refine ⟨outer, named.append ((told_resultType around _ result).append (headed.append ?_))⟩
  obtain ⟨type, id, inputs, ⟨decls, body⟩⟩ := d
  exact told_frame outer.env frame part fun inside around => told_stmts inside around body

/-- Whatever is found out about the fields of a struct stays inside. -/
theorem told_structDecl {globals : Scope} {marks : Outline.Scope}
    (around : TracedScope b all globals marks) {d : StructDecl}
    (part : Portion b all (Decl.struct d).idents (structDecl globals d).2
      (Outline.introduce marks (some .structDef) d.name).2) :
    TracedScope b all (structDecl globals d).1
        (Outline.introduce marks (some .structDef) d.name).1 ∧
      Told b all (Report.ofDecl globals (.struct d))
        (Outline.introduce marks (some .structDef) d.name).2 := by
  let fields := declareAll (fun _ => [globals]) .empty d.fields
  let symbol := Symbol.structDef (.mk d.name.name fields.scope.values)
  have name : Portion b all [d.name] (naming (globals.contains d.name.name) (some symbol) d.name)
      (Outline.introduce marks (some .structDef) d.name).2 := by
    rw [structDecl] at part
    cases taken : globals.contains d.name.name with
    | true =>
      rw [taken] at part
      exact @Portion.left b all [d.name] _ _ _ part
    | false =>
      -- the name is bound after the fields, so it comes last
      rw [taken] at part
      obtain ⟨-, proper, -⟩ := @Proper.append [d.name] _ part.proper
      have bare : Labelled .empty := by simp [Labelled, Table.empty]
      have within := (yields_fieldDecls (List.cons_ne_nil globals []) d.name.name bare d.fields
        proper).within
      have last := part.perm (List.perm_append_singleton d.name _).symm
      refine (@Portion.append b all _ _ _ _ .nothing _ last within fun _ mem => ?_).2
      simpa [nodes, Findings.nodes, Findings.bind] using mem
  obtain ⟨grown, told⟩ := traced_introduce around (by rintro _ ⟨⟩; rfl) name
  rw [structDecl, Report.ofDecl]
  cases taken : globals.contains d.name.name with
  | true =>
    rw [taken] at grown told
    exact ⟨grown, told⟩
  | false =>
    rw [taken] at grown told
    have hidden : Report.outside (about .member fields.findings) = [] :=
      Report.outside_about_of_ne (by decide) _
    exact ⟨grown, told.meanings, hidden.trans told.diagnostics⟩

theorem told_decl {globals : Scope} {marks : Outline.Scope}
    (around : TracedScope b all globals marks) : (d : Decl) →
    Portion b all d.idents (decl globals d).2 (Outline.decl marks d).2 →
    TracedScope b all (decl globals d).1 (Outline.decl marks d).1 ∧
      Told b all (Report.ofDecl globals d) (Outline.decl marks d).2
  | .var d, part => by
    have type := (yields_candidate (List.cons_ne_nil globals []) d).within
    have alone : (declareAll (fun scope => [scope]) globals [d]).findings =
        (declare [globals] (globals.contains d.name.name) d).2 := Findings.append_nothing _
    rw [decl, alone] at part
    rw [Report.ofDecl, alone]
    exact told_declare around.env around type part
  | .fn _, part => told_fnDecl around part
  | .struct _, part => told_structDecl around part

theorem told_decls : {globals : Scope} → {marks : Outline.Scope} →
    TracedScope b all globals marks → (ds : List Decl) →
    Portion b all (ds.flatMap Decl.idents) (decls globals ds).2 (Outline.decls marks ds).2 →
      Told b all (Report.ofDecls globals ds) (Outline.decls marks ds).2
  | _, _, _, [], _ => .silent rfl
  | _, _, around, d :: ds, part => by
    obtain ⟨first, second, -⟩ := part.proper.append
    obtain ⟨one, rest⟩ :=
      part.append (yields_decl d first).within (yields_decls ds second).within
    obtain ⟨grown, told⟩ := told_decl around d one
    exact told.append (told_decls grown ds rest)

end Scoping

/-! ## Programs with the same outline -/

/-- Other numbers for the identifiers of a program, which keep their names and their positions. -/
def Relabelling.renumbering (μ : Nat → Nat) : Relabelling := ⟨μ, id, id, Function.injective_id⟩

/-- The declaration that a name comes from is told by the outline, and the resolver has bound the
name to the symbol of that declaration. -/
def Program.Traces (p : Program) (r : Resolver) (id : Ident) (origin? : Option Origin) : Prop :=
  (id, origin?) ∈ p.account.meanings ∧
    Traced r.bindings p.account.meanings id.name (r.bindings.symbolOf id) origin?

/-- The resolver is told by the outline. -/
theorem Program.told_outline {p : Program} (proper : Scoping.Proper p.idents) :
    ∃ r, p.resolve = .ok r ∧ r.diagnostics = p.reports.map Report.diagnostic ∧
      Report.outside p.reports = p.account.diagnostics ∧
      ∀ m ∈ p.account.meanings, p.Traces r m.1 m.2 := by
  have part : Scoping.Portion (Scoping.program p).2.bindings p.account.meanings p.idents
      (Scoping.program p).2 p.account :=
    ⟨proper, fun _ _ => ⟨rfl, rfl⟩, List.Subset.refl _⟩
  have told := Scoping.told_decls Scoping.tracedScope_empty p.decls part
  refine ⟨_, resolve_eq_extend proper, (Report.diagnostics_ofDecls .empty p.decls).symm,
    told.diagnostics, ?_⟩
  intro m mem
  exact ⟨mem, told.meanings m mem⟩

theorem Diagnostic.relabel_renumbering (μ : Nat → Nat) (ds : List Diagnostic) :
    ds.map (Diagnostic.relabel (.renumbering μ)) = ds :=
  List.map_id' ds

/-- Programs that are the same but for the fields of their structs and for the numbers of their
identifiers. -/
theorem Program.fields_do_not_leak (p q : Program) (μ : Nat → Nat)
    (distinct : (p.idents.map Ident.node).Nodup) (named : ∀ id ∈ p.idents, id.name ≠ [])
    (distinct' : (q.idents.map Ident.node).Nodup) (named' : ∀ id ∈ q.idents, id.name ≠ [])
    (same : q.outline = p.outline.relabel (.renumbering μ)) :
    ∃ r t, p.resolve = .ok r ∧ q.resolve = .ok t ∧
      r.diagnostics = p.reports.map Report.diagnostic ∧
      t.diagnostics = q.reports.map Report.diagnostic ∧
      Report.outside q.reports = Report.outside p.reports ∧
      ∀ id ∈ p.outline.idents, id ∉ p.fields → ∃ origin?, p.Traces r id origin? ∧
        q.Traces t (id.relabel (.renumbering μ))
          (origin?.map (Origin.relabel (.renumbering μ))) := by
  obtain ⟨r, resolved, reported, outside, traces⟩ := told_outline ⟨distinct, named⟩
  obtain ⟨t, resolved', reported', outside', traces'⟩ := told_outline ⟨distinct', named'⟩
  have account : q.account = p.account.relabel (.renumbering μ) := by
    rw [← q.account_outline, same, account_relabel, p.account_outline]
  refine ⟨r, t, resolved, resolved', reported, reported', ?_, ?_⟩
  · rw [outside', outside, account]
    exact Diagnostic.relabel_renumbering μ _
  · intro id mem unselected
    obtain ⟨origin?, told⟩ := Outline.covers_decls [] p.decls id mem unselected
    refine ⟨origin?, traces _ told, traces' (Outline.relabelMeaning _ (id, origin?)) ?_⟩
    rw [account]
    exact List.mem_map_of_mem told

/-- A struct whose fields have the names of a variable, of a function and of each other, while one
that is selected is missing. -/
theorem Program.fields_do_not_leak_same_names :
    let v : Nat → Int → Text → Ident := fun n column name => ⟨n, name, ⟨1, column⟩⟩
    let rest : Nat → List Decl := fun n => [.var ⟨.int, v n 20 "g"⟩,
      .fn ⟨.void, v (n + 1) 30 "f", [⟨.struct (v (n + 2) 40 "S"), v (n + 3) 42 "s"⟩],
        .mk [] [.assign (.ident (v (n + 4) 50 "g"))
          (.dot (.ident (v (n + 5) 52 "s")) (v (n + 6) 54 "x"))]⟩]
    let p : Program := ⟨.struct ⟨v 0 1 "S", [⟨.int, v 1 5 "x"⟩]⟩ :: rest 2⟩
    let q : Program := ⟨.struct ⟨v 0 1 "S", [⟨.bool, v 1 5 "g"⟩, ⟨.struct (v 2 7 "S"), v 3 9 "g"⟩,
      ⟨.int, v 4 11 "f"⟩]⟩ :: rest 5⟩
    let μ : Nat → Nat := fun n => if n = 0 then 0 else n + 3
    (p.idents.map Ident.node).Nodup ∧ (∀ id ∈ p.idents, id.name ≠ []) ∧
      (q.idents.map Ident.node).Nodup ∧ (∀ id ∈ q.idents, id.name ≠ []) ∧
      q.outline = p.outline.relabel (.renumbering μ) ∧
      ∃ r t, p.resolve = .ok r ∧ q.resolve = .ok t ∧ r.diagnostics = [] ∧
        t.diagnostics = [.error ⟨1, 7⟩ .unknownStruct, .error ⟨1, 9⟩ .redeclared,
          .error ⟨1, 54⟩ .unknownField] ∧
        Report.outside q.reports = [] ∧
        r.bindings.symbolOf (v 6 50 "g") = some (.plain "g" .int) ∧
        ∃ u, t.bindings.symbolOf (v 9 50 "g") = some u ∧ u.kind = .plain ∧ u.name = "g" := by
  intro v rest p q μ
  have distinct : (p.idents.map Ident.node).Nodup := by decide
  have named : ∀ id ∈ p.idents, id.name ≠ [] := by decide
  have distinct' : (q.idents.map Ident.node).Nodup := by decide
  have named' : ∀ id ∈ q.idents, id.name ≠ [] := by decide
  have same : q.outline = p.outline.relabel (.renumbering μ) := rfl
  obtain ⟨r, t, resolved, resolved', reported, reported', outside, alike⟩ :=
    fields_do_not_leak p q μ distinct named distinct' named' same
  obtain ⟨s, known, bound⟩ : ∃ s, p.resolve = .ok s ∧
      s.bindings.symbolOf (v 6 50 "g") = some (.plain "g" .int) :=
    ⟨_, resolve_eq_extend ⟨distinct, named⟩, by rfl⟩
  obtain rfl : r = s := Except.ok.inj (resolved.symm.trans known)
  have silent : p.reports.map Report.diagnostic = [] := by decide +kernel
  have told : q.reports.map Report.diagnostic = [.error ⟨1, 7⟩ .unknownStruct,
    .error ⟨1, 9⟩ .redeclared, .error ⟨1, 54⟩ .unknownField] := by decide +kernel
  refine ⟨distinct, named, distinct', named', same, r, t, resolved, resolved',
    reported.trans silent, reported'.trans told, outside.trans (by decide +kernel), bound, ?_⟩
  have idents : p.outline.idents = [v 0 1 "S", v 2 20 "g", v 3 30 "f", v 4 40 "S", v 5 42 "s",
    v 6 50 "g", v 7 52 "s", v 8 54 "x"] := rfl
  have fields : p.fields = [v 8 54 "x"] := rfl
  obtain ⟨origin?, ⟨-, before⟩, -, after⟩ :=
    alike (v 6 50 "g") (by simp [idents]) (by simp [fields, v])
  rw [bound] at before
  cases before with
  | bound kind =>
    generalize found : t.bindings.symbolOf _ = symbol? at after
    cases after with
    | bound kind' name' => exact ⟨_, found, kind'.trans kind.symm, name'⟩

end Cinder
