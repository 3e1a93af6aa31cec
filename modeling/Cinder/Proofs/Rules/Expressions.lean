import Cinder.Proofs.Rules
import Cinder.Proofs.Scoping.Steps
import Cinder.Typing

/-!
# Checked expressions are typed by the rules

In an environment of regular symbols, and with bindings that agree with what was found out about an
expression, neither pass reports anything about the expression if and only if it has a type by the
rules. The type that is computed is then the type of the rules, so `error` never comes up.
-/
namespace Cinder

/-! ## Types that are not errors -/

namespace Ty

/-- A type as it can be written in a program. -/
def Written (τ : Ty) : Prop := ∃ t : TypeExp, t.type = τ

theorem Written.isError {τ : Ty} (written : τ.Written) : τ.isError = false := by
  obtain ⟨t, rfl⟩ := written
  cases t <;> rfl

/-- Sameness with a written type is equality. -/
theorem Written.same_iff {τ expected : Ty} (written : expected.Written) :
    τ.same expected = true ↔ τ = expected := by
  obtain ⟨t, rfl⟩ := written
  cases t <;> cases τ <;> simp [same, TypeExp.type]

theorem written_int : Written .int := ⟨.int, rfl⟩

theorem written_bool : Written .bool := ⟨.bool, rfl⟩

/-- An operand that is no error is not reported if and only if it has the expected type. -/
theorem operandProblem_eq_none {τ expected : Ty} {problem : Problem} (written : expected.Written)
    (sound : τ.isError = false) : operandProblem expected problem τ = none ↔ τ = expected := by
  rw [operandProblem, sound, Bool.false_or, ← written.same_iff]
  cases τ.same expected <;> simp

end Ty

theorem Problem.about_eq_nil {problem? : Option Problem} {e : Exp} :
    about problem? e = [] ↔ problem? = none := by
  cases problem? <;> simp [about]

/-- A symbol that an accepted declaration gives to its name. -/
inductive Symbol.Regular : Symbol → Prop where
  | plain {name τ} (basic : τ = .int ∨ τ = .bool) : Regular (.plain name τ)
  | function {name result params} (result_written : Ty.Written result)
      (params_written : ∀ τ ∈ params, Ty.Written τ) : Regular (.function name result params)
  | structDef {name fields} (inner : ∀ s ∈ fields, Regular s) :
      Regular (.structDef (.mk name fields))
  | structVar {name typeName struct fields} (inner : ∀ s ∈ fields, Regular s) :
      Regular (.structVar name typeName (.mk struct fields))

namespace Symbol.Regular

theorem isError {s : Symbol} (regular : s.Regular) : s.type.isError = false := by
  cases regular with
  | plain basic => rcases basic with rfl | rfl <;> rfl
  | _ => rfl

theorem field {name struct : Text} {typeName : Ident} {d : StructDef} {s : Symbol}
    (regular : (Symbol.structVar name typeName d).Regular) (found : d.field? struct = some s) :
    s.Regular := by
  cases regular with
  | structVar inner => exact inner s (List.mem_of_find?_eq_some found)

end Symbol.Regular

namespace Rules

open Scoping

def RegularScope (scope : Scope) : Prop := ∀ entry ∈ scope.entries, entry.2.Regular

/-- Every visible declaration is regular. -/
def RegularEnv (env : Env) : Prop := ∀ scope ∈ env, RegularScope scope

theorem RegularEnv.find {env : Env} (regular : RegularEnv env) {name : Text} {s : Symbol}
    (found : env.find name = some s) : s.Regular := by
  obtain ⟨scope, mem, here⟩ := List.exists_of_findSome?_eq_some found
  exact regular scope mem _ (Table.mem_of_find? here)

/-- The bindings hold what was found. -/
def Agrees (b : Bindings) (f : Findings) : Prop :=
  ∀ entry ∈ f.idents, b.idents.find? entry.1 = some entry.2

theorem agrees_append {b : Bindings} {f g : Findings} :
    Agrees b (f ++ g) ↔ Agrees b f ∧ Agrees b g := by
  simp only [Agrees, Findings.idents_append, List.mem_append, or_imp, forall_and]

theorem diagnostics_append_eq_nil {f g : Findings} :
    (f ++ g).diagnostics = [] ↔ f.diagnostics = [] ∧ g.diagnostics = [] := by
  rw [Findings.diagnostics_append, List.append_eq_nil_iff]

/-! ## Places -/

theorem use_clean_iff {env : Env} {id : Ident} :
    (use env id).diagnostics = [] ↔ ∃ s, env.find id.name = some s := by
  rw [use]
  cases env.find id.name with
  | none => simp [Findings.report]
  | some s => simp [Findings.bind]

theorem symbolOf_of_use {b : Bindings} {env : Env} {id : Ident} {s : Symbol}
    (agrees : Agrees b (use env id)) (visible : env.find id.name = some s) :
    b.symbolOf id = some s := by
  refine agrees (id.node, s) ?_
  simp [use, visible, Findings.bind]

theorem typeOf_of_use {b : Bindings} {env : Env} {id : Ident} {s : Symbol}
    (agrees : Agrees b (use env id)) (visible : env.find id.name = some s) :
    b.typeOf id = s.type := by
  rw [Bindings.typeOf, symbolOf_of_use agrees visible]

theorem Denotes.base {env : Env} {e : Exp} {s : Symbol} (denotes : Denotes env e s) :
    Base.of env e = Base.ofSymbol? (some s) := by
  induction denotes with
  | ident visible => rw [Base.of, visible]
  | dot inner selects ih =>
    rw [Base.of, ih]
    exact congrArg Base.ofSymbol? selects

theorem Denotes.regular {env : Env} (regular : RegularEnv env) {e : Exp} {s : Symbol}
    (denotes : Denotes env e s) : s.Regular := by
  induction denotes with
  | ident visible => exact regular.find visible
  | dot inner selects ih => exact ih.field selects

theorem Denotes.clean {env : Env} {e : Exp} {s : Symbol} (denotes : Denotes env e s) :
    (exp env e).diagnostics = [] := by
  induction denotes with
  | ident visible => exact use_clean_iff.mpr ⟨_, visible⟩
  | @dot base field _ _ d s inner selects ih =>
    refine diagnostics_append_eq_nil.mpr ⟨ih, ?_⟩
    rw [inner.base]
    simp only [Base.ofSymbol?, select, selects]
    cases s <;> rfl

theorem Denotes.problems {env : Env} {e : Exp} {s : Symbol} (denotes : Denotes env e s)
    (b : Bindings) : e.problems b = [] := by
  induction denotes with
  | ident => rw [Exp.problems]
  | dot _ _ ih => rw [Exp.problems, ih]

theorem Denotes.type {b : Bindings} {env : Env} {e : Exp} {s : Symbol}
    (denotes : Denotes env e s) (agrees : Agrees b (exp env e)) : e.type b = s.type := by
  cases denotes with
  | ident visible => exact typeOf_of_use agrees visible
  | @dot base field _ _ d _ inner selects =>
    have selected := (agrees_append.mp agrees).2
    rw [inner.base] at selected
    have bound : b.symbolOf field = some s := by
      refine selected (field.node, s) ?_
      simp only [Base.ofSymbol?, select, selects]
      cases s <;> simp [Findings.bind]
    rw [Exp.type, Bindings.typeOf, bound]

/-- A place about which nothing is reported stands for something. -/
theorem denotes_of_clean {env : Env} : (e : Exp) → e.isPlace = true →
    (exp env e).diagnostics = [] → ∃ s, Denotes env e s
  | .ident id, _, clean => by
    obtain ⟨s, visible⟩ := use_clean_iff.mp clean
    exact ⟨s, .ident visible⟩
  | .dot base field, _, clean => by
    obtain ⟨first, second⟩ := diagnostics_append_eq_nil.mp clean
    cases place : base.isPlace with
    | false =>
      have other : Base.of env base = .other := by
        cases base with
        | ident => cases place
        | dot => cases place
        | _ => rfl
      simp [other, select] at second
    | true =>
      obtain ⟨s, inner⟩ := denotes_of_clean base place first
      rw [inner.base] at second
      cases s with
      | structVar name typeName d =>
        cases selects : d.field? field.name with
        | none => simp [Base.ofSymbol?, select, selects] at second
        | some s => exact ⟨s, .dot inner selects⟩
      | _ => simp [Base.ofSymbol?, select] at second

/-! ## Operators -/

/-- What is reported about an operator itself, beside what is reported about its operands. -/
def complaints (op : BinaryOp) (left right : Exp) (l r : Ty) : List Diagnostic :=
  if op.isEquality then Problem.about (Ty.equalityProblem l r) left
  else Problem.about (Ty.operandProblem op.rule.1 op.rule.2.2 l) left ++
    Problem.about (Ty.operandProblem op.rule.1 op.rule.2.2 r) right

theorem problems_binary (b : Bindings) (op : BinaryOp) (left right : Exp) :
    (Exp.binary op left right).problems b = left.problems b ++ right.problems b ++
      complaints op left right (left.type b) (right.type b) := by
  rw [Exp.problems, complaints]
  cases op.isEquality <;> simp

theorem Operator.equality_iff {op : BinaryOp} {operand result : Ty}
    (equality : op.isEquality = true) : Operator op operand result ↔
      result = .bool ∧ (operand = .int ∨ operand = .bool ∨ operand = .string) := by
  have among : op = .equal ∨ op = .notEqual := by simpa [BinaryOp.isEquality] using equality
  constructor
  · intro rule
    cases rule with
    | equality _ comparable => exact ⟨rfl, comparable⟩
    | arithmetic other | logical other | relational other =>
      rcases among with rfl | rfl <;> simp at other
  · rintro ⟨rfl, comparable⟩
    exact .equality (by simpa using among) comparable

theorem Operator.rule_iff {op : BinaryOp} {operand result : Ty} (other : op.isEquality = false) :
    Operator op operand result ↔ operand = op.rule.1 ∧ result = op.rule.2.1 := by
  constructor
  · intro rule
    cases rule with
    | arithmetic among | relational among =>
      simp only [List.mem_cons, List.not_mem_nil, or_false] at among
      rcases among with rfl | rfl | rfl | rfl <;> exact ⟨rfl, rfl⟩
    | logical among =>
      simp only [List.mem_cons, List.not_mem_nil, or_false] at among
      rcases among with rfl | rfl <;> exact ⟨rfl, rfl⟩
    | equality among =>
      simp only [List.mem_cons, List.not_mem_nil, or_false] at among
      rcases among with rfl | rfl <;> cases other
  · rintro ⟨rfl, rfl⟩
    cases op with
    | plus | minus | times | divide => exact .arithmetic (by decide)
    | and | or => exact .logical (by decide)
    | less | greater | lessEqual | greaterEqual => exact .relational (by decide)
    | equal | notEqual => cases other

theorem written_rule (op : BinaryOp) : op.rule.1.Written := by
  cases op with
  | and | or => exact Ty.written_bool
  | _ => exact Ty.written_int

theorem equalityProblem_eq_none {l r : Ty} (left : l.isError = false) (right : r.isError = false) :
    Ty.equalityProblem l r = none ↔ l = r ∧ (l = .int ∨ l = .bool ∨ l = .string) := by
  cases l <;> cases r <;> simp_all [Ty.equalityProblem, Ty.same, Ty.isError]

theorem Operator.resultType {op : BinaryOp} {operand result : Ty}
    (rule : Operator op operand result) : op.resultType operand operand = result := by
  cases equality : op.isEquality with
  | true =>
    obtain ⟨rfl, comparable⟩ := (equality_iff equality).mp rule
    rw [BinaryOp.resultType, equality, if_pos rfl]
    rcases comparable with rfl | rfl | rfl <;> rfl
  | false =>
    obtain ⟨rfl, rfl⟩ := (rule_iff equality).mp rule
    have same : op.rule.1.same op.rule.1 = true := (written_rule op).same_iff.mpr rfl
    simp [BinaryOp.resultType, equality, same]

/-- An operator on operands that are no errors is not reported if and only if a rule applies. -/
theorem complaints_eq_nil {op : BinaryOp} {left right : Exp} {l r : Ty}
    (sound : l.isError = false) (sound' : r.isError = false) :
    complaints op left right l r = [] ↔ l = r ∧ ∃ result, Operator op l result := by
  rw [complaints]
  cases equality : op.isEquality with
  | true =>
    rw [if_pos rfl, Problem.about_eq_nil, equalityProblem_eq_none sound sound']
    simp only [Operator.equality_iff equality, exists_eq_left]
  | false =>
    rw [if_neg (by simp), List.append_eq_nil_iff, Problem.about_eq_nil, Problem.about_eq_nil,
      Ty.operandProblem_eq_none (written_rule op) sound,
      Ty.operandProblem_eq_none (written_rule op) sound']
    simp only [Operator.rule_iff equality, exists_and_left, exists_eq, and_true]
    constructor
    · rintro ⟨rfl, rfl⟩
      exact ⟨rfl, rfl⟩
    · rintro ⟨rfl, rfl⟩
      exact ⟨rfl, rfl⟩

theorem assignProblem_eq_none {target value : Ty} (sound : target.isError = false)
    (sound' : value.isError = false) : Ty.assignProblem target value = none ↔
      (target = .int ∨ target = .bool) ∧ value = target := by
  cases target <;> cases value <;> simp_all [Ty.assignProblem, Ty.isError]

theorem unaryProblem_eq_none {op : UnaryOp} {τ : Ty} (sound : τ.isError = false) :
    Ty.unaryProblem op τ = none ↔ op = .negate ∧ τ = .int ∨ op = .not ∧ τ = .bool := by
  cases op <;> cases τ <;> simp_all [Ty.unaryProblem, Ty.isError]

theorem ofAssign_self {τ : Ty} (basic : τ = .int ∨ τ = .bool) : Ty.ofAssign τ τ = τ := by
  rcases basic with rfl | rfl <;> rfl

theorem argumentProblem_eq_none {formal actual : Ty} (written : formal.Written)
    (sound : actual.isError = false) :
    Ty.argumentProblem formal actual = none ↔ actual = formal := by
  rw [Ty.argumentProblem, sound, written.isError, ← written.same_iff]
  cases actual.same formal <;> simp

/-! ## Expressions -/

theorem HasType.isError {env : Env} (regular : RegularEnv env) {e : Exp} {τ : Ty}
    (typed : HasType env e τ) : τ.isError = false := by
  cases typed with
  | place denotes => exact (denotes.regular regular).isError
  | assign basic => rcases basic with rfl | rfl <;> rfl
  | call visible =>
    cases regular.find visible with
    | function written => exact written.isError
  | binary rule => cases rule <;> rfl
  | _ => rfl

section

variable {b : Bindings} {env : Env} (regular : RegularEnv env)
include regular

mutual

theorem HasType.checked : {e : Exp} → {τ : Ty} → HasType env e τ → Agrees b (exp env e) →
    e.type b = τ ∧ (exp env e).diagnostics = [] ∧ e.problems b = []
  | _, _, .int, _ => ⟨rfl, rfl, rfl⟩
  | _, _, .string, _ => ⟨rfl, rfl, rfl⟩
  | _, _, .bool, _ => ⟨rfl, rfl, rfl⟩
  | _, _, .place denotes, agrees => ⟨denotes.type agrees, denotes.clean, denotes.problems b⟩
  | _, τ, .assign basic left right, agrees => by
    obtain ⟨first, second⟩ := agrees_append.mp agrees
    obtain ⟨type, clean, problems⟩ := HasType.checked left first
    obtain ⟨type', clean', problems'⟩ := HasType.checked right second
    have quiet : Ty.assignProblem τ τ = none :=
      (assignProblem_eq_none (left.isError regular) (left.isError regular)).mpr ⟨basic, rfl⟩
    refine ⟨?_, diagnostics_append_eq_nil.mpr ⟨clean, clean'⟩, ?_⟩
    · rw [Exp.type, type, type', ofAssign_self basic]
    · rw [Exp.problems, problems, problems', type, type', quiet]
      rfl
  | _, _, @HasType.call _ callee args name result params visible given, agrees => by
    obtain ⟨first, second⟩ := agrees_append.mp agrees
    have type := typeOf_of_use first visible
    cases regular.find visible with
    | function _ written =>
      obtain ⟨arity, clean, problems⟩ := HaveTypes.checked given written second
      have signature : (b.typeOf callee).signature args.length = some (params, result) := by
        rw [type, Symbol.type, Ty.signature, if_pos arity.symm]
      refine ⟨?_, diagnostics_append_eq_nil.mpr ⟨use_clean_iff.mpr ⟨_, visible⟩, clean⟩, ?_⟩
      · rw [Exp.type, Ty.ofCall, signature]
      · rw [Exp.problems, signature]
        exact problems
  | _, _, .negate inner, agrees => by
    obtain ⟨type, clean, problems⟩ := HasType.checked inner agrees
    refine ⟨?_, clean, ?_⟩
    · rw [Exp.type, type, Ty.ofUnary]
    · rw [Exp.problems, problems, type]
      rfl
  | _, _, .not inner, agrees => by
    obtain ⟨type, clean, problems⟩ := HasType.checked inner agrees
    refine ⟨?_, clean, ?_⟩
    · rw [Exp.type, type, Ty.ofUnary]
    · rw [Exp.problems, problems, type]
      rfl
  | _, _, .binary rule left right, agrees => by
    obtain ⟨first, second⟩ := agrees_append.mp agrees
    obtain ⟨type, clean, problems⟩ := HasType.checked left first
    obtain ⟨type', clean', problems'⟩ := HasType.checked right second
    refine ⟨?_, diagnostics_append_eq_nil.mpr ⟨clean, clean'⟩, ?_⟩
    · rw [Exp.type, type, type', rule.resultType]
    · rw [problems_binary, problems, problems', type, type']
      exact (complaints_eq_nil (left.isError regular) (right.isError regular)).mpr ⟨rfl, _, rule⟩

theorem HaveTypes.checked : {args : List Exp} → {formals : List Ty} → HaveTypes env args formals →
    (∀ τ ∈ formals, τ.Written) → Agrees b (exps env args) →
    args.length = formals.length ∧ (exps env args).diagnostics = [] ∧
      Exp.argumentProblems b args formals = []
  | _, _, .nil, _, _ => ⟨rfl, rfl, rfl⟩
  | _, _, @HaveTypes.cons _ _ _ formal _ first rest, written, agrees => by
    obtain ⟨here, there⟩ := agrees_append.mp agrees
    obtain ⟨type, clean, problems⟩ := HasType.checked first here
    obtain ⟨arity, clean', problems'⟩ := HaveTypes.checked rest
      (fun τ mem => written τ (List.mem_cons_of_mem _ mem)) there
    have fits : Ty.argumentProblem formal formal = none :=
      (argumentProblem_eq_none (written formal (by simp)) (first.isError regular)).mpr rfl
    refine ⟨by simp [arity], diagnostics_append_eq_nil.mpr ⟨clean, clean'⟩, ?_⟩
    rw [Exp.argumentProblems, problems, type, fits, problems']
    rfl

end

mutual

theorem hasType_of_clean : (e : Exp) → (exp env e).diagnostics = [] → e.problems b = [] →
    Agrees b (exp env e) → HasType env e (e.type b)
  | .int _ _ _, _, _, _ => .int
  | .string _ _, _, _, _ => .string
  | .bool _ _, _, _, _ => .bool
  | .ident id, clean, _, agrees => by
    obtain ⟨s, denotes⟩ := denotes_of_clean (.ident id) rfl clean
    rw [denotes.type agrees]
    exact .place denotes
  | .dot base field, clean, _, agrees => by
    obtain ⟨s, denotes⟩ := denotes_of_clean (.dot base field) rfl clean
    rw [denotes.type agrees]
    exact .place denotes
  | .assign target value, clean, problems, agrees => by
    obtain ⟨first, second⟩ := agrees_append.mp agrees
    obtain ⟨clean, clean'⟩ := diagnostics_append_eq_nil.mp clean
    rw [Exp.problems, List.append_eq_nil_iff, List.append_eq_nil_iff] at problems
    have left := hasType_of_clean target clean problems.1.1 first
    have right := hasType_of_clean value clean' problems.1.2 second
    obtain ⟨basic, same⟩ := (assignProblem_eq_none (left.isError regular)
      (right.isError regular)).mp (Problem.about_eq_nil.mp problems.2)
    rw [same] at right
    rw [Exp.type, same, ofAssign_self basic]
    exact .assign basic left right
  | .call callee args, clean, problems, agrees => by
    obtain ⟨first, second⟩ := agrees_append.mp agrees
    obtain ⟨clean, clean'⟩ := diagnostics_append_eq_nil.mp clean
    obtain ⟨s, visible⟩ := use_clean_iff.mp clean
    have type := typeOf_of_use first visible
    rw [Exp.problems, type] at problems
    rw [Exp.type, type]
    cases s with
    | function name result params =>
      by_cases arity : params.length = args.length
      · have signature : (Symbol.function name result params).type.signature args.length
            = some (params, result) := by
          rw [Symbol.type, Ty.signature, if_pos arity]
        rw [signature] at problems
        rw [Ty.ofCall, signature]
        cases regular.find visible with
        | function _ written =>
          exact .call visible
            (haveTypes_of_clean args params arity.symm written clean' problems second)
      · simp [Symbol.type, Ty.signature, arity, Ty.calleeProblem, Problem.about] at problems
    | plain name τ =>
      cases regular.find visible with
      | plain basic => rcases basic with rfl | rfl <;> cases problems
    | structDef d => cases problems
    | structVar name typeName d => cases problems
  | .unary op operand, clean, problems, agrees => by
    rw [Exp.problems, List.append_eq_nil_iff] at problems
    have inner := hasType_of_clean operand clean problems.1 agrees
    rcases (unaryProblem_eq_none (inner.isError regular)).mp (Problem.about_eq_nil.mp problems.2)
      with ⟨rfl, int⟩ | ⟨rfl, bool⟩
    · rw [int] at inner
      rw [Exp.type, int]
      exact .negate inner
    · rw [bool] at inner
      rw [Exp.type, bool]
      exact .not inner
  | .binary op left right, clean, problems, agrees => by
    obtain ⟨here, there⟩ := agrees_append.mp agrees
    obtain ⟨clean, clean'⟩ := diagnostics_append_eq_nil.mp clean
    rw [problems_binary, List.append_eq_nil_iff, List.append_eq_nil_iff] at problems
    have first := hasType_of_clean left clean problems.1.1 here
    have second := hasType_of_clean right clean' problems.1.2 there
    obtain ⟨same, result, rule⟩ := (complaints_eq_nil (first.isError regular)
      (second.isError regular)).mp problems.2
    rw [← same] at second
    rw [Exp.type, ← same, rule.resultType]
    exact .binary rule first second

theorem haveTypes_of_clean : (args : List Exp) → (formals : List Ty) →
    args.length = formals.length → (∀ τ ∈ formals, τ.Written) → (exps env args).diagnostics = [] →
    Exp.argumentProblems b args formals = [] → Agrees b (exps env args) →
    HaveTypes env args formals
  | [], [], _, _, _, _, _ => .nil
  | arg :: args, formal :: formals, arity, written, clean, problems, agrees => by
    obtain ⟨here, there⟩ := agrees_append.mp agrees
    obtain ⟨clean, clean'⟩ := diagnostics_append_eq_nil.mp clean
    rw [Exp.argumentProblems, List.append_eq_nil_iff, List.append_eq_nil_iff] at problems
    have first := hasType_of_clean arg clean problems.1.1 here
    have fits := (argumentProblem_eq_none (written formal (by simp)) (first.isError regular)).mp
      (Problem.about_eq_nil.mp problems.1.2)
    rw [fits] at first
    have rest := haveTypes_of_clean args formals (by simpa using arity)
      (fun τ mem => written τ (List.mem_cons_of_mem _ mem)) clean' problems.2 there
    exact .cons first rest

end

/-- An expression has a type by the rules if and only if neither pass reports anything about it and
the type is the one that is computed. -/
theorem hasType_iff {e : Exp} {τ : Ty} (agrees : Agrees b (exp env e)) :
    HasType env e τ ↔ ((exp env e).diagnostics = [] ∧ e.problems b = []) ∧ e.type b = τ := by
  constructor
  · intro typed
    obtain ⟨type, clean, problems⟩ := typed.checked regular agrees
    exact ⟨⟨clean, problems⟩, type⟩
  · rintro ⟨⟨clean, problems⟩, rfl⟩
    exact hasType_of_clean regular e clean problems agrees

end

end Rules

end Cinder
