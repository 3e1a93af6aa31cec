import Cinder.Proofs.Table
import Cinder.Typing
import Mathlib.Data.List.Forall2

/-!
# Unresolved names hide reports

An identifier without a binding has the type `error`. Taking bindings away can turn types into `error`
and can silence reports, but it never brings a report about and never gives an expression another type.
Every rule of the checker is strict: with an operand of type `error` it says nothing and its result is
`error`. The rest is that the checker looks at types only through its rules.
-/
namespace Cinder

/-! ## Strict rules -/

/-- The first is the second, or it has been muted. -/
def Muted {α : Type} (silent a b : α) : Prop := a = b ∨ a = silent

namespace Muted

variable {α β γ : Type}

theorem refl (silent a : α) : Muted silent a a := .inl rfl

theorem map {f : α → β} {silent : α} {quiet : β} (strict : f silent = quiet) {a b : α}
    (h : Muted silent a b) : Muted quiet (f a) (f b) := by
  rcases h with rfl | rfl
  · exact .inl rfl
  · exact .inr strict

theorem map₂ {f : α → β → γ} {silent : α} {still : β} {quiet : γ}
    (strict : ∀ b, f silent b = quiet) (strict' : ∀ a, f a still = quiet) {a a' : α} {b b' : β}
    (left : Muted silent a a') (right : Muted still b b') : Muted quiet (f a b) (f a' b') := by
  rcases left with rfl | rfl
  · exact right.map (strict' a)
  · exact .inr (strict b)

end Muted

namespace Ty

theorem ofAssign_error (t : Ty) : ofAssign t error = error := by
  cases t <;> rfl

theorem assignProblem_error (t : Ty) : assignProblem t error = none := by
  simp [assignProblem, isError]

theorem ofUnary_error (op : UnaryOp) : ofUnary op error = error := by
  cases op <;> rfl

theorem ofEquality_error (t : Ty) : ofEquality t error = error := by
  cases t <;> rfl

theorem equalityProblem_error (t : Ty) : equalityProblem t error = none := by
  cases t <;> rfl

end Ty

theorem BinaryOp.resultType_error_left (op : BinaryOp) (t : Ty) :
    op.resultType .error t = .error := by
  rw [resultType]
  split
  · rfl
  · rfl

theorem BinaryOp.resultType_error_right (op : BinaryOp) (t : Ty) :
    op.resultType t .error = .error := by
  rw [resultType]
  split
  · exact Ty.ofEquality_error t
  · have strict : (Ty.error).same op.rule.1 = false := rfl
    simp [strict]

/-! ## Expressions -/

/-- Bindings from which some identifiers have been taken away. -/
def Bindings.Within (b c : Bindings) : Prop :=
  ∀ id, Muted none (b.symbolOf id) (c.symbolOf id)

namespace Bindings

variable {b c : Bindings}

theorem within_erase (b : Bindings) (n : Nat) : Within { b with idents := b.idents.erase n } b := by
  intro id
  have found := b.idents.find?_erase n id.node
  by_cases gone : id.node = n
  · rw [if_pos gone] at found
    exact .inr found
  · rw [if_neg gone] at found
    exact .inl found

theorem Within.typeOf (within : b.Within c) (id : Ident) :
    Muted .error (b.typeOf id) (c.typeOf id) := by
  rw [Bindings.typeOf, Bindings.typeOf]
  rcases within id with same | gone
  · rw [same]
    exact .refl _ _
  · rw [gone]
    exact .inr rfl

end Bindings

theorem Problem.about_sublist {p q : Option Problem} (h : Muted none p q) (e : Exp) :
    (about p e).Sublist (about q e) := by
  rcases h with rfl | rfl
  · exact List.Sublist.refl _
  · exact List.nil_sublist _

namespace Exp

variable {b c : Bindings}

theorem type_muted (within : b.Within c) (e : Exp) : Muted .error (e.type b) (e.type c) := by
  cases e with
  | int | string | bool => exact .refl _ _
  | ident id => exact within.typeOf id
  | dot _ field => exact within.typeOf field
  | assign target value =>
    exact .map₂ (fun _ => rfl) Ty.ofAssign_error (type_muted within target)
      (type_muted within value)
  | call callee args =>
    exact (within.typeOf callee).map (f := fun t => Ty.ofCall t args.length) rfl
  | unary op operand => exact (type_muted within operand).map (Ty.ofUnary_error op)
  | binary op left right =>
    exact .map₂ op.resultType_error_left op.resultType_error_right (type_muted within left)
      (type_muted within right)

/-- A report about one operand. -/
theorem about_muted {rule : Ty → Option Problem} (strict : rule .error = none)
    (within : b.Within c) (e : Exp) :
    (Problem.about (rule (e.type b)) e).Sublist (Problem.about (rule (e.type c)) e) :=
  Problem.about_sublist ((type_muted within e).map strict) e

theorem problems_unary_muted {op : UnaryOp} {operand : Exp} (within : b.Within c)
    (inner : (operand.problems b).Sublist (operand.problems c)) :
    ((unary op operand).problems b).Sublist ((unary op operand).problems c) :=
  inner.append (about_muted rfl within operand)

theorem problems_binary_muted {op : BinaryOp} {left right : Exp} (within : b.Within c)
    (first : (left.problems b).Sublist (left.problems c))
    (second : (right.problems b).Sublist (right.problems c)) :
    ((binary op left right).problems b).Sublist ((binary op left right).problems c) := by
  have inner := first.append second
  rw [problems, problems]
  by_cases equality : op.isEquality
  · rw [if_pos equality, if_pos equality]
    have compared := Muted.map₂ (fun _ => rfl) Ty.equalityProblem_error (type_muted within left)
      (type_muted within right)
    exact inner.append (Problem.about_sublist compared left)
  · rw [if_neg equality, if_neg equality]
    exact (inner.append (about_muted rfl within left)).append (about_muted rfl within right)

mutual

theorem problems_muted (within : b.Within c) : (e : Exp) → (e.problems b).Sublist (e.problems c)
  | int _ _ _ => List.nil_sublist _
  | string _ _ => List.nil_sublist _
  | bool _ _ => List.nil_sublist _
  | ident _ => List.nil_sublist _
  | dot base _ => problems_muted within base
  | assign target value => by
    have stored := Muted.map₂ (fun _ => rfl) Ty.assignProblem_error (type_muted within target)
      (type_muted within value)
    exact ((problems_muted within target).append (problems_muted within value)).append
      (Problem.about_sublist stored target)
  | call callee args => by
    rw [problems, problems]
    -- the arguments are looked at only if the callee is known, and then the formals are the same
    rcases within.typeOf callee with same | unknown
    · rw [same]
      cases (c.typeOf callee).signature args.length with
      | none => exact List.Sublist.refl _
      | some formals => exact argumentProblems_muted within args formals.1
    · rw [unknown]
      exact List.nil_sublist _
  | unary _ operand => problems_unary_muted within (problems_muted within operand)
  | binary _ left right =>
    problems_binary_muted within (problems_muted within left) (problems_muted within right)

theorem argumentProblems_muted (within : b.Within c) : (args : List Exp) → (formals : List Ty) →
    (argumentProblems b args formals).Sublist (argumentProblems c args formals)
  | [], _ => List.nil_sublist _
  | arg :: args, [] =>
    (problems_muted within arg).append (argumentProblems_muted within args [])
  | arg :: args, _ :: formals =>
    ((problems_muted within arg).append (about_muted rfl within arg)).append
      (argumentProblems_muted within args formals)

end

end Exp

/-! ## Records -/

/-- A record of types from which entries may be missing, and in which types may be muted. -/
abbrev Fainter : List (Exp × Ty) → List (Exp × Ty) → Prop :=
  List.SublistForall₂ fun entry other => entry.1 = other.1 ∧ Muted .error entry.2 other.2

namespace Fainter

variable {r s r' s' : List (Exp × Ty)}

theorem append (first : Fainter r r') (second : Fainter s s') : Fainter (r ++ s) (r' ++ s') := by
  induction first with
  | @nil l =>
    induction l with
    | nil => exact second
    | cons entry l ih => exact ih.cons_right
  | cons related _ ih => exact .cons related ih
  | cons_right _ ih => exact ih.cons_right

theorem one {e : Exp} {t t' : Ty} (h : Muted .error t t') : Fainter [(e, t)] [(e, t')] :=
  .cons ⟨rfl, h⟩ .nil

end Fainter

namespace Exp

variable {b c : Bindings}

theorem record_one (within : b.Within c) (e : Exp) : Fainter [(e, e.type b)] [(e, e.type c)] :=
  .one (type_muted within e)

mutual

theorem record_muted (within : b.Within c) : (e : Exp) → Fainter (e.record b) (e.record c)
  | int _ _ _ => record_one within _
  | string _ _ => record_one within _
  | bool _ _ => record_one within _
  | ident _ => record_one within _
  | dot base field =>
    (record_muted within base).append
      (.cons ⟨rfl, within.typeOf field⟩ (record_one within (dot base field)))
  | assign target value =>
    ((record_muted within target).append (record_muted within value)).append
      (record_one within (assign target value))
  | call callee args => by
    have whole := record_one within (call callee args)
    rw [record, record]
    refine .cons ⟨rfl, within.typeOf callee⟩ ?_
    rcases within.typeOf callee with same | unknown
    · rw [same]
      cases (c.typeOf callee).signature args.length with
      | none => exact whole
      | some formals => exact (recordAll_muted within args).append whole
    · rw [unknown]
      cases (c.typeOf callee).signature args.length with
      | none => exact whole
      | some formals => exact Fainter.append .nil whole
  | unary op operand =>
    (record_muted within operand).append (record_one within (unary op operand))
  | binary op left right =>
    ((record_muted within left).append (record_muted within right)).append
      (record_one within (binary op left right))

theorem recordAll_muted (within : b.Within c) : (es : List Exp) →
    Fainter (recordAll b es) (recordAll c es)
  | [] => .nil
  | e :: es => (record_muted within e).append (recordAll_muted within es)

end

end Exp

/-! ## Statements -/

mutual

theorem Stmt.problems_muted {b c : Bindings} (within : b.Within c) (result : Ty) : (s : Stmt) →
    (s.problems b result).Sublist (s.problems c result)
  | .assign target value => Exp.problems_muted within (.assign target value)
  | .increment target =>
    (Exp.problems_muted within target).append (Exp.about_muted rfl within target)
  | .decrement target =>
    (Exp.problems_muted within target).append (Exp.about_muted rfl within target)
  | .read target => (Exp.problems_muted within target).append (Exp.about_muted rfl within target)
  | .write value => (Exp.problems_muted within value).append (Exp.about_muted rfl within value)
  | .ifThen condition body =>
    ((Exp.problems_muted within condition).append (Exp.about_muted rfl within condition)).append
      (Block.problems_muted within result body)
  | .ifElse condition yes no =>
    (((Exp.problems_muted within condition).append (Exp.about_muted rfl within condition)).append
      (Block.problems_muted within result yes)).append (Block.problems_muted within result no)
  | .whileLoop condition body =>
    ((Exp.problems_muted within condition).append (Exp.about_muted rfl within condition)).append
      (Block.problems_muted within result body)
  | .repeatLoop count body =>
    ((Exp.problems_muted within count).append (Exp.about_muted rfl within count)).append
      (Block.problems_muted within result body)
  | .call callee args => Exp.problems_muted within (.call callee args)
  | .giveBack none _ => by cases result <;> exact List.Sublist.refl _
  | .giveBack (some value) _ => by
    cases result with
    | void => exact List.Sublist.refl _
    | _ => exact (Exp.problems_muted within value).append (Exp.about_muted rfl within value)

theorem Block.problems_muted {b c : Bindings} (within : b.Within c) (result : Ty) : (k : Block) →
    (k.problems b result).Sublist (k.problems c result)
  | .mk _ stmts => Stmt.problemsAll_muted within result stmts

theorem Stmt.problemsAll_muted {b c : Bindings} (within : b.Within c) (result : Ty) :
    (ss : List Stmt) → (Stmt.problemsAll b result ss).Sublist (Stmt.problemsAll c result ss)
  | [] => List.nil_sublist _
  | s :: ss =>
    (Stmt.problems_muted within result s).append (Stmt.problemsAll_muted within result ss)

end

mutual

theorem Stmt.record_muted {b c : Bindings} (within : b.Within c) (result : Ty) : (s : Stmt) →
    Fainter (s.record b result) (s.record c result)
  | .assign target value => Exp.record_muted within (.assign target value)
  | .increment target => Exp.record_muted within target
  | .decrement target => Exp.record_muted within target
  | .read target => Exp.record_muted within target
  | .write value => Exp.record_muted within value
  | .ifThen condition body =>
    (Exp.record_muted within condition).append (Block.record_muted within result body)
  | .ifElse condition yes no =>
    ((Exp.record_muted within condition).append (Block.record_muted within result yes)).append
      (Block.record_muted within result no)
  | .whileLoop condition body =>
    (Exp.record_muted within condition).append (Block.record_muted within result body)
  | .repeatLoop count body =>
    (Exp.record_muted within count).append (Block.record_muted within result body)
  | .call callee args => Exp.record_muted within (.call callee args)
  | .giveBack none _ => .nil
  | .giveBack (some value) _ => by
    cases result with
    | void => exact .nil
    | _ => exact Exp.record_muted within value

theorem Block.record_muted {b c : Bindings} (within : b.Within c) (result : Ty) : (k : Block) →
    Fainter (k.record b result) (k.record c result)
  | .mk _ stmts => Stmt.recordAll_muted within result stmts

theorem Stmt.recordAll_muted {b c : Bindings} (within : b.Within c) (result : Ty) :
    (ss : List Stmt) → Fainter (Stmt.recordAll b result ss) (Stmt.recordAll c result ss)
  | [] => .nil
  | s :: ss => (Stmt.record_muted within result s).append (Stmt.recordAll_muted within result ss)

end

/-! ## Programs -/

theorem Decl.problems_muted {b c : Bindings} (within : b.Within c) (d : Decl) :
    (d.problems b).Sublist (d.problems c) := by
  cases d with
  | fn d => exact Block.problems_muted within d.resultType.type d.body
  | _ => exact List.nil_sublist _

theorem Decl.record_muted {b c : Bindings} (within : b.Within c) (d : Decl) :
    Fainter (d.record b) (d.record c) := by
  cases d with
  | fn d => exact Block.record_muted within d.resultType.type d.body
  | _ => exact .nil

/-- Taking bindings away only takes reports away. What is typed without them is typed with them, and
by the same type unless it is `error`. -/
theorem Program.check_within (p : Program) (b c : Bindings) (within : b.Within c) :
    (p.check b).diagnostics.Sublist (p.check c).diagnostics ∧
      List.SublistForall₂ (fun entry other =>
        entry.1 = other.1 ∧ (entry.2 = other.2 ∨ entry.2 = .error))
        (p.check b).record (p.check c).record := by
  obtain ⟨ds⟩ := p
  rw [check, check]
  induction ds with
  | nil => exact ⟨List.nil_sublist _, .nil⟩
  | cons d ds ih =>
    obtain ⟨diagnostics, record⟩ := ih
    constructor
    · exact (Decl.problems_muted within d).append diagnostics
    · exact Fainter.append (Decl.record_muted within d) record

/-- Without the binding of a callee its bad argument is not reported. A report inside the argument of
another call stays. -/
theorem Program.check_within_erase :
    let x : Nat → Ident := fun n => ⟨n, "x", ⟨1, n⟩⟩
    let f : Nat → Ident := fun n => ⟨n, "f", ⟨2, n⟩⟩
    let p : Program := ⟨[.fn ⟨.void, f 0, [⟨.bool, x 1⟩], .mk []
      [.call (f 2) [.int 1 "1" ⟨3, 3⟩], .call (f 4) [.unary .negate (.bool true ⟨3, 5⟩)]]⟩]⟩
    let c : Bindings := ⟨⟨[(2, .function "f" .void [.bool]), (4, .function "f" .void [.bool])]⟩, .empty⟩
    let b : Bindings := { c with idents := c.idents.erase 2 }
    b.Within c ∧
      (p.check b).diagnostics = [.error ⟨3, 5⟩ .arithmeticOperand] ∧
      (p.check c).diagnostics =
        [.error ⟨3, 3⟩ .argumentType, .error ⟨3, 5⟩ .arithmeticOperand] ∧
      (p.check b).diagnostics.Sublist (p.check c).diagnostics ∧
      List.SublistForall₂ (fun entry other =>
        entry.1 = other.1 ∧ (entry.2 = other.2 ∨ entry.2 = .error))
        (p.check b).record (p.check c).record := by
  intro x f p c b
  have within : b.Within c := c.within_erase 2
  exact ⟨within, rfl, rfl, p.check_within b c within⟩

end Cinder
