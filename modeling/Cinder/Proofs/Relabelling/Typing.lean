import Cinder.Proofs.Relabelling.Scoping

/-!
# Typing of relabelled programs

The checker looks at the types of identifiers only. If a relabelled program is checked with bindings
that give each relabelled identifier the renamed type, the same types are found under their new names
and the same problems are reported where things stand now.
-/
namespace Cinder

/-! ## Rules of typing -/

namespace Ty

variable {f : Text → Text}

theorem ofAssign_rename (target value : Ty) :
    ofAssign (target.rename f) (value.rename f) = (ofAssign target value).rename f := by
  cases target <;> cases value <;> rfl

theorem assignProblem_rename (target value : Ty) :
    assignProblem (target.rename f) (value.rename f) = assignProblem target value := by
  cases target <;> cases value <;> rfl

theorem signature_rename (callee : Ty) (arity : Nat) :
    (callee.rename f).signature arity
      = (callee.signature arity).map (Prod.map (renameAll f) (rename f)) := by
  cases callee with
  | function params result =>
    simp only [rename, signature, renameAll_eq_map, List.length_map]
    by_cases count : params.length = arity
    · simp [count, renameAll_eq_map]
    · simp [count]
  | _ => rfl

theorem ofCall_rename (callee : Ty) (arity : Nat) :
    ofCall (callee.rename f) arity = (ofCall callee arity).rename f := by
  rw [ofCall, ofCall, signature_rename]
  cases callee.signature arity <;> rfl

theorem calleeProblem_rename (callee : Ty) (arity : Nat) :
    calleeProblem (callee.rename f) arity = calleeProblem callee arity := by
  cases callee with
  | function params result => simp [rename, calleeProblem, renameAll_eq_map]
  | _ => rfl

theorem argumentProblem_rename (injective : Function.Injective f) (formal actual : Ty) :
    argumentProblem (formal.rename f) (actual.rename f) = argumentProblem formal actual := by
  simp only [argumentProblem, isError_rename, same_rename injective]

theorem ofUnary_rename (op : UnaryOp) (operand : Ty) :
    ofUnary op (operand.rename f) = (ofUnary op operand).rename f := by
  cases op <;> cases operand <;> rfl

theorem unaryProblem_rename (op : UnaryOp) (operand : Ty) :
    unaryProblem op (operand.rename f) = unaryProblem op operand := by
  cases op <;> cases operand <;> rfl

theorem ofEquality_rename (left right : Ty) :
    ofEquality (left.rename f) (right.rename f) = (ofEquality left right).rename f := by
  cases left <;> cases right <;> rfl

theorem equalityProblem_rename (left right : Ty) :
    equalityProblem (left.rename f) (right.rename f) = equalityProblem left right := by
  cases left <;> cases right <;> rfl

theorem operandProblem_rename (injective : Function.Injective f) (expected : Ty) (problem : Problem)
    (operand : Ty) :
    operandProblem (expected.rename f) problem (operand.rename f)
      = operandProblem expected problem operand := by
  simp only [operandProblem, isError_rename, same_rename injective]

theorem readProblem_rename (target : Ty) : readProblem (target.rename f) = readProblem target := by
  cases target <;> rfl

theorem writeProblem_rename (value : Ty) : writeProblem (value.rename f) = writeProblem value := by
  cases value <;> rfl

end Ty

namespace BinaryOp

variable {f : Text → Text}

/-- Operators expect and give types without names. -/
theorem rule_rename (op : BinaryOp) :
    op.rule.1.rename f = op.rule.1 ∧ op.rule.2.1.rename f = op.rule.2.1 := by
  cases op <;> exact ⟨rfl, rfl⟩

theorem resultType_rename (injective : Function.Injective f) (op : BinaryOp) (left right : Ty) :
    op.resultType (left.rename f) (right.rename f) = (op.resultType left right).rename f := by
  obtain ⟨expected, result⟩ := @rule_rename f op
  simp only [resultType]
  split
  · exact Ty.ofEquality_rename left right
  · rw [← expected, Ty.same_rename injective, Ty.same_rename injective, expected]
    split
    · exact result.symm
    · rfl

end BinaryOp

/-! ## Expressions -/

/-- Bindings that give the relabelled identifiers the renamed types. -/
def Bindings.Follows (ρ : Relabelling) (b c : Bindings) (ids : List Ident) : Prop :=
  ∀ id ∈ ids, c.typeOf (id.relabel ρ) = (b.typeOf id).rename ρ.name

variable {ρ : Relabelling} {b c : Bindings}

namespace Bindings.Follows

variable {ids more : List Ident}

theorem left (h : Follows ρ b c (ids ++ more)) : Follows ρ b c ids := by
  intro id mem
  exact h id (List.mem_append_left _ mem)

theorem right (h : Follows ρ b c (ids ++ more)) : Follows ρ b c more := by
  intro id mem
  exact h id (List.mem_append_right _ mem)

theorem head {id : Ident} (h : Follows ρ b c (id :: more)) :
    c.typeOf (id.relabel ρ) = (b.typeOf id).rename ρ.name :=
  h id List.mem_cons_self

theorem tail {id : Ident} (h : Follows ρ b c (id :: more)) : Follows ρ b c more := by
  intro other mem
  exact h other (List.mem_cons_of_mem _ mem)

end Bindings.Follows

theorem Problem.about_relabel (problem? : Option Problem) (e : Exp) :
    Problem.about problem? (e.relabel ρ) = (Problem.about problem? e).map (Diagnostic.relabel ρ) := by
  cases problem? with
  | none => rfl
  | some problem => simp [Problem.about, Exp.position_relabel, Diagnostic.relabel, Diagnostic.error]

namespace Exp

theorem length_relabelAll (es : List Exp) : (relabelAll ρ es).length = es.length := by
  induction es with
  | nil => rfl
  | cons e es ih => rw [relabelAll, List.length_cons, ih, List.length_cons]

theorem type_relabel : (e : Exp) → b.Follows ρ c e.idents →
    (e.relabel ρ).type c = (e.type b).rename ρ.name
  | .int _ _ _, _ | .string _ _, _ | .bool _ _, _ => rfl
  | .ident id, follows => follows.head
  | .dot base field, follows => follows.right.head
  | .assign target value, follows => by
    simp only [relabel, type, type_relabel target follows.left, type_relabel value follows.right,
      Ty.ofAssign_rename]
  | .call callee args, follows => by
    simp only [relabel, type, follows.head, length_relabelAll, Ty.ofCall_rename]
  | .unary op operand, follows => by
    simp only [relabel, type, type_relabel operand follows, Ty.ofUnary_rename]
  | .binary op left right, follows => by
    simp only [relabel, type, type_relabel left follows.left, type_relabel right follows.right,
      BinaryOp.resultType_rename ρ.name_injective]

mutual

theorem problems_relabel : (e : Exp) → b.Follows ρ c e.idents →
    (e.relabel ρ).problems c = (e.problems b).map (Diagnostic.relabel ρ)
  | .int _ _ _, _ | .string _ _, _ | .bool _ _, _ | .ident _, _ => rfl
  | .dot base field, follows => problems_relabel base follows.left
  | .assign target value, follows => by
    simp only [relabel, problems, problems_relabel target follows.left,
      problems_relabel value follows.right, type_relabel target follows.left,
      type_relabel value follows.right, Ty.assignProblem_rename, Problem.about_relabel,
      List.map_append]
  | .call callee args, follows => by
    simp only [relabel, problems, follows.head, length_relabelAll, Ty.signature_rename,
      Ty.calleeProblem_rename]
    cases (b.typeOf callee).signature args.length with
    | none => exact Problem.about_relabel _ (.ident callee)
    | some signature => exact argumentProblems_relabel args signature.1 follows.tail
  | .unary op operand, follows => by
    simp only [relabel, problems, problems_relabel operand follows, type_relabel operand follows,
      Ty.unaryProblem_rename, Problem.about_relabel, List.map_append]
  | .binary op left right, follows => by
    obtain ⟨expected, -⟩ := @BinaryOp.rule_rename ρ.name op
    have operand := fun type => @Ty.operandProblem_rename _ ρ.name_injective op.rule.1 op.rule.2.2 type
    rw [expected] at operand
    simp only [relabel, problems, problems_relabel left follows.left,
      problems_relabel right follows.right, type_relabel left follows.left,
      type_relabel right follows.right, Ty.equalityProblem_rename, operand, Problem.about_relabel]
    split <;> simp only [List.map_append]

theorem argumentProblems_relabel : (args : List Exp) → (formals : List Ty) →
    b.Follows ρ c (identsAll args) →
    argumentProblems c (relabelAll ρ args) (Ty.renameAll ρ.name formals)
      = (argumentProblems b args formals).map (Diagnostic.relabel ρ)
  | [], _, _ => rfl
  | arg :: args, [], follows => by
    have rest := argumentProblems_relabel args [] follows.right
    simp only [Ty.renameAll] at rest
    simp only [relabelAll, Ty.renameAll, argumentProblems, problems_relabel arg follows.left, rest,
      List.map_append]
  | arg :: args, formal :: formals, follows => by
    simp only [relabelAll, Ty.renameAll, argumentProblems, problems_relabel arg follows.left,
      type_relabel arg follows.left, argumentProblems_relabel args formals follows.right,
      Ty.argumentProblem_rename ρ.name_injective, Problem.about_relabel, List.map_append]

end

/-- An expression with the type that was found for it. -/
def relabelEntry (ρ : Relabelling) : Exp × Ty → Exp × Ty := Prod.map (relabel ρ) (Ty.rename ρ.name)

theorem entry_relabel (e : Exp) (follows : b.Follows ρ c e.idents) :
    (e.relabel ρ, (e.relabel ρ).type c) = relabelEntry ρ (e, e.type b) := by
  rw [relabelEntry, Prod.map_apply, type_relabel e follows]

mutual

theorem record_relabel : (e : Exp) → b.Follows ρ c e.idents →
    (e.relabel ρ).record c = (e.record b).map (relabelEntry ρ)
  | .int _ _ _, _ | .string _ _, _ | .bool _ _, _ => rfl
  | .ident id, follows => congrArg (fun entry => [entry]) (entry_relabel (.ident id) follows)
  | .dot base field, follows => by
    have selected := entry_relabel (.ident field) follows.right
    have whole := entry_relabel (.dot base field) follows
    simp only [relabel, type] at selected whole
    simp only [relabel, record, type, record_relabel base follows.left, selected, whole,
      List.map_append, List.map_cons, List.map_nil]
  | .assign target value, follows => by
    have whole := entry_relabel (.assign target value) follows
    simp only [relabel] at whole
    simp only [relabel, record, record_relabel target follows.left,
      record_relabel value follows.right, whole, List.map_append, List.map_cons, List.map_nil]
  | .call callee args, follows => by
    have called := @entry_relabel ρ b c (.ident callee) (fun id mem => follows id (by simp_all [idents]))
    have whole := entry_relabel (.call callee args) follows
    simp only [relabel, type] at called
    simp only [relabel] at whole
    have arguments := recordAll_relabel args follows.tail
    simp only [relabel, record, called, whole, arguments, List.map_cons]
    simp only [follows.head, length_relabelAll, Ty.signature_rename]
    cases (b.typeOf callee).signature args.length <;> simp
  | .unary op operand, follows => by
    have whole := entry_relabel (.unary op operand) follows
    simp only [relabel] at whole
    simp only [relabel, record, record_relabel operand follows, whole, List.map_append,
      List.map_cons, List.map_nil]
  | .binary op left right, follows => by
    have whole := entry_relabel (.binary op left right) follows
    simp only [relabel] at whole
    simp only [relabel, record, record_relabel left follows.left,
      record_relabel right follows.right, whole, List.map_append, List.map_cons, List.map_nil]

theorem recordAll_relabel : (es : List Exp) → b.Follows ρ c (identsAll es) →
    recordAll c (relabelAll ρ es) = (recordAll b es).map (relabelEntry ρ)
  | [], _ => rfl
  | e :: es, follows => by
    simp only [relabelAll, recordAll, record_relabel e follows.left,
      recordAll_relabel es follows.right, List.map_append]

end

end Exp

/-! ## Statements -/

/-- An expression that something is asked of. -/
theorem Exp.operand_relabel (e : Exp) (follows : b.Follows ρ c e.idents) (expected : Ty)
    (problem : Problem) :
    (e.relabel ρ).problems c ++ Problem.about
        (Ty.operandProblem (expected.rename ρ.name) problem ((e.relabel ρ).type c)) (e.relabel ρ)
      = (e.problems b ++
        Problem.about (Ty.operandProblem expected problem (e.type b)) e).map (Diagnostic.relabel ρ) := by
  rw [Exp.problems_relabel e follows, Exp.type_relabel e follows,
    Ty.operandProblem_rename ρ.name_injective, Problem.about_relabel, List.map_append]

mutual

theorem Stmt.problems_relabel {result : Ty} : (s : Stmt) → b.Follows ρ c s.idents →
    (s.relabel ρ).problems c (result.rename ρ.name)
      = (s.problems b result).map (Diagnostic.relabel ρ)
  | .assign target value, follows => Exp.problems_relabel (.assign target value) follows
  | .increment target, follows => target.operand_relabel follows .int _
  | .decrement target, follows => target.operand_relabel follows .int _
  | .read target, follows => by
    simp only [Stmt.relabel, Stmt.problems, Exp.problems_relabel target follows,
      Exp.type_relabel target follows, Ty.readProblem_rename, Problem.about_relabel, List.map_append]
  | .write value, follows => by
    simp only [Stmt.relabel, Stmt.problems, Exp.problems_relabel value follows,
      Exp.type_relabel value follows, Ty.writeProblem_rename, Problem.about_relabel, List.map_append]
  | .ifThen condition body, follows => by
    have asked := condition.operand_relabel follows.left .bool .ifCondition
    simp only [Ty.rename] at asked
    simp only [Stmt.relabel, Stmt.problems, asked, Block.problems_relabel body follows.right,
      List.map_append]
  | .ifElse condition yes no, follows => by
    have asked := condition.operand_relabel follows.left.left .bool .ifCondition
    simp only [Ty.rename] at asked
    simp only [Stmt.relabel, Stmt.problems, asked, Block.problems_relabel yes follows.left.right,
      Block.problems_relabel no follows.right, List.map_append]
  | .whileLoop condition body, follows => by
    have asked := condition.operand_relabel follows.left .bool .whileCondition
    simp only [Ty.rename] at asked
    simp only [Stmt.relabel, Stmt.problems, asked, Block.problems_relabel body follows.right,
      List.map_append]
  | .repeatLoop count body, follows => by
    have asked := count.operand_relabel follows.left .int .repeatCount
    simp only [Ty.rename] at asked
    simp only [Stmt.relabel, Stmt.problems, asked, Block.problems_relabel body follows.right,
      List.map_append]
  | .call callee args, follows => Exp.problems_relabel (.call callee args) follows
  | .giveBack none _, _ => by cases result <;> rfl
  | .giveBack (some value) _, follows => by
    have asked := value.operand_relabel follows result .returnType
    cases result with
    | void => simp [Stmt.relabel, Stmt.problems, Ty.rename, Exp.position_relabel, Diagnostic.relabel,
        Diagnostic.error]
    | _ => exact asked

theorem Block.problems_relabel {result : Ty} : (k : Block) → b.Follows ρ c k.idents →
    (k.relabel ρ).problems c (result.rename ρ.name)
      = (k.problems b result).map (Diagnostic.relabel ρ)
  | .mk _ stmts, follows => Stmt.problemsAll_relabel stmts follows.right

theorem Stmt.problemsAll_relabel {result : Ty} : (ss : List Stmt) →
    b.Follows ρ c (Stmt.identsAll ss) →
    Stmt.problemsAll c (result.rename ρ.name) (Stmt.relabelAll ρ ss)
      = (Stmt.problemsAll b result ss).map (Diagnostic.relabel ρ)
  | [], _ => rfl
  | s :: ss, follows => by
    simp only [Stmt.relabelAll, Stmt.problemsAll, Stmt.problems_relabel s follows.left,
      Stmt.problemsAll_relabel ss follows.right, List.map_append]

end

mutual

theorem Stmt.record_relabel {result : Ty} : (s : Stmt) → b.Follows ρ c s.idents →
    (s.relabel ρ).record c (result.rename ρ.name)
      = (s.record b result).map (Exp.relabelEntry ρ)
  | .assign target value, follows => Exp.record_relabel (.assign target value) follows
  | .increment target, follows | .decrement target, follows | .read target, follows
  | .write target, follows => Exp.record_relabel target follows
  | .ifThen condition body, follows | .whileLoop condition body, follows
  | .repeatLoop condition body, follows => by
    simp only [Stmt.relabel, Stmt.record, Exp.record_relabel condition follows.left,
      Block.record_relabel body follows.right, List.map_append]
  | .ifElse condition yes no, follows => by
    simp only [Stmt.relabel, Stmt.record, Exp.record_relabel condition follows.left.left,
      Block.record_relabel yes follows.left.right, Block.record_relabel no follows.right,
      List.map_append]
  | .call callee args, follows => Exp.record_relabel (.call callee args) follows
  | .giveBack none _, _ => rfl
  | .giveBack (some value) _, follows => by
    have found := Exp.record_relabel value follows
    cases result with
    | void => rfl
    | _ => exact found

theorem Block.record_relabel {result : Ty} : (k : Block) → b.Follows ρ c k.idents →
    (k.relabel ρ).record c (result.rename ρ.name) = (k.record b result).map (Exp.relabelEntry ρ)
  | .mk _ stmts, follows => Stmt.recordAll_relabel stmts follows.right

theorem Stmt.recordAll_relabel {result : Ty} : (ss : List Stmt) →
    b.Follows ρ c (Stmt.identsAll ss) →
    Stmt.recordAll c (result.rename ρ.name) (Stmt.relabelAll ρ ss)
      = (Stmt.recordAll b result ss).map (Exp.relabelEntry ρ)
  | [], _ => rfl
  | s :: ss, follows => by
    simp only [Stmt.relabelAll, Stmt.recordAll, Stmt.record_relabel s follows.left,
      Stmt.recordAll_relabel ss follows.right, List.map_append]

end

/-! ## Programs -/

def Typing.relabel (ρ : Relabelling) (t : Typing) : Typing :=
  ⟨t.record.map (Exp.relabelEntry ρ), t.diagnostics.map (Diagnostic.relabel ρ)⟩

theorem Decl.problems_relabel (d : Decl) (follows : b.Follows ρ c d.idents) :
    (d.relabel ρ).problems c = (d.problems b).map (Diagnostic.relabel ρ) := by
  cases d with
  | fn d =>
    have body := @Block.problems_relabel ρ b c d.resultType.type d.body follows.right
    rwa [← TypeExp.type_relabel] at body
  | _ => rfl

theorem Decl.record_relabel (d : Decl) (follows : b.Follows ρ c d.idents) :
    (d.relabel ρ).record c = (d.record b).map (Exp.relabelEntry ρ) := by
  cases d with
  | fn d =>
    have body := @Block.record_relabel ρ b c d.resultType.type d.body follows.right
    rwa [← TypeExp.type_relabel] at body
  | _ => rfl

/-- Checking commutes with relabelling. -/
theorem Program.check_relabel (p : Program) (follows : b.Follows ρ c p.idents) :
    (p.relabel ρ).check c = (p.check b).relabel ρ := by
  have inside : ∀ d ∈ p.decls, b.Follows ρ c d.idents := by
    intro d mem id own
    exact follows id (List.mem_flatMap.mpr ⟨d, mem, own⟩)
  rw [Program.check, Program.check, Typing.relabel, Typing.mk.injEq]
  constructor
  · rw [Program.relabel, List.flatMap_map, List.map_flatMap]
    exact List.flatMap_congr fun d mem => d.record_relabel (inside d mem)
  · rw [Program.relabel, List.flatMap_map, List.map_flatMap]
    exact List.flatMap_congr fun d mem => d.problems_relabel (inside d mem)

end Cinder
