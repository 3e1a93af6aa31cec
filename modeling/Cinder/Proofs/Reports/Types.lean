import Cinder.Proofs.Cursor
import Cinder.Proofs.Places
import Cinder.Proofs.Relabelling.Analysis
import Cinder.Proofs.Reports.Programs
import Cinder.Proofs.Tape.Source

/-!
# Reports about types

A rule that gives the type `error` to what has no part of type `error` reports a problem. So wherever an
expression has the type `error` there is a report inside it, about a name that is not bound or about a
type. With what is reported about names, no failure of the analysis is silent.
-/
namespace Cinder

/-! ## Rules that fail -/

namespace Ty

theorem isSome_assignProblem {target value : Ty} (sound : target.isError = false)
    (sound' : value.isError = false) (failed : (ofAssign target value).isError) :
    (assignProblem target value).isSome := by
  cases target <;> cases value <;> first | rfl | contradiction

theorem isSome_unaryProblem {op : UnaryOp} {operand : Ty} (sound : operand.isError = false)
    (failed : (ofUnary op operand).isError) : (unaryProblem op operand).isSome := by
  cases op <;> cases operand <;> first | rfl | contradiction

theorem isSome_equalityProblem {left right : Ty} (sound : left.isError = false)
    (sound' : right.isError = false) (failed : (ofEquality left right).isError) :
    (equalityProblem left right).isSome := by
  cases left <;> cases right <;> first | rfl | contradiction

theorem isSome_operandProblem {expected operand : Ty} (problem : Problem)
    (sound : operand.isError = false) (other : operand.same expected = false) :
    (operandProblem expected problem operand).isSome := by
  rw [operandProblem, sound, other]
  rfl

theorem isSome_calleeProblem {callee : Ty} {arity : Nat} (sound : callee.isError = false)
    (failed : callee.signature arity = none) : (calleeProblem callee arity).isSome := by
  cases callee with
  | function params result =>
    have differs : params.length ≠ arity := by
      intro same
      simp [signature, same] at failed
    simp [calleeProblem, differs]
  | error => cases sound
  | _ => rfl

theorem signature_eq_some {callee : Ty} {arity : Nat} {params : List Ty} {result : Ty}
    (found : callee.signature arity = some (params, result)) : callee = function params result := by
  cases callee with
  | function _ _ =>
    rw [signature] at found
    split at found
    · cases found
      rfl
    · cases found
  | _ => cases found

end Ty

theorem BinaryOp.isError_rule (op : BinaryOp) : op.rule.2.1.isError = false := by
  cases op <;> rfl

theorem Symbol.Typed.result {s : Symbol} {params : List Ty} {result : Ty} (typed : s.Typed)
    (called : s.type = .function params result) : result.isError = false := by
  cases typed with
  | function sound =>
    cases called
    exact sound
  | plain basic =>
    rcases basic with rfl | rfl <;> cases called
  | _ => cases called

/-! ## Expressions -/

namespace Exp

/-- There is a report at an identifier or a literal of an expression. -/
def Reported (e : Exp) (ds : List Diagnostic) : Prop :=
  ∃ d ∈ ds, d.position ∈ e.sites.map Site.position

theorem Reported.mono {e : Exp} {ds more : List Diagnostic} (h : e.Reported ds) (sub : ds ⊆ more) :
    e.Reported more := by
  obtain ⟨d, mem, inside⟩ := h
  exact ⟨d, sub mem, inside⟩

theorem Reported.within {e whole : Exp} {ds : List Diagnostic} (h : e.Reported ds)
    (sub : e.sites ⊆ whole.sites) : whole.Reported ds := by
  obtain ⟨d, mem, inside⟩ := h
  exact ⟨d, mem, List.map_subset _ sub inside⟩

theorem reported_about {problem? : Option Problem} (found : problem?.isSome) (e : Exp) :
    e.Reported (Problem.about problem? e) := by
  obtain ⟨problem, rfl⟩ := Option.isSome_iff_exists.mp found
  exact ⟨.error e.position problem, List.mem_cons_self, e.position_mem⟩

theorem mem_sites {id : Ident} {e : Exp} (mem : id ∈ e.idents) : .ident id ∈ e.sites := by
  rw [← e.idents_eq] at mem
  obtain ⟨site, inside, same⟩ := List.mem_filterMap.mp mem
  cases site with
  | ident other =>
    cases same
    exact inside
  | mark _ => cases same

theorem reported_of_ident {id : Ident} {e : Exp} {ds : List Diagnostic} (mem : id ∈ e.idents)
    (reported : id.Reported ds) : e.Reported ds := by
  obtain ⟨d, inside, here⟩ := reported
  exact ⟨d, inside, List.mem_map.mpr ⟨.ident id, mem_sites mem, here.symm⟩⟩

variable {b : Bindings} {ds : List Diagnostic}

theorem isError_result (typed : ∀ id s, b.symbolOf id = some s → s.Typed) {callee : Ident}
    {params : List Ty} {result : Ty} (called : b.typeOf callee = .function params result) :
    result.isError = false := by
  rw [Bindings.typeOf] at called
  cases found : b.symbolOf callee with
  | none =>
    rw [found] at called
    cases called
  | some s =>
    rw [found] at called
    exact (typed callee s found).result called

theorem problems_operands (op : BinaryOp) (left right : Exp) :
    left.problems b ++ right.problems b ⊆ (binary op left right).problems b := by
  rw [problems]
  dsimp only
  split
  · exact List.subset_append_left _ _
  · rw [List.append_assoc]
    exact List.subset_append_left _ _

/-- An operator that does not take the types of its operands is reported. -/
theorem reported_binary {op : BinaryOp} {left right : Exp} (sound : (left.type b).isError = false)
    (sound' : (right.type b).isError = false) (failed : ((binary op left right).type b).isError) :
    (binary op left right).Reported ((binary op left right).problems b) := by
  rw [type, BinaryOp.resultType] at failed
  rw [problems]
  dsimp only
  split at failed
  · have found := Ty.isSome_equalityProblem sound sound' failed
    rw [if_pos ‹_›]
    exact ((reported_about found left).mono (List.subset_append_right _ _)).within
      (List.subset_append_left _ _)
  · rw [if_neg ‹_›]
    cases first : (left.type b).same op.rule.1 with
    | false =>
      have found := Ty.isSome_operandProblem op.rule.2.2 sound first
      refine ((reported_about found left).mono ?_).within (List.subset_append_left _ _)
      exact fun d mem => List.mem_append_left _ (List.mem_append_right _ mem)
    | true =>
      cases second : (right.type b).same op.rule.1 with
      | false =>
        have found := Ty.isSome_operandProblem op.rule.2.2 sound' second
        exact ((reported_about found right).mono (List.subset_append_right _ _)).within
          (List.subset_append_right _ _)
      | true =>
        simp [first, second, op.isError_rule] at failed

/-- Something with two operands has a report in it if an operand of type `error` has one and if it is
reported itself where neither is of type `error`. -/
theorem reported_operands {whole left right : Exp} (within : left.sites ⊆ whole.sites)
    (within' : right.sites ⊆ whole.sites) (first : (left.type b).isError → left.Reported ds)
    (second : (right.type b).isError → right.Reported ds)
    (own : (left.type b).isError = false → (right.type b).isError = false → whole.Reported ds) :
    whole.Reported ds := by
  cases sound : (left.type b).isError with
  | true => exact (first sound).within within
  | false =>
    cases sound' : (right.type b).isError with
    | true => exact (second sound').within within'
    | false => exact own sound sound'

/-- If what the names mean is typed, a place of type `error` has a report in it and the problems of an
expression are reported, then an expression of type `error` has a report in it. -/
theorem reported_of_isError (typed : ∀ id s, b.symbolOf id = some s → s.Typed) : (e : Exp) →
    (∀ q ∈ e.parts, q.isPlace → (q.type b).isError → q.Reported ds) → e.problems b ⊆ ds →
    (e.type b).isError → e.Reported ds
  | .int _ _ _, _, _, failed | .string _ _, _, _, failed | .bool _ _, _, _, failed => nomatch failed
  | .ident id, places, _, failed => places _ (self_mem_parts _) rfl failed
  | .dot base field, places, _, failed => places _ (self_mem_parts _) rfl failed
  | .assign target value, places, problems, failed => by
    obtain ⟨inner, own⟩ := List.append_subset.mp problems
    obtain ⟨left, right⟩ := List.append_subset.mp inner
    refine reported_operands (List.subset_append_left _ _) (List.subset_append_right _ _)
      (reported_of_isError typed target (fun q mem => places q (by simp [parts, mem])) left)
      (reported_of_isError typed value (fun q mem => places q (by simp [parts, mem])) right) ?_
    intro sound sound'
    have found := Ty.isSome_assignProblem sound sound' failed
    exact ((reported_about found target).mono own).within (List.subset_append_left _ _)
  | .call callee args, places, problems, failed => by
    have within : (ident callee).sites ⊆ (call callee args).sites := by simp [sites]
    cases unbound : (b.typeOf callee).isError with
    | true => exact (places (.ident callee) (by simp [parts]) rfl unbound).within within
    | false =>
      cases called : (b.typeOf callee).signature args.length with
      | none =>
        rw [Exp.problems, called] at problems
        have found := Ty.isSome_calleeProblem unbound called
        exact ((reported_about found (.ident callee)).mono problems).within within
      | some found =>
        -- A call that is allowed has the result type of a declared function, which is never `error`.
        obtain ⟨params, result⟩ := found
        rw [type, Ty.ofCall, called] at failed
        have sound := isError_result typed (Ty.signature_eq_some called)
        exact absurd failed (by simp [sound])
  | .unary op operand, places, problems, failed => by
    obtain ⟨inner, own⟩ := List.append_subset.mp problems
    cases first : (operand.type b).isError with
    | true =>
      exact reported_of_isError typed operand (fun q mem => places q (by simp [parts, mem])) inner first
    | false => exact (reported_about (Ty.isSome_unaryProblem first failed) operand).mono own
  | .binary op left right, places, problems, failed => by
    obtain ⟨inner, inner'⟩ :=
      List.append_subset.mp (List.Subset.trans (problems_operands op left right) problems)
    refine reported_operands (List.subset_append_left _ _) (List.subset_append_right _ _)
      (reported_of_isError typed left (fun q mem => places q (by simp [parts, mem])) inner)
      (reported_of_isError typed right (fun q mem => places q (by simp [parts, mem])) inner') ?_
    intro sound sound'
    exact (reported_binary sound sound' failed).mono problems

/-! ## The types that are recorded -/

theorem mem_fieldsAll {id : Ident} {e : Exp} : {es : List Exp} → e ∈ es → id ∈ e.fields →
    id ∈ fieldsAll es
  | _ :: _, mem, inside => by
    rcases List.mem_cons.mp mem with rfl | mem
    · exact List.mem_append_left _ inside
    · exact List.mem_append_right _ (mem_fieldsAll mem inside)

/-- An entry of a record holds the type of its expression, which is the field of a dot-access or one of
these parts, with its problems among these. -/
structure Recorded (b : Bindings) (fields : List Ident) (parts : List Exp) (ds : List Diagnostic)
    (entry : Exp × Ty) : Prop where
  type : entry.2 = entry.1.type b
  origin : (∃ id ∈ fields, entry.1 = .ident id) ∨ entry.1 ∈ parts ∧ entry.1.problems b ⊆ ds

variable {fields : List Ident} {entry : Exp × Ty}

theorem Recorded.mono {fields' : List Ident} {parts parts' : List Exp} {ds ds' : List Diagnostic}
    (h : Recorded b fields parts ds entry) (more : fields ⊆ fields') (more' : parts ⊆ parts')
    (more'' : ds ⊆ ds') : Recorded b fields' parts' ds' entry := by
  refine ⟨h.type, h.origin.imp ?_ ?_⟩
  · rintro ⟨id, mem, same⟩
    exact ⟨id, more mem, same⟩
  · rintro ⟨mem, sub⟩
    exact ⟨more' mem, List.Subset.trans sub more''⟩

theorem recorded_self (b : Bindings) (e : Exp) :
    Recorded b e.fields e.parts (e.problems b) (e, e.type b) :=
  ⟨rfl, .inr ⟨self_mem_parts e, List.Subset.refl _⟩⟩

mutual

theorem recorded_of_mem {entry : Exp × Ty} : (e : Exp) → entry ∈ e.record b →
    Recorded b e.fields e.parts (e.problems b) entry
  | .int _ _ _, mem | .string _ _, mem | .bool _ _, mem | .ident _, mem => by
    obtain rfl := List.mem_singleton.mp mem
    exact recorded_self b _
  | .dot base field, mem => by
    rcases List.mem_append.mp mem with mem | mem
    · exact (recorded_of_mem base mem).mono (List.subset_append_left _ _) (List.subset_cons_self _ _)
        (List.Subset.refl _)
    · rcases List.mem_cons.mp mem with rfl | mem
      · exact ⟨rfl, .inl ⟨field, by simp [Exp.fields], rfl⟩⟩
      · obtain rfl := List.mem_singleton.mp mem
        exact recorded_self b _
  | .assign target value, mem => by
    rcases List.mem_append.mp mem with mem | mem
    · rcases List.mem_append.mp mem with mem | mem
      · exact (recorded_of_mem target mem).mono (List.subset_append_left _ _)
          (List.subset_cons_of_subset _ (List.subset_append_left _ _))
          (List.subset_append_of_subset_left _ (List.subset_append_left _ _))
      · exact (recorded_of_mem value mem).mono (List.subset_append_right _ _)
          (List.subset_cons_of_subset _ (List.subset_append_right _ _))
          (List.subset_append_of_subset_left _ (List.subset_append_right _ _))
    · obtain rfl := List.mem_singleton.mp mem
      exact recorded_self b _
  | .call callee args, mem => by
    rcases List.mem_cons.mp mem with rfl | mem
    · exact ⟨rfl, .inr ⟨by simp [parts], List.nil_subset _⟩⟩
    · cases called : (b.typeOf callee).signature args.length with
      | none =>
        -- The arguments have not been looked at.
        rw [called] at mem
        obtain rfl := List.mem_singleton.mp mem
        exact recorded_self b _
      | some found =>
        rw [called] at mem
        rcases List.mem_append.mp mem with mem | mem
        · refine (recordedAll_of_mem args mem found.1).mono (List.Subset.refl _)
            (List.subset_cons_of_subset _ (List.subset_cons_self _ _)) ?_
          rw [problems, called]
          exact List.Subset.refl _
        · obtain rfl := List.mem_singleton.mp mem
          exact recorded_self b _
  | .unary op operand, mem => by
    rcases List.mem_append.mp mem with mem | mem
    · exact (recorded_of_mem operand mem).mono (List.Subset.refl _) (List.subset_cons_self _ _)
        (List.subset_append_left _ _)
    · obtain rfl := List.mem_singleton.mp mem
      exact recorded_self b _
  | .binary op left right, mem => by
    obtain ⟨inner, inner'⟩ := List.append_subset.mp (@problems_operands b op left right)
    rcases List.mem_append.mp mem with mem | mem
    · rcases List.mem_append.mp mem with mem | mem
      · exact (recorded_of_mem left mem).mono (List.subset_append_left _ _)
          (List.subset_cons_of_subset _ (List.subset_append_left _ _)) inner
      · exact (recorded_of_mem right mem).mono (List.subset_append_right _ _)
          (List.subset_cons_of_subset _ (List.subset_append_right _ _)) inner'
    · obtain rfl := List.mem_singleton.mp mem
      exact recorded_self b _

theorem recordedAll_of_mem {entry : Exp × Ty} : (es : List Exp) → entry ∈ recordAll b es →
    ∀ formals, Recorded b (fieldsAll es) (partsAll es) (argumentProblems b es formals) entry
  | e :: es, mem, formals => by
    rcases List.mem_append.mp mem with mem | mem
    · refine (recorded_of_mem e mem).mono (List.subset_append_left _ _)
        (List.subset_append_left _ _) ?_
      cases formals with
      | nil => exact List.subset_append_left _ _
      | cons formal formals =>
        exact List.subset_append_of_subset_left _ (List.subset_append_left _ _)
    · refine (recordedAll_of_mem es mem formals.tail).mono (List.subset_append_right _ _)
        (List.subset_append_right _ _) ?_
      cases formals with
      | nil => exact List.subset_append_right _ _
      | cons formal formals => exact List.subset_append_right _ _

end

end Exp

variable {b : Bindings}

mutual

/-- A recorded type belongs to the record of an expression whose problems are reported. -/
theorem Stmt.exists_exp_of_record {result : Ty} {entry : Exp × Ty} : (s : Stmt) →
    entry ∈ s.record b result →
    ∃ e ∈ s.exps, entry ∈ e.record b ∧ e.problems b ⊆ s.problems b result
  | .assign target value, mem => ⟨_, List.mem_cons_self, mem, List.Subset.refl _⟩
  | .increment target, mem | .decrement target, mem | .read target, mem | .write target, mem =>
    ⟨_, List.mem_cons_self, mem, List.subset_append_left _ _⟩
  | .ifThen condition body, mem | .whileLoop condition body, mem
  | .repeatLoop condition body, mem => by
    rcases List.mem_append.mp mem with mem | mem
    · exact ⟨condition, List.mem_cons_self, mem,
        List.subset_append_of_subset_left _ (List.subset_append_left _ _)⟩
    · obtain ⟨e, here, inside, sub⟩ := Block.exists_exp_of_record body mem
      exact ⟨e, List.mem_cons_of_mem _ here, inside, List.subset_append_of_subset_right _ sub⟩
  | .ifElse condition yes no, mem => by
    rcases List.mem_append.mp mem with mem | mem
    · rcases List.mem_append.mp mem with mem | mem
      · exact ⟨condition, List.mem_cons_self, mem, List.subset_append_of_subset_left _
          (List.subset_append_of_subset_left _ (List.subset_append_left _ _))⟩
      · obtain ⟨e, here, inside, sub⟩ := Block.exists_exp_of_record yes mem
        exact ⟨e, List.mem_append_left _ (List.mem_cons_of_mem _ here), inside,
          List.subset_append_of_subset_left _ (List.subset_append_of_subset_right _ sub)⟩
    · obtain ⟨e, here, inside, sub⟩ := Block.exists_exp_of_record no mem
      exact ⟨e, List.mem_append_right _ here, inside, List.subset_append_of_subset_right _ sub⟩
  | .call callee args, mem => ⟨_, List.mem_cons_self, mem, List.Subset.refl _⟩
  | .giveBack (some value) _, mem => by
    refine ⟨value, List.mem_cons_self, ?_⟩
    cases result with
    | void => cases mem
    | _ => exact ⟨mem, List.subset_append_left _ _⟩

theorem Block.exists_exp_of_record {result : Ty} {entry : Exp × Ty} : (k : Block) →
    entry ∈ k.record b result →
    ∃ e ∈ k.exps, entry ∈ e.record b ∧ e.problems b ⊆ k.problems b result
  | .mk _ stmts, mem => Stmt.exists_exp_of_recordAll stmts mem

theorem Stmt.exists_exp_of_recordAll {result : Ty} {entry : Exp × Ty} : (ss : List Stmt) →
    entry ∈ Stmt.recordAll b result ss →
    ∃ e ∈ Stmt.expsAll ss, entry ∈ e.record b ∧ e.problems b ⊆ Stmt.problemsAll b result ss
  | s :: ss, mem => by
    rcases List.mem_append.mp mem with mem | mem
    · obtain ⟨e, here, inside, sub⟩ := Stmt.exists_exp_of_record s mem
      exact ⟨e, List.mem_append_left _ here, inside, List.subset_append_of_subset_left _ sub⟩
    · obtain ⟨e, here, inside, sub⟩ := Stmt.exists_exp_of_recordAll ss mem
      exact ⟨e, List.mem_append_right _ here, inside, List.subset_append_of_subset_right _ sub⟩

end

theorem Program.exists_exp_of_record {p : Program} {entry : Exp × Ty}
    (mem : entry ∈ (p.check b).record) : ∃ e ∈ p.decls.flatMap Decl.exps,
      entry ∈ e.record b ∧ e.problems b ⊆ (p.check b).diagnostics := by
  obtain ⟨d, declared, here⟩ := List.mem_flatMap.mp mem
  cases d with
  | fn d =>
    obtain ⟨e, root, inside, sub⟩ := d.body.exists_exp_of_record here
    refine ⟨e, List.mem_flatMap.mpr ⟨_, declared, root⟩, inside, fun problem reported => ?_⟩
    exact List.mem_flatMap.mpr ⟨_, declared, sub reported⟩
  | _ => cases here

/-! ## Programs -/

namespace Scoping

/-- The bindings that are found. -/
def Findings.bindings (f : Findings) : Bindings := ⟨⟨f.idents⟩, ⟨f.dots⟩⟩

theorem Findings.symbolOf_eq_none {f : Findings} {id : Ident} :
    f.bindings.symbolOf id = none ↔ id.node ∉ f.bound :=
  Table.lookup_eq_none

variable {ids : List Ident} {f : Findings}

theorem Grounded.symbolOf (grounded : Grounded ids f) (id : Ident) (s : Symbol)
    (found : f.bindings.symbolOf id = some s) : s.Typed :=
  (grounded.typed _ (Table.mem_of_find? found)).2

/-- Only what is not bound has the type `error`. -/
theorem Grounded.unbound_of_isError (grounded : Grounded ids f) {id : Ident}
    (failed : (f.bindings.typeOf id).isError) : id.node ∉ f.bound := by
  rw [Bindings.typeOf] at failed
  cases found : f.bindings.symbolOf id with
  | none => exact Findings.symbolOf_eq_none.mp found
  | some s =>
    rw [found] at failed
    have sound := (grounded.symbolOf id s found).isError
    exact absurd failed (by simp [sound])

/-- A place of type `error` has a report about one of its names. -/
theorem Grounded.reported_place (grounded : Grounded ids f) {e : Exp} (covered : f.CoversExp e)
    (place : e.isPlace) (failed : (e.type f.bindings).isError) : e.Reported f.diagnostics := by
  cases e with
  | ident id =>
    have unbound := grounded.unbound_of_isError failed
    exact Exp.reported_of_ident List.mem_cons_self (covered.names.resolve_left unbound)
  | dot base field =>
    have unbound := grounded.unbound_of_isError failed
    rcases covered.field with named | ⟨other, before, reported⟩
    · exact Exp.reported_of_ident (by simp [Exp.idents]) (named.resolve_left unbound)
    · exact Exp.reported_of_ident (List.mem_append_left _ before) reported
  | _ => cases place

end Scoping

namespace Program

open Scoping

variable {source : Text} {p : Program}

/-- Identifiers of a program that was read are told apart by their positions. -/
theorem ident_eq_of_position (parsed : source.parse.program = some p) {id other : Ident}
    (mem : id ∈ p.idents) (mem' : other ∈ p.idents) (same : id.position = other.position) :
    id = other := by
  -- Both tokens cover the unit at which they begin, and a unit has one token.
  have named := (proper_of_parse parsed).named
  have covers : ∀ t : Token, t.text ≠ [] → t.Covers (t.position.line - 1) (t.position.column - 1) := by
    intro t nonempty
    have := List.length_pos_iff.mpr nonempty
    exact ⟨rfl, Int.le_refl _, by omega⟩
  obtain ⟨i, t, place, -, rfl⟩ := (mem_idents_iff parsed).mp mem
  obtain ⟨j, u, place', -, rfl⟩ := (mem_idents_iff parsed).mp mem'
  have here := covers t (named _ mem)
  have there := covers u (named _ mem')
  change t.position = u.position at same
  rw [← same] at there
  obtain rfl := Scan.covers_unique place place' here there
  cases place.symm.trans place'
  rfl

theorem covers_exp {f : Findings} (explained : ∀ d ∈ p.decls, d.Explained f) {e : Exp}
    (root : e ∈ p.decls.flatMap Decl.exps) : f.CoversExp e := by
  obtain ⟨d, declared, inside⟩ := List.mem_flatMap.mp root
  cases d with
  | fn d => exact (explained _ declared).2.2 e inside
  | _ => cases inside

/-- Where the type `error` is recorded for anything but the field of a dot-access, there is a report
inside it. -/
theorem reported_of_record {f : Findings} (grounded : Grounded p.idents f)
    (explained : ∀ d ∈ p.decls, d.Explained f) {e : Exp}
    (failed : (e, Ty.error) ∈ (p.check f.bindings).record) (other : ∀ id ∈ p.fields, e ≠ .ident id) :
    e.Reported (f.diagnostics ++ (p.check f.bindings).diagnostics) := by
  obtain ⟨root, inside, recorded, problems⟩ := exists_exp_of_record failed
  obtain ⟨type, ⟨id, field, same⟩ | ⟨part, own⟩⟩ := root.recorded_of_mem recorded
  · exact absurd same (other id (Exp.mem_fieldsAll inside field))
  · refine e.reported_of_isError grounded.symbolOf (fun q mem place failed => ?_) ?_ ?_
    · have covered := ((covers_exp explained inside).part part).part mem
      exact (grounded.reported_place covered place failed).mono (List.subset_append_left _ _)
    · exact List.subset_append_of_subset_right _ (List.Subset.trans own problems)
    · rw [← type]
      rfl

/-- No failure of the analysis is silent. An identifier that is not bound is excused by a report or
stands in a result type. A report about names stands at one identifier, which is not bound unless a
field is selected from something that is no struct. Anything but the field of a dot-access that has
the type `error` has a report inside it. -/
theorem failures_are_reported (source : Text) (p : Program) (parsed : source.parse.program = some p) :
    ∃ r a, p.resolve = .ok r ∧ p.analyze = .ok a ∧ a.bindings = r.bindings ∧
      a.diagnostics = r.diagnostics ++ a.typing.diagnostics ∧
      (∀ id ∈ p.idents, a.bindings.symbolOf id = none → p.Excused r.diagnostics id) ∧
      (∀ d ∈ r.diagnostics, ∃ id ∈ p.idents, id.position = d.position ∧
        (∀ other ∈ p.idents, other.position = d.position → other = id) ∧
        (a.bindings.symbolOf id = none ↔ d.message ≠ "Dot-access of non-struct type")) ∧
      ∀ e, (e, Ty.error) ∈ a.typing.record → (∀ id ∈ p.fields, e ≠ .ident id) →
        ∃ d ∈ a.diagnostics, d.position ∈ e.sites.map Site.position := by
  have proper := proper_of_parse parsed
  obtain ⟨grounded, explained⟩ :=
    explained_decls typedScope_empty p.decls proper (wellShaped_of_parse parsed)
  refine ⟨_, _, p.resolve_eq_extend proper, analyze_eq_scoping proper, rfl, rfl, ?_, ?_, ?_⟩
  · intro id mem unbound
    exact excused_of_unbound explained mem (Findings.symbolOf_eq_none.mp unbound)
  · intro d mem
    obtain ⟨id, inside, here, status⟩ := grounded.reports d mem
    refine ⟨id, inside, here.symm, fun other mem' same => ?_, ?_⟩
    · exact ident_eq_of_position parsed mem' inside (same.trans here)
    · exact Findings.symbolOf_eq_none.trans (not_congr status)
  · intro e failed other
    exact reported_of_record grounded explained failed other

/-- A struct that is declared again, a result type that nobody declares, a formal of an unknown struct
and a chain that starts with it: seven identifiers are not bound, and each of them is excused. -/
theorem failures_are_reported_of_source :
    ∃ p r a, (Text.parse
      "struct A\x7bint x;\x7d; struct A\x7bint y;\x7d; struct B f(struct C c)\x7bc.z = -A;\x7d").program
        = some p ∧ p.resolve = .ok r ∧ p.analyze = .ok a ∧
      (p.idents.filter fun id => (a.bindings.symbolOf id).isNone).map Ident.node =
        [9, 12, 17, 21, 22, 25, 27] ∧
      (∀ id ∈ p.idents, a.bindings.symbolOf id = none → p.Excused r.diagnostics id) ∧
      (a.typing.record.filter (·.2.isError)).length = 5 ∧
      ∀ e, (e, Ty.error) ∈ a.typing.record → (∀ id ∈ p.fields, e ≠ .ident id) →
        ∃ d ∈ a.diagnostics, d.position ∈ e.sites.map Site.position := by
  obtain ⟨p, parsed, seen⟩ : ∃ p, (Text.parse
      "struct A\x7bint x;\x7d; struct A\x7bint y;\x7d; struct B f(struct C c)\x7bc.z = -A;\x7d").program
        = some p ∧
      (p.analyze.toOption.map fun a =>
        ((p.idents.filter fun id => (a.bindings.symbolOf id).isNone).map Ident.node,
          (a.typing.record.filter (·.2.isError)).length)) =
        some ([9, 12, 17, 21, 22, 25, 27], 5) :=
    Text.exists_of_parseOnTape (by decide +kernel)
  obtain ⟨r, a, resolved, analyzed, -, -, excused, -, reported⟩ := failures_are_reported _ p parsed
  rw [analyzed] at seen
  have facts := Option.some.inj seen
  exact ⟨p, r, a, parsed, resolved, analyzed, congrArg Prod.fst facts, excused,
    congrArg Prod.snd facts, reported⟩

end Program

end Cinder
