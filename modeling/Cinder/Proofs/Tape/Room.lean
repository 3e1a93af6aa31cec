import Cinder.Proofs.Tape

/-!
# More room

A run that comes to its end with some room does the same with more: room matters only to runs that
are cut off.
-/
namespace Cinder.Tape

/-- The second run does what the first one does, if that is not cut off. -/
def Extends {α : Type} (m m' : Run α) : Prop :=
  ∀ s result, m.run.run s = some result → m'.run.run s = some result

namespace Extends

variable {α β : Type} {m m' : Run α} {f f' : α → Run β}

theorem refl (m : Run α) : Extends m m := fun _ _ h => h

theorem cutOff : Extends Tape.cutOff m := nofun

theorem bind (first : Extends m m') (next : ∀ v, Extends (f v) (f' v)) :
    Extends (m >>= f) (m' >>= f') := by
  intro s result h
  rcases run : m.run.run s with _ | ⟨halt | v, s'⟩
  · rw [run_bind_none run] at h
    cases h
  · rw [run_bind_error run] at h
    rw [run_bind_error (first s _ run), h]
  · rw [run_bind_ok run] at h
    rw [run_bind_ok (first s _ run), next v s' result h]

/-- What comes before stays as it is. -/
theorem after {m : Run α} (next : ∀ v, Extends (f v) (f' v)) : Extends (m >>= f) (m >>= f') :=
  (refl m).bind next

/-- What comes after stays as it is. -/
theorem before (first : Extends m m') : Extends (m >>= f) (m' >>= f) :=
  first.bind fun v => refl (f v)

theorem round {loop : Loop} (h : Extends m m') :
    Extends (Tape.round loop m) (Tape.round loop m') := by
  rw [Tape.round, Tape.round]
  apply after
  intro start
  apply after
  intro _
  exact h.before

theorem ite {c : Prop} [Decidable c] {yes yes' no no' : Run α} (h : Extends yes yes')
    (h' : Extends no no') : Extends (if c then yes else no) (if c then yes' else no') := by
  split
  · exact h
  · exact h'

end Extends

variable (tape : Tape)

/-! ## Variables and expressions -/

theorem extends_varDecls (room : Nat) :
    Extends (tape.varDecls room) (tape.varDecls (room + 1)) := by
  induction room with
  | zero => exact .cutOff
  | succ room ih =>
    rw [varDecls, varDecls]
    apply Extends.after
    intro t
    apply Extends.ite
    · apply Extends.after
      intro d
      exact ih.before
    · exact .refl _

theorem extends_fields (room : Nat) : Extends (tape.fields room) (tape.fields (room + 1)) := by
  induction room with
  | zero => exact .cutOff
  | succ room ih =>
    rw [fields, fields]
    apply Extends.after
    intro closes
    apply Extends.ite
    · exact .refl _
    · apply Extends.after
      intro d
      exact ih.before

theorem extends_moreFormals (room : Nat) :
    Extends (tape.moreFormals room) (tape.moreFormals (room + 1)) := by
  induction room with
  | zero => exact .cutOff
  | succ room ih =>
    rw [moreFormals, moreFormals]
    apply Extends.after
    intro goesOn
    apply Extends.ite
    · apply Extends.after
      intro d
      exact ih.before
    · exact .refl _

theorem extends_formalList (room : Nat) :
    Extends (tape.formalList room) (tape.formalList (room + 1)) := by
  rw [formalList, formalList]
  apply Extends.after
  intro closes
  apply Extends.ite
  · exact .refl _
  · apply Extends.after
    intro d
    exact (extends_moreFormals tape room).before

theorem extends_formals (room : Nat) : Extends (tape.formals room) (tape.formals (room + 1)) := by
  rw [formals, formals]
  apply Extends.after
  intro _
  exact (extends_formalList tape room).before

theorem extends_selections (base : Exp) (room : Nat) :
    Extends (tape.selections base room) (tape.selections base (room + 1)) := by
  induction room generalizing base with
  | zero => exact .cutOff
  | succ room ih =>
    rw [selections, selections]
    apply Extends.after
    intro goesOn
    apply Extends.ite
    · apply Extends.after
      intro field
      exact ih (.dot base field)
    · exact .refl _

theorem extends_place (room : Nat) : Extends (tape.place room) (tape.place (room + 1)) := by
  rw [place, place]
  apply Extends.after
  intro base
  exact extends_selections tape (.ident base) room

mutual

theorem extends_exp (room : Nat) : Extends (tape.exp room) (tape.exp (room + 1)) := by
  cases room with
  | zero => exact .cutOff
  | succ room =>
    rw [exp, exp]
    apply (extends_operation Level.all room).bind
    intro left
    apply Extends.after
    intro assigns
    apply Extends.ite
    · apply Extends.ite
      · apply Extends.after
        intro _
        exact (extends_exp room).before
      · exact .refl _
    · exact .refl _

theorem extends_operation (levels : List Level) (room : Nat) :
    Extends (tape.operation levels room) (tape.operation levels (room + 1)) := by
  cases room with
  | zero => exact .cutOff
  | succ room =>
    cases levels with
    | nil =>
      rw [operation, operation]
      exact extends_operand room
    | cons level tighter =>
      rw [operation, operation]
      apply (extends_operation tighter room).bind
      intro left
      exact extends_operations level tighter left room

theorem extends_operations (level : Level) (tighter : List Level) (left : Exp) (room : Nat) :
    Extends (tape.operations level tighter left room)
      (tape.operations level tighter left (room + 1)) := by
  cases room with
  | zero => exact .cutOff
  | succ room =>
    rw [operations, operations]
    apply Extends.after
    intro t
    cases level.operator? t.kind with
    | none => exact .refl _
    | some op =>
      have operand := extends_operation tighter room
      apply Extends.ite
      · have taken : Extends (do
            let _ ← tape.advance
            tape.operation tighter room) (do
            let _ ← tape.advance
            tape.operation tighter (room + 1)) := by
          apply Extends.after
          intro _
          exact operand
        apply taken.round.bind
        intro right
        exact extends_operations level tighter (.binary op left right) room
      · apply Extends.after
        intro _
        exact operand.before

theorem extends_operand (room : Nat) : Extends (tape.operand room) (tape.operand (room + 1)) := by
  cases room with
  | zero => exact .cutOff
  | succ room =>
    rw [operand, operand]
    apply Extends.after
    intro no
    apply Extends.ite
    · apply Extends.after
      intro _
      exact (extends_operand room).before
    · apply Extends.after
      intro minus
      apply Extends.ite
      · apply Extends.after
        intro _
        exact (extends_operand room).before
      · exact extends_term room

theorem extends_term (room : Nat) : Extends (tape.term room) (tape.term (room + 1)) := by
  cases room with
  | zero => exact .cutOff
  | succ room =>
    rw [term, term]
    apply Extends.after
    intro t
    cases t.kind with
    | leftParen =>
      apply Extends.after
      intro _
      exact (extends_exp room).before
    | identifier =>
      apply Extends.after
      intro next
      apply Extends.ite
      · apply Extends.after
        intro callee
        exact (extends_arguments room).before
      · exact extends_place tape room
    | _ => exact .refl _

theorem extends_arguments (room : Nat) :
    Extends (tape.arguments room) (tape.arguments (room + 1)) := by
  cases room with
  | zero => exact .cutOff
  | succ room =>
    rw [arguments, arguments]
    apply Extends.after
    intro _
    exact (extends_argumentList room).before

theorem extends_argumentList (room : Nat) :
    Extends (tape.argumentList room) (tape.argumentList (room + 1)) := by
  cases room with
  | zero => exact .cutOff
  | succ room =>
    rw [argumentList, argumentList]
    apply Extends.after
    intro closes
    apply Extends.ite
    · exact .refl _
    · apply (extends_exp room).bind
      intro e
      exact (extends_moreArguments room).before

theorem extends_moreArguments (room : Nat) :
    Extends (tape.moreArguments room) (tape.moreArguments (room + 1)) := by
  cases room with
  | zero => exact .cutOff
  | succ room =>
    rw [moreArguments, moreArguments]
    apply Extends.after
    intro goesOn
    apply Extends.ite
    · have taken : Extends (do
          let _ ← tape.advance
          tape.exp room) (do
          let _ ← tape.advance
          tape.exp (room + 1)) := by
        apply Extends.after
        intro _
        exact extends_exp room
      apply taken.round.bind
      intro e
      exact (extends_moreArguments room).before
    · exact .refl _

end

/-! ## Statements -/

theorem extends_condition (room : Nat) :
    Extends (tape.condition room) (tape.condition (room + 1)) := by
  rw [condition, condition]
  apply Extends.after
  intro _
  exact (extends_exp tape room).before

theorem extends_change (target : Exp) (room : Nat) :
    Extends (tape.change target room) (tape.change target (room + 1)) := by
  rw [change, change]
  apply Extends.after
  intro assigns
  apply Extends.ite
  · apply Extends.after
    intro _
    exact (extends_exp tape room).before
  · exact .refl _

theorem extends_identStmt (room : Nat) :
    Extends (tape.identStmt room) (tape.identStmt (room + 1)) := by
  rw [identStmt, identStmt]
  apply Extends.after
  intro next
  apply Extends.ite
  · apply Extends.after
    intro callee
    exact (extends_arguments tape room).before
  · apply (extends_place tape room).bind
    intro target
    exact (extends_change tape target room).before

theorem extends_returned (room : Nat) :
    Extends (tape.returned room) (tape.returned (room + 1)) := by
  rw [returned, returned]
  apply Extends.after
  intro closes
  apply Extends.ite
  · exact .refl _
  · exact (extends_exp tape room).before

mutual

theorem extends_block (room : Nat) : Extends (tape.block room) (tape.block (room + 1)) := by
  cases room with
  | zero => exact .cutOff
  | succ room =>
    rw [block, block]
    apply Extends.after
    intro _
    apply (extends_varDecls tape room).bind
    intro ds
    exact (extends_stmts room).before

theorem extends_stmts (room : Nat) : Extends (tape.stmts room) (tape.stmts (room + 1)) := by
  cases room with
  | zero => exact .cutOff
  | succ room =>
    rw [stmts, stmts]
    apply Extends.after
    intro closes
    apply Extends.ite
    · exact .refl _
    · apply Extends.after
      intro ended
      apply Extends.ite
      · exact .refl _
      · apply (extends_stmt room).round.bind
        intro s
        exact (extends_stmts room).before

theorem extends_stmt (room : Nat) : Extends (tape.stmt room) (tape.stmt (room + 1)) := by
  cases room with
  | zero => exact .cutOff
  | succ room =>
    rw [stmt, stmt]
    apply Extends.after
    intro t
    cases t.kind with
    | cinWord =>
      apply Extends.after
      intro _
      apply Extends.after
      intro _
      exact (extends_place tape room).before
    | coutWord =>
      apply Extends.after
      intro _
      apply Extends.after
      intro _
      exact (extends_exp tape room).before
    | ifWord =>
      apply Extends.after
      intro _
      apply (extends_condition tape room).bind
      intro e
      apply (extends_block room).bind
      intro yes
      apply Extends.after
      intro goesOn
      apply Extends.ite
      · apply Extends.after
        intro _
        exact (extends_block room).before
      · exact .refl _
    | whileWord | repeatWord =>
      apply Extends.after
      intro _
      apply (extends_condition tape room).bind
      intro e
      exact (extends_block room).before
    | returnWord =>
      apply Extends.after
      intro _
      exact (extends_returned tape room).before
    | identifier => exact extends_identStmt tape room
    | _ => exact .refl _

end

/-! ## Declarations -/

theorem extends_fieldList (room : Nat) :
    Extends (tape.fieldList room) (tape.fieldList (room + 1)) := by
  rw [fieldList, fieldList]
  apply Extends.after
  intro d
  exact (extends_fields tape room).before

theorem extends_structDecl (room : Nat) :
    Extends (tape.structDecl room) (tape.structDecl (room + 1)) := by
  rw [structDecl, structDecl]
  apply Extends.after
  intro _
  apply Extends.after
  intro name
  apply Extends.after
  intro _
  exact (extends_fieldList tape room).before

theorem extends_fnDecl (resultType : TypeExp) (name : Ident) (room : Nat) :
    Extends (tape.fnDecl resultType name room) (tape.fnDecl resultType name (room + 1)) := by
  rw [fnDecl, fnDecl]
  apply (extends_formals tape room).bind
  intro ds
  exact (extends_block tape room).before

theorem extends_decl (room : Nat) : Extends (tape.decl room) (tape.decl (room + 1)) := by
  rw [decl, decl]
  apply Extends.after
  intro starts
  apply Extends.ite
  · exact extends_structDecl tape room
  · apply Extends.after
    intro d
    apply Extends.after
    intro opens
    apply Extends.ite
    · exact extends_fnDecl tape d.type d.name room
    · exact .refl _

theorem extends_decls (room : Nat) : Extends (tape.decls room) (tape.decls (room + 1)) := by
  induction room with
  | zero => exact .cutOff
  | succ room ih =>
    rw [decls, decls]
    apply Extends.after
    intro ended
    apply Extends.ite
    · exact .refl _
    · apply (extends_decl tape room).round.bind
      intro d
      exact ih.before

/-- A parse that comes to its end is the same with more room. -/
theorem parse_of_le {room more : Nat} (le : room ≤ more)
    {result : Except Halt Program × State} (ran : tape.parse room = some result) :
    tape.parse more = some result := by
  induction le with
  | refl => exact ran
  | @step more _ ih =>
    have whole : Extends (tape.program more) (tape.program (more + 1)) := by
      rw [program, program]
      exact (extends_decls tape more).before
    exact whole _ _ ih

end Cinder.Tape
