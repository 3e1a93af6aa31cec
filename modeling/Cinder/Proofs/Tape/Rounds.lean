import Cinder.Proofs.Tape

/-!
# The rounds that a program takes

A program has as many declarations, fields, formals, variables, statements, operators, arguments and
selections as rounds were begun to read it: where a run of the parser gives a program, the rounds
that it noted are those that can be told from the program alone, in the same order. So no round
goes unnoted.
-/
namespace Cinder

open Tape (Loop)

/-! ## Rounds of a tree -/

mutual

/-- The loops that go round while an expression is read, in the order of their rounds. The operators
of a comparison and the parentheses around an expression take none. -/
def Exp.rounds : Exp → List Loop
  | .int _ _ _ => []
  | .string _ _ => []
  | .bool _ _ => []
  | .ident _ => []
  | .dot base _ => base.rounds ++ [.selections]
  | .assign target value => target.rounds ++ value.rounds
  | .call _ args => Exp.roundsOfList args
  | .unary _ operand => operand.rounds
  | .binary op left right =>
    if op ∈ [.equal, .notEqual, .less, .greater, .lessEqual, .greaterEqual] then
      left.rounds ++ right.rounds
    else left.rounds ++ .operators :: right.rounds

/-- The first of the arguments is read before the loop. -/
def Exp.roundsOfList : List Exp → List Loop
  | [] => []
  | e :: rest => e.rounds ++ Exp.roundsOfMore rest

def Exp.roundsOfMore : List Exp → List Loop
  | [] => []
  | e :: rest => .arguments :: e.rounds ++ Exp.roundsOfMore rest

end

mutual

def Stmt.rounds : Stmt → List Loop
  | .assign target value => target.rounds ++ value.rounds
  | .increment target => target.rounds
  | .decrement target => target.rounds
  | .read target => target.rounds
  | .write value => value.rounds
  | .ifThen condition body => condition.rounds ++ body.rounds
  | .ifElse condition yes no => condition.rounds ++ yes.rounds ++ no.rounds
  | .whileLoop condition body => condition.rounds ++ body.rounds
  | .repeatLoop count body => count.rounds ++ body.rounds
  | .call _ args => Exp.roundsOfList args
  | .giveBack none _ => []
  | .giveBack (some value) _ => value.rounds

def Block.rounds : Block → List Loop
  | .mk decls stmts => List.replicate decls.length .variables ++ Stmt.roundsOfAll stmts

def Stmt.roundsOfAll : List Stmt → List Loop
  | [] => []
  | s :: rest => .statements :: s.rounds ++ Stmt.roundsOfAll rest

end

/-- The first field and the first formal are read before the loops. -/
def Decl.rounds : Decl → List Loop
  | .var _ => []
  | .fn d => List.replicate (d.formals.length - 1) .formals ++ d.body.rounds
  | .struct d => List.replicate (d.fields.length - 1) .fields

def Program.rounds (p : Program) : List Loop := p.decls.flatMap fun d => .declarations :: d.rounds

namespace Tape

/-! ## Rounds of a run -/

def Event.begun? : Event → Option Loop
  | .begins loop _ => some loop
  | _ => none

/-- The loops of the rounds that began. -/
def begun (events : List Event) : List Loop := events.filterMap Event.begun?

variable {α β : Type}

/-- Where the run gives a value, the rounds that it began are right for that value. -/
def Begins (m : Run α) (right : α → List Loop → Prop) : Prop :=
  ∀ s v s', m.run.run s = some (.ok v, s') →
    ∃ loops, begun s'.events = begun s.events ++ loops ∧ right v loops

/-- No round begins. -/
def Quiet (m : Run α) : Prop := Begins m fun _ loops => loops = []

namespace Begins

variable {m : Run α} {f : α → Run β} {right : α → List Loop → Prop} {good : β → List Loop → Prop}

theorem cutOff : Begins Tape.cutOff right := by
  intro s v s' ran
  cases ran

theorem throws (halt : Halt) : Begins (throw halt) right := by
  intro s v s' ran
  cases ran

theorem ret {v : α} (h : right v []) : Begins (pure v) right := by
  intro s v s' ran
  cases ran
  exact ⟨[], (List.append_nil _).symm, h⟩

theorem bind (first : Begins m right)
    (next : ∀ v loops, right v loops → Begins (f v) fun w more => good w (loops ++ more)) :
    Begins (m >>= f) good := by
  intro s w s'' ran
  rcases run : m.run.run s with _ | ⟨halt | v, s'⟩
  · rw [run_bind_none run] at ran
    cases ran
  · rw [run_bind_error run] at ran
    cases ran
  · rw [run_bind_ok run] at ran
    obtain ⟨loops, begun₁, fits⟩ := first s v s' run
    obtain ⟨more, begun₂, fits'⟩ := next v loops fits s' w s'' ran
    refine ⟨loops ++ more, ?_, fits'⟩
    rw [begun₂, begun₁, List.append_assoc]

theorem mono {right' : α → List Loop → Prop} (h : Begins m right)
    (weaker : ∀ v loops, right v loops → right' v loops) : Begins m right' := by
  intro s v s' ran
  obtain ⟨loops, same, fits⟩ := h s v s' ran
  exact ⟨loops, same, weaker v loops fits⟩

/-- What comes before begins no round. -/
theorem after (quiet : Quiet m) (next : ∀ v, Begins (f v) good) : Begins (m >>= f) good := by
  apply quiet.bind
  rintro v _ rfl
  exact next v

theorem ite {c : Prop} [Decidable c] {yes no : Run α} (h : Begins yes right)
    (h' : Begins no right) : Begins (if c then yes else no) right := by
  split
  · exact h
  · exact h'

end Begins

theorem quiet_get : Quiet get := by
  intro s v s' ran
  cases ran
  exact ⟨[], (List.append_nil _).symm, rfl⟩

theorem quiet_note {event : Event} (other : event.begun? = none) : Quiet (note event) := by
  intro s v s' ran
  cases ran
  exact ⟨[], by simp [begun, other], rfl⟩

theorem Begins.round {loop : Loop} {body : Run α} {right : α → List Loop → Prop}
    (h : Begins body fun v loops => right v (loop :: loops)) :
    Begins (Tape.round loop body) right := by
  rw [Tape.round]
  apply Begins.after quiet_get
  intro start
  have opens : Begins (note (.begins loop start.head)) fun _ loops => loops = [loop] := by
    intro s v s' ran
    cases ran
    exact ⟨[loop], by simp [begun, Event.begun?], rfl⟩
  apply opens.bind
  rintro _ _ rfl
  apply h.bind
  intro v loops fits
  apply Begins.after quiet_get
  intro stop
  apply Begins.after (quiet_note rfl)
  intro _
  apply Begins.ret
  rwa [List.append_nil]

/-- A round around what takes these rounds. -/
theorem Begins.around {loop : Loop} {body : Run α} {rounds : α → List Loop}
    (h : Begins body fun v loops => loops = rounds v) :
    Begins (Tape.round loop body) fun v loops => loops = loop :: rounds v := by
  apply Begins.round
  apply h.mono
  rintro v _ rfl
  rfl

variable (tape : Tape)

/-! ### The head -/

theorem quiet_look (index : Nat) : Quiet (tape.look index) := by
  rw [look]
  apply Begins.after (quiet_note rfl)
  intro _
  cases tape.tokens[index]? with
  | none => exact .throws _
  | some t => exact .ret rfl

theorem quiet_current : Quiet tape.current := by
  rw [current]
  apply Begins.after quiet_get
  intro s
  exact tape.quiet_look s.head

theorem quiet_kindAhead (n : Nat) : Quiet (tape.kindAhead n) := by
  rw [kindAhead]
  apply Begins.after quiet_get
  intro s
  apply Begins.after (tape.quiet_look _)
  intro t
  exact .ret rfl

theorem quiet_nextIs (kind : Kind) : Quiet (tape.nextIs kind) := by
  rw [nextIs]
  apply Begins.after tape.quiet_current
  intro t
  exact .ret rfl

theorem quiet_advance : Quiet tape.advance := by
  have moves (next : Nat) : Quiet (modify fun s => { s with head := next } : Run Unit) := by
    intro s v s' ran
    cases ran
    exact ⟨[], (List.append_nil _).symm, rfl⟩
  rw [advance]
  apply Begins.after tape.quiet_current
  intro t
  apply Begins.ite
  · apply Begins.after quiet_get
    intro s
    apply Begins.after (moves _)
    intro _
    apply Begins.after (quiet_note rfl)
    intro _
    exact .ret rfl
  · exact .ret rfl

theorem Begins.misfit {right : α → List Loop → Prop} : Begins tape.misfit right := by
  rw [Tape.misfit]
  apply Begins.after tape.quiet_current
  intro t
  exact .throws _

theorem quiet_expect (kind : Kind) : Quiet (tape.expect kind) := by
  rw [expect]
  apply Begins.after (tape.quiet_nextIs kind)
  intro next
  apply Begins.ite
  · exact tape.quiet_advance
  · exact .misfit tape

/-- A value that is given once a token has been taken. -/
theorem Begins.closes {kind : Kind} {v : α} {right : α → List Loop → Prop} (h : right v []) :
    Begins (do
      let _ ← tape.expect kind
      return v) right := by
  apply Begins.after (tape.quiet_expect kind)
  intro _
  exact .ret h

/-! ### Types and variables -/

theorem quiet_ident : Quiet tape.ident := by
  rw [ident]
  apply Begins.after quiet_get
  intro s
  apply Begins.after (tape.quiet_expect .identifier)
  intro t
  exact .ret rfl

theorem quiet_typeExp : Quiet tape.typeExp := by
  rw [typeExp]
  apply Begins.after tape.quiet_current
  intro t
  cases t.kind with
  | intWord | boolWord | voidWord =>
    apply Begins.after tape.quiet_advance
    intro _
    exact .ret rfl
  | structWord =>
    apply Begins.after tape.quiet_advance
    intro _
    apply Begins.after tape.quiet_ident
    intro name
    exact .ret rfl
  | _ => exact .misfit tape

theorem quiet_formal : Quiet tape.formal := by
  rw [formal]
  apply Begins.after tape.quiet_typeExp
  intro type
  apply Begins.after tape.quiet_ident
  intro name
  exact .ret rfl

theorem quiet_varDecl : Quiet tape.varDecl := by
  rw [varDecl]
  apply Begins.after tape.quiet_formal
  intro d
  exact .closes tape rfl

/-- One more round of a loop over items that begin no rounds of their own. -/
theorem Begins.collects {loop : Loop} {item : Run α} {more : Run (List α)} (quiet : Quiet item)
    (rest : Begins more fun vs loops => loops = List.replicate vs.length loop) :
    Begins (do
      let v ← Tape.round loop item
      return v :: (← more)) fun vs loops => loops = List.replicate vs.length loop := by
  apply quiet.around.bind
  rintro v _ rfl
  apply rest.bind
  rintro vs _ rfl
  apply Begins.ret
  simp [List.replicate_succ]

theorem begins_varDecls (room : Nat) :
    Begins (tape.varDecls room) fun ds loops => loops = List.replicate ds.length .variables := by
  induction room with
  | zero => exact .cutOff
  | succ room ih =>
    rw [varDecls]
    apply Begins.after tape.quiet_current
    intro t
    apply Begins.ite
    · exact .collects tape.quiet_varDecl ih
    · exact .ret rfl

theorem begins_fields (room : Nat) :
    Begins (tape.fields room) fun ds loops => loops = List.replicate ds.length .fields := by
  induction room with
  | zero => exact .cutOff
  | succ room ih =>
    rw [fields]
    apply Begins.after (tape.quiet_nextIs .rightBrace)
    intro closes
    apply Begins.ite
    · exact .ret rfl
    · exact .collects tape.quiet_varDecl ih

theorem begins_moreFormals (room : Nat) :
    Begins (tape.moreFormals room) fun ds loops => loops = List.replicate ds.length .formals := by
  induction room with
  | zero => exact .cutOff
  | succ room ih =>
    have item : Quiet (do
        let _ ← tape.advance
        tape.formal) := by
      apply Begins.after tape.quiet_advance
      intro _
      exact tape.quiet_formal
    rw [moreFormals]
    apply Begins.after (tape.quiet_nextIs .comma)
    intro goesOn
    apply Begins.ite
    · exact .collects item ih
    · exact .ret rfl

theorem begins_formalList (room : Nat) : Begins (tape.formalList room) fun ds loops =>
    loops = List.replicate (ds.length - 1) .formals := by
  rw [formalList]
  apply Begins.after (tape.quiet_nextIs .rightParen)
  intro closes
  apply Begins.ite
  · exact .ret rfl
  · apply Begins.after tape.quiet_formal
    intro d
    apply (tape.begins_moreFormals room).bind
    rintro ds _ rfl
    apply Begins.ret
    rw [List.append_nil, List.length_cons, Nat.add_sub_cancel]

theorem begins_formals (room : Nat) :
    Begins (tape.formals room) fun ds loops => loops = List.replicate (ds.length - 1) .formals := by
  rw [formals]
  apply Begins.after (tape.quiet_expect .leftParen)
  intro _
  apply (tape.begins_formalList room).bind
  rintro ds _ rfl
  apply Begins.closes
  exact List.append_nil _

/-! ### Expressions -/

theorem begins_selections (base : Exp) (room : Nat) :
    Begins (tape.selections base room) fun e loops => base.rounds ++ loops = e.rounds := by
  induction room generalizing base with
  | zero => exact .cutOff
  | succ room ih =>
    rw [selections]
    apply Begins.after (tape.quiet_nextIs .dot)
    intro goesOn
    apply Begins.ite
    · have field : Quiet (do
          let _ ← tape.advance
          tape.ident) := by
        apply Begins.after tape.quiet_advance
        intro _
        exact tape.quiet_ident
      apply field.around.bind
      rintro name _ rfl
      apply (ih (.dot base name)).mono
      intro e loops same
      rw [← same, Exp.rounds, List.append_assoc]
    · apply Begins.ret
      exact List.append_nil _

theorem begins_place (room : Nat) :
    Begins (tape.place room) fun e loops => loops = e.rounds := by
  rw [place]
  apply Begins.after tape.quiet_ident
  intro base
  apply (tape.begins_selections (.ident base) room).mono
  intro e loops same
  rw [← same, Exp.rounds, List.nil_append]

theorem comparison_iff {level : Level} {kind : Kind} {op : BinaryOp}
    (found : level.operator? kind = some op) :
    op ∈ [.equal, .notEqual, .less, .greater, .lessEqual, .greaterEqual] ↔ ¬ level.chains := by
  have same : op.level = level := by simpa using (Option.filter_eq_some_iff.mp found).2
  rw [← same]
  cases op <;> decide

mutual

theorem begins_exp (room : Nat) : Begins (tape.exp room) fun e loops => loops = e.rounds := by
  cases room with
  | zero => exact .cutOff
  | succ room =>
    rw [exp]
    apply (begins_operation Level.all room).bind
    rintro left _ rfl
    apply Begins.after (tape.quiet_nextIs .assign)
    intro assigns
    apply Begins.ite
    · apply Begins.ite
      · apply Begins.after tape.quiet_advance
        intro _
        apply (begins_exp room).bind
        rintro value _ rfl
        apply Begins.ret
        rw [Exp.rounds, List.append_nil]
      · exact .misfit tape
    · apply Begins.ret
      exact List.append_nil _

theorem begins_operation (levels : List Level) (room : Nat) :
    Begins (tape.operation levels room) fun e loops => loops = e.rounds := by
  cases room with
  | zero => exact .cutOff
  | succ room =>
    cases levels with
    | nil =>
      rw [operation]
      exact begins_operand room
    | cons level tighter =>
      rw [operation]
      apply (begins_operation tighter room).bind
      rintro left _ rfl
      exact begins_operations level tighter left room

theorem begins_operations (level : Level) (tighter : List Level) (left : Exp) (room : Nat) :
    Begins (tape.operations level tighter left room) fun e loops =>
      left.rounds ++ loops = e.rounds := by
  cases room with
  | zero => exact .cutOff
  | succ room =>
    rw [operations]
    apply Begins.after tape.quiet_current
    intro t
    cases found : level.operator? t.kind with
    | none =>
      apply Begins.ret
      exact List.append_nil _
    | some op =>
      have comparison := comparison_iff found
      by_cases chains : level.chains
      · dsimp only
        rw [if_pos chains]
        have operand : Begins (do
            let _ ← tape.advance
            tape.operation tighter room) fun right loops => loops = right.rounds := by
          apply Begins.after tape.quiet_advance
          intro _
          exact begins_operation tighter room
        apply operand.around.bind
        rintro right _ rfl
        apply (begins_operations level tighter (.binary op left right) room).mono
        intro e loops same
        have other : op ∉ [.equal, .notEqual, .less, .greater, .lessEqual, .greaterEqual] :=
          fun mem => comparison.mp mem chains
        rw [← same, Exp.rounds, if_neg other, List.append_assoc]
      · dsimp only
        rw [if_neg chains]
        apply Begins.after tape.quiet_advance
        intro _
        apply (begins_operation tighter room).bind
        rintro right _ rfl
        apply Begins.after tape.quiet_current
        intro t
        apply Begins.ite
        · exact .misfit tape
        · apply Begins.ret
          rw [Exp.rounds, if_pos (comparison.mpr chains), List.append_nil]

theorem begins_operand (room : Nat) :
    Begins (tape.operand room) fun e loops => loops = e.rounds := by
  cases room with
  | zero => exact .cutOff
  | succ room =>
    have negated (op : UnaryOp) : Begins (do
        let _ ← tape.advance
        return Exp.unary op (← tape.operand room)) fun e loops => loops = e.rounds := by
      apply Begins.after tape.quiet_advance
      intro _
      apply (begins_operand room).bind
      rintro e _ rfl
      apply Begins.ret
      rw [Exp.rounds, List.append_nil]
    rw [operand]
    apply Begins.after (tape.quiet_nextIs .not)
    intro no
    apply Begins.ite
    · exact negated .not
    · apply Begins.after (tape.quiet_nextIs .minus)
      intro minus
      apply Begins.ite
      · exact negated .negate
      · exact begins_term room

theorem begins_term (room : Nat) : Begins (tape.term room) fun e loops => loops = e.rounds := by
  cases room with
  | zero => exact .cutOff
  | succ room =>
    rw [term]
    apply Begins.after tape.quiet_current
    intro t
    cases t.kind with
    | intLiteral | stringLiteral | trueWord | falseWord =>
      apply Begins.after tape.quiet_advance
      intro _
      apply Begins.ret
      rw [Exp.rounds]
    | leftParen =>
      apply Begins.after tape.quiet_advance
      intro _
      apply (begins_exp room).bind
      rintro e _ rfl
      apply Begins.closes
      exact List.append_nil _
    | identifier =>
      apply Begins.after (tape.quiet_kindAhead 1)
      intro next
      apply Begins.ite
      · apply Begins.after tape.quiet_ident
        intro callee
        apply (begins_arguments room).bind
        rintro args _ rfl
        apply Begins.ret
        rw [Exp.rounds, List.append_nil]
      · exact tape.begins_place room
    | _ => exact .misfit tape

theorem begins_arguments (room : Nat) :
    Begins (tape.arguments room) fun args loops => loops = Exp.roundsOfList args := by
  cases room with
  | zero => exact .cutOff
  | succ room =>
    rw [arguments]
    apply Begins.after (tape.quiet_expect .leftParen)
    intro _
    apply (begins_argumentList room).bind
    rintro args _ rfl
    apply Begins.closes
    exact List.append_nil _

theorem begins_argumentList (room : Nat) :
    Begins (tape.argumentList room) fun args loops => loops = Exp.roundsOfList args := by
  cases room with
  | zero => exact .cutOff
  | succ room =>
    rw [argumentList]
    apply Begins.after (tape.quiet_nextIs .rightParen)
    intro closes
    apply Begins.ite
    · apply Begins.ret
      rw [Exp.roundsOfList]
    · apply (begins_exp room).bind
      rintro e _ rfl
      apply (begins_moreArguments room).bind
      rintro args _ rfl
      apply Begins.ret
      rw [Exp.roundsOfList, List.append_nil]

theorem begins_moreArguments (room : Nat) :
    Begins (tape.moreArguments room) fun args loops => loops = Exp.roundsOfMore args := by
  cases room with
  | zero => exact .cutOff
  | succ room =>
    rw [moreArguments]
    apply Begins.after (tape.quiet_nextIs .comma)
    intro goesOn
    apply Begins.ite
    · have argument : Begins (do
          let _ ← tape.advance
          tape.exp room) fun e loops => loops = e.rounds := by
        apply Begins.after tape.quiet_advance
        intro _
        exact begins_exp room
      apply argument.around.bind
      rintro e _ rfl
      apply (begins_moreArguments room).bind
      rintro args _ rfl
      apply Begins.ret
      rw [Exp.roundsOfMore, List.append_nil]
    · apply Begins.ret
      rw [Exp.roundsOfMore]

end

/-! ### Statements -/

theorem begins_condition (room : Nat) :
    Begins (tape.condition room) fun e loops => loops = e.rounds := by
  rw [condition]
  apply Begins.after (tape.quiet_expect .leftParen)
  intro _
  apply (tape.begins_exp room).bind
  rintro e _ rfl
  apply Begins.closes
  exact List.append_nil _

theorem begins_change (target : Exp) (room : Nat) :
    Begins (tape.change target room) fun s loops => target.rounds ++ loops = s.rounds := by
  rw [change]
  apply Begins.after (tape.quiet_nextIs .assign)
  intro assigns
  apply Begins.ite
  · apply Begins.after tape.quiet_advance
    intro _
    apply (tape.begins_exp room).bind
    rintro value _ rfl
    apply Begins.ret
    rw [Stmt.rounds, List.append_nil]
  · apply Begins.after (tape.quiet_nextIs .increment)
    intro increments
    apply Begins.ite
    · apply Begins.after tape.quiet_advance
      intro _
      apply Begins.ret
      rw [Stmt.rounds, List.append_nil]
    · apply Begins.after (tape.quiet_nextIs .decrement)
      intro decrements
      apply Begins.ite
      · apply Begins.after tape.quiet_advance
        intro _
        apply Begins.ret
        rw [Stmt.rounds, List.append_nil]
      · exact .misfit tape

theorem begins_identStmt (room : Nat) :
    Begins (tape.identStmt room) fun s loops => loops = s.rounds := by
  rw [identStmt]
  apply Begins.after (tape.quiet_kindAhead 1)
  intro next
  apply Begins.ite
  · apply Begins.after tape.quiet_ident
    intro callee
    apply (tape.begins_arguments room).bind
    rintro args _ rfl
    apply Begins.closes
    rw [Stmt.rounds, List.append_nil]
  · apply (tape.begins_place room).bind
    rintro target _ rfl
    apply (tape.begins_change target room).bind
    intro s loops same
    apply Begins.closes
    rw [List.append_nil, same]

theorem begins_returned (position : Position) (room : Nat) :
    Begins (tape.returned room) fun value loops =>
      loops = (Stmt.giveBack value position).rounds := by
  rw [returned]
  apply Begins.after (tape.quiet_nextIs .semicolon)
  intro closes
  apply Begins.ite
  · apply Begins.ret
    rw [Stmt.rounds]
  · apply (tape.begins_exp room).bind
    rintro value _ rfl
    apply Begins.ret
    rw [Stmt.rounds, List.append_nil]

mutual

theorem begins_block (room : Nat) :
    Begins (tape.block room) fun b loops => loops = b.rounds := by
  cases room with
  | zero => exact .cutOff
  | succ room =>
    rw [block]
    apply Begins.after (tape.quiet_expect .leftBrace)
    intro _
    apply (tape.begins_varDecls room).bind
    rintro ds _ rfl
    apply (begins_stmts room).bind
    rintro ss _ rfl
    apply Begins.closes
    rw [Block.rounds, List.append_nil]

theorem begins_stmts (room : Nat) :
    Begins (tape.stmts room) fun ss loops => loops = Stmt.roundsOfAll ss := by
  cases room with
  | zero => exact .cutOff
  | succ room =>
    rw [stmts]
    apply Begins.after (tape.quiet_nextIs .rightBrace)
    intro closes
    apply Begins.ite
    · apply Begins.ret
      rw [Stmt.roundsOfAll]
    · apply Begins.after (tape.quiet_nextIs .endOfInput)
      intro ended
      apply Begins.ite
      · apply Begins.ret
        rw [Stmt.roundsOfAll]
      · apply (begins_stmt room).around.bind
        rintro s _ rfl
        apply (begins_stmts room).bind
        rintro ss _ rfl
        apply Begins.ret
        rw [Stmt.roundsOfAll, List.append_nil]

theorem begins_stmt (room : Nat) :
    Begins (tape.stmt room) fun s loops => loops = s.rounds := by
  cases room with
  | zero => exact .cutOff
  | succ room =>
    rw [stmt]
    apply Begins.after tape.quiet_current
    intro t
    cases t.kind with
    | cinWord =>
      apply Begins.after tape.quiet_advance
      intro _
      apply Begins.after (tape.quiet_expect .read)
      intro _
      apply (tape.begins_place room).bind
      rintro target _ rfl
      apply Begins.closes
      rw [Stmt.rounds, List.append_nil]
    | coutWord =>
      apply Begins.after tape.quiet_advance
      intro _
      apply Begins.after (tape.quiet_expect .write)
      intro _
      apply (tape.begins_exp room).bind
      rintro value _ rfl
      apply Begins.closes
      rw [Stmt.rounds, List.append_nil]
    | ifWord =>
      apply Begins.after tape.quiet_advance
      intro _
      apply (tape.begins_condition room).bind
      rintro e _ rfl
      apply (begins_block room).bind
      rintro yes _ rfl
      apply Begins.after (tape.quiet_nextIs .elseWord)
      intro goesOn
      apply Begins.ite
      · apply Begins.after tape.quiet_advance
        intro _
        apply (begins_block room).bind
        rintro no _ rfl
        apply Begins.ret
        rw [Stmt.rounds, List.append_nil, List.append_assoc]
      · apply Begins.ret
        rw [Stmt.rounds, List.append_nil]
    | whileWord | repeatWord =>
      apply Begins.after tape.quiet_advance
      intro _
      apply (tape.begins_condition room).bind
      rintro e _ rfl
      apply (begins_block room).bind
      rintro body _ rfl
      apply Begins.ret
      rw [Stmt.rounds, List.append_nil]
    | returnWord =>
      apply Begins.after tape.quiet_advance
      intro _
      apply (tape.begins_returned t.position room).bind
      rintro value _ rfl
      apply Begins.closes
      exact List.append_nil _
    | identifier => exact tape.begins_identStmt room
    | _ => exact .misfit tape

end

/-! ### Declarations -/

theorem begins_fieldList (room : Nat) : Begins (tape.fieldList room) fun ds loops =>
    loops = List.replicate (ds.length - 1) .fields := by
  rw [fieldList]
  apply Begins.after tape.quiet_varDecl
  intro d
  apply (tape.begins_fields room).bind
  rintro ds _ rfl
  apply Begins.closes
  rw [List.append_nil, List.length_cons, Nat.add_sub_cancel]

theorem begins_structDecl (room : Nat) :
    Begins (tape.structDecl room) fun d loops => loops = d.rounds := by
  rw [structDecl]
  apply Begins.after (tape.quiet_expect .structWord)
  intro _
  apply Begins.after tape.quiet_ident
  intro name
  apply Begins.after (tape.quiet_expect .leftBrace)
  intro _
  apply (tape.begins_fieldList room).bind
  rintro ds _ rfl
  apply Begins.closes
  exact List.append_nil _

theorem begins_fnDecl (resultType : TypeExp) (name : Ident) (room : Nat) :
    Begins (tape.fnDecl resultType name room) fun d loops => loops = d.rounds := by
  rw [fnDecl]
  apply (tape.begins_formals room).bind
  rintro ds _ rfl
  apply (tape.begins_block room).bind
  rintro body _ rfl
  apply Begins.ret
  rw [Decl.rounds, List.append_nil]

theorem quiet_startsStruct : Quiet tape.startsStruct := by
  rw [startsStruct]
  apply Begins.after (tape.quiet_nextIs .structWord)
  intro word
  apply Begins.ite
  · apply Begins.after (tape.quiet_kindAhead 1)
    intro second
    apply Begins.ite
    · apply Begins.after (tape.quiet_kindAhead 2)
      intro third
      apply Begins.ite
      · exact .ret rfl
      · exact .ret rfl
    · exact .ret rfl
  · exact .ret rfl

theorem begins_decl (room : Nat) :
    Begins (tape.decl room) fun d loops => loops = d.rounds := by
  rw [decl]
  apply Begins.after tape.quiet_startsStruct
  intro starts
  apply Begins.ite
  · exact tape.begins_structDecl room
  · apply Begins.after tape.quiet_formal
    intro d
    apply Begins.after (tape.quiet_nextIs .leftParen)
    intro opens
    apply Begins.ite
    · exact tape.begins_fnDecl d.type d.name room
    · exact .closes tape rfl

theorem begins_decls (room : Nat) : Begins (tape.decls room) fun ds loops =>
    loops = Program.rounds ⟨ds⟩ := by
  induction room with
  | zero => exact .cutOff
  | succ room ih =>
    rw [decls]
    apply Begins.after (tape.quiet_nextIs .endOfInput)
    intro ended
    apply Begins.ite
    · exact .ret rfl
    · apply (tape.begins_decl room).around.bind
      rintro d _ rfl
      apply ih.bind
      rintro ds _ rfl
      apply Begins.ret
      rw [List.append_nil]
      rfl

/-- The rounds that a parse notes are those of the program that it gives. -/
theorem begun_of_parse {room : Nat} {p : Program} {s : State}
    (ran : tape.parse room = some (.ok p, s)) : begun s.events = p.rounds := by
  have whole : Begins (tape.program room) fun p loops => loops = p.rounds := by
    rw [program]
    apply (tape.begins_decls room).bind
    rintro ds _ rfl
    apply Begins.ret
    exact List.append_nil _
  obtain ⟨_, same, rfl⟩ := whole ⟨0, []⟩ p s ran
  exact same

end Tape

end Cinder
