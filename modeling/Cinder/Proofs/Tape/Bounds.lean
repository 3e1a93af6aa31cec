import Cinder.Proofs.Tape.Following
import Cinder.Proofs.Tape.Room
import Cinder.Proofs.Tape.Rounds

/-!
# The parser keeps to its tape

Each procedure of the parser on a tape follows the reader of the same phrase. So on every tape that
closes with an end of the input the parser comes to an end, never looks outside the tape or moves
past the first end of the input, and takes a token in every round that it finishes; the rounds that
it does not finish are those around the halt. Before a lexeme is taken, fewer than sixteen calls are
made inside one another, so sixteen for each lexeme that is left are room enough.
-/
namespace Cinder.Tape

open Parse (Lexeme Stuck kindOf forget identOf error_bind length_of_forget)

variable {tape : Tape}

/-! ## Rounds -/

section Rounds

variable {α : Type} {item : Run α} {t : Lexeme} {ts : List Lexeme}
  {outcome : Parse.Outcome α ts.length}

/-- A round takes a lexeme at least if its item does. -/
theorem Follows.roundOf (loop : Loop) (h : tape.Follows item ts (forget outcome)) :
    tape.Follows (Tape.round loop item) ts (forget outcome) := by
  apply h.round
  intro v rest read
  exact length_of_forget read

/-- A round that takes a token before its item. -/
theorem Follows.roundAfter (loop : Loop) (h : tape.Follows item ts (forget outcome)) :
    tape.Follows (Tape.round loop do
      let _ ← tape.advance
      item) (t :: ts) (forget outcome) := by
  apply Follows.round
  · apply Follows.advance.step
    exact h
  · intro v rest read
    exact Nat.lt_succ_of_lt (length_of_forget read)

end Rounds

/-! ## Types and variables -/

theorem follows_ident (ts : List Lexeme) :
    tape.Follows tape.ident ts (forget (Parse.ident ts)) := by
  rw [Parse.forget_ident]
  refine .ofHead (f := fun place => do
    let t ← tape.expect .identifier
    return identOf (t, tape.first + place)) fun head stands => ?_
  refine .expect fun t rest whole _ => ?_
  subst whole
  cases stands
  exact .ret

theorem follows_typeExp (ts : List Lexeme) :
    tape.Follows tape.typeExp ts (forget (Parse.typeExp ts)) := by
  cases ts with
  | nil =>
    refine .current_nil fun t last => ?_
    rw [last]
    exact .misfit
  | cons t ts =>
    rw [Parse.forget_typeExp_cons]
    refine .current_cons fun _ => ?_
    rw [← kindOf]
    cases kindOf t with
    | intWord | boolWord | voidWord =>
      apply Follows.advance.step
      exact .ret
    | structWord =>
      apply Follows.advance.step
      exact (follows_ident ts).returns
    | _ => exact .misfit

theorem follows_formal (ts : List Lexeme) :
    tape.Follows tape.formal ts (forget (Parse.formal ts)) := by
  rw [formal, Parse.forget_formal]
  apply (follows_typeExp ts).bind
  intro type rest _
  exact (follows_ident rest).returns

theorem follows_varDecl (ts : List Lexeme) :
    tape.Follows tape.varDecl ts (forget (Parse.varDecl ts)) := by
  rw [varDecl, Parse.forget_varDecl]
  apply (follows_formal ts).bind
  intro d rest _
  exact .closes

theorem follows_varDecls {room : Nat} (ts : List Lexeme) (enough : 16 * ts.length < room) :
    tape.Follows (tape.varDecls room) ts (forget (Parse.varDecls ts)) := by
  induction room generalizing ts with
  | zero => cases enough
  | succ room ih =>
    rw [varDecls]
    cases ts with
    | nil =>
      rw [Parse.forget_varDecls_nil]
      refine .current_nil fun t last => ?_
      rw [last]
      exact .ret
    | cons t ts =>
      rw [Parse.forget_varDecls_cons]
      refine .current_cons fun _ => ?_
      rw [← kindOf]
      split
      · apply ((follows_varDecl (t :: ts)).roundOf .variables).bind
        intro d rest read
        have shorter := length_of_forget read
        exact (ih rest (by omega)).returns
      · exact .ret

/-- What is read of the fields after the first ones. -/
def fieldsAfter : List Lexeme → Except Stuck (List VarDecl × List Lexeme)
  | [] => .error ⟨[]⟩
  | t :: ts => if kindOf t = .rightBrace then .ok ([], ts) else forget (Parse.fieldsFrom (t :: ts))

theorem fieldsFrom_eq (ts : List Lexeme) :
    forget (Parse.fieldsFrom ts) = (do
      let (field, rest) ← forget (Parse.varDecl ts)
      let (fields, rest) ← fieldsAfter rest
      return (field :: fields, rest)) := by
  rw [Parse.forget_fieldsFrom]
  congr 1
  funext r
  obtain ⟨field, rest⟩ := r
  cases rest with
  | nil => rfl
  | cons t rest =>
    simp only [fieldsAfter]
    split <;> rfl

theorem follows_fields {room : Nat} (ts : List Lexeme) (enough : 16 * ts.length < room) :
    tape.Follows (do
      let ds ← tape.fields room
      let _ ← tape.expect .rightBrace
      return ds) ts (fieldsAfter ts) := by
  induction room generalizing ts with
  | zero => cases enough
  | succ room ih =>
    rw [fields, Follows.nextIs_bind]
    cases ts with
    | nil =>
      -- only a brace is looked for, so it is the next field that fails at the end of the input
      have nothing : forget (Parse.varDecl []) = .error ⟨[]⟩ := by
        rw [Parse.forget_varDecl, Parse.forget_formal]
        rfl
      have fails : tape.Follows (round .fields tape.varDecl) [] (.error ⟨[]⟩) := by
        rw [← nothing]
        exact (follows_varDecl []).roundOf .fields
      refine .nextIs_nil ?_
      apply Follows.assoc
      exact fails.stops
    | cons t ts =>
      rw [fieldsAfter]
      split
      · next brace =>
        apply Follows.nextIs_yes brace
        apply Follows.ret.step
        apply (Follows.expect_yes brace).step
        exact .ret
      · next other =>
        rw [fieldsFrom_eq]
        apply Follows.nextIs_no other
        apply Follows.assoc
        apply ((follows_varDecl (t :: ts)).roundOf .fields).bind
        intro d rest read
        have shorter := length_of_forget read
        exact (ih rest (by omega)).collect

/-! ## Lists in parentheses -/

section Lists

variable {α : Type} {item : Run α} {more list : Run (List α)}
  {read : (us : List Lexeme) → Parse.Outcome α us.length}
  {items : List Lexeme → Except Stuck (List α × List Lexeme)}

/-- What is read of a list in parentheses after its first items. -/
def itemsAfter (items : List Lexeme → Except Stuck (List α × List Lexeme)) :
    List Lexeme → Except Stuck (List α × List Lexeme)
  | [] => .error ⟨[]⟩
  | t :: ts =>
    if kindOf t = .comma then items ts
    else if kindOf t = .rightParen then .ok ([], ts)
    else .error ⟨t :: ts⟩

theorem bind_itemsAfter (first : α) (ts : List Lexeme) :
    (do
      let (more, rest) ← itemsAfter items ts
      return (first :: more, rest)) =
    (match ts with
      | [] => .error ⟨[]⟩
      | t :: ts =>
        if kindOf t = .comma then do
          let (more, rest) ← items ts
          return (first :: more, rest)
        else if kindOf t = .rightParen then .ok ([first], ts)
        else .error ⟨t :: ts⟩) := by
  cases ts with
  | nil => rfl
  | cons t ts =>
    simp only [itemsAfter]
    split
    · rfl
    · split <;> rfl

/-- The loop over the items after commas, up to the closing parenthesis, if its later rounds are
followed. -/
theorem follows_more {loop : Loop} (unfolds : list = (do
      if ← tape.nextIs .comma then
        let v ← round loop do
          let _ ← tape.advance
          item
        return v :: (← more)
      else return []))
    (reads : ∀ us, items us = (do
      let (v, rest) ← forget (read us)
      let (more, rest) ← itemsAfter items rest
      return (v :: more, rest)))
    (ts : List Lexeme) (one : ∀ us, us.length < ts.length → tape.Follows item us (forget (read us)))
    (again : ∀ us, us.length < ts.length → tape.Follows (do
      let vs ← more
      let _ ← tape.expect .rightParen
      return vs) us (itemsAfter items us)) :
    tape.Follows (do
      let vs ← list
      let _ ← tape.expect .rightParen
      return vs) ts (itemsAfter items ts) := by
  rw [unfolds, Follows.nextIs_bind]
  cases ts with
  | nil =>
    have missing : tape.Follows (tape.expect .rightParen) [] (.error ⟨[]⟩) := .expect_nil
    refine .nextIs_nil ?_
    apply Follows.ret.step
    exact missing.stops
  | cons t ts =>
    rw [itemsAfter]
    split
    · next comma =>
      rw [reads]
      apply Follows.nextIs_yes comma
      apply Follows.assoc
      apply ((one ts (Nat.lt_succ_self _)).roundAfter loop).bind
      intro v rest read
      have shorter := length_of_forget read
      exact (again rest (Nat.lt_succ_of_lt shorter)).collect
    · next other =>
      apply Follows.nextIs_no other
      apply Follows.ret.step
      split
      · next paren =>
        apply (Follows.expect_yes paren).step
        exact .ret
      · next differs => exact (Follows.expect_no differs).stops

/-- The whole list, if items and what comes after them are followed. -/
theorem follows_list (unfolds : list = (do
      if ← tape.nextIs .rightParen then return []
      else
        let v ← item
        return v :: (← more)))
    (reads : ∀ us, items us = (do
      let (v, rest) ← forget (read us)
      let (more, rest) ← itemsAfter items rest
      return (v :: more, rest)))
    (nothing : forget (read []) = .error ⟨[]⟩)
    (ts : List Lexeme) (one : ∀ us, us.length < ts.length → tape.Follows item us (forget (read us)))
    (others : ∀ us, us.length < ts.length → tape.Follows (do
      let vs ← more
      let _ ← tape.expect .rightParen
      return vs) us (itemsAfter items us)) :
    tape.Follows (do
      let _ ← tape.expect .leftParen
      let vs ← list
      let _ ← tape.expect .rightParen
      return vs) ts (do
      let (_, rest) ← forget (Parse.expect .leftParen ts)
      match rest with
      | [] => .error ⟨[]⟩
      | t :: rest => if kindOf t = .rightParen then .ok ([], rest) else items (t :: rest)) := by
  refine .expect fun t rest whole _ => ?_
  have shorter : rest.length < ts.length := by
    rw [whole, List.length_cons]
    exact Nat.lt_succ_self _
  rw [unfolds, Follows.nextIs_bind]
  cases rest with
  | nil =>
    have fails := one [] shorter
    rw [nothing] at fails
    refine .nextIs_nil ?_
    apply Follows.assoc
    exact fails.stops
  | cons u rest =>
    dsimp only
    split
    · next paren =>
      apply Follows.nextIs_yes paren
      apply Follows.ret.step
      apply (Follows.expect_yes paren).step
      exact .ret
    · next other =>
      rw [reads]
      apply Follows.nextIs_no other
      apply Follows.assoc
      apply (one (u :: rest) shorter).bind
      intro v rest' read
      exact (others rest' (Nat.lt_trans (length_of_forget read) shorter)).collect

end Lists

theorem formalsFrom_eq (ts : List Lexeme) :
    forget (Parse.formalsFrom ts) = (do
      let (decl, rest) ← forget (Parse.formal ts)
      let (decls, rest) ← itemsAfter (fun us => forget (Parse.formalsFrom us)) rest
      return (decl :: decls, rest)) := by
  rw [Parse.forget_formalsFrom]
  congr 1
  funext r
  obtain ⟨decl, rest⟩ := r
  exact (bind_itemsAfter decl rest).symm

theorem follows_moreFormals {room : Nat} (ts : List Lexeme) (enough : 16 * ts.length < room) :
    tape.Follows (do
      let ds ← tape.moreFormals room
      let _ ← tape.expect .rightParen
      return ds) ts (itemsAfter (fun us => forget (Parse.formalsFrom us)) ts) := by
  induction room generalizing ts with
  | zero => cases enough
  | succ room ih =>
    exact follows_more (moreFormals.eq_2 tape room) formalsFrom_eq ts
      (fun us _ => follows_formal us) fun us shorter => ih us (by omega)

theorem follows_formals {room : Nat} (ts : List Lexeme) (enough : 16 * ts.length < room) :
    tape.Follows (tape.formals room) ts (forget (Parse.formals ts)) := by
  have nothing : forget (Parse.formal []) = .error ⟨[]⟩ := by
    rw [Parse.forget_formal]
    rfl
  rw [Parse.forget_formals]
  exact follows_list rfl formalsFrom_eq nothing ts (fun us _ => follows_formal us)
    fun us shorter => follows_moreFormals us (by omega)

/-! ## Expressions -/

theorem follows_selections {room : Nat} (base : Exp) (ts : List Lexeme)
    (enough : 16 * ts.length < room) :
    tape.Follows (tape.selections base room) ts (forget (Parse.selections base ts)) := by
  induction room generalizing base ts with
  | zero => cases enough
  | succ room ih =>
    rw [selections]
    cases ts with
    | nil =>
      rw [Parse.forget_selections_nil]
      exact .nextIs_nil .ret
    | cons t ts =>
      rw [Parse.forget_selections_cons]
      split
      · next dot =>
        rw [List.length_cons] at enough
        apply Follows.nextIs_yes dot
        apply ((follows_ident ts).roundAfter .selections).bind
        intro name rest read
        have shorter := length_of_forget read
        exact ih (.dot base name) rest (by omega)
      · next other => exact .nextIs_no other .ret

theorem follows_place {room : Nat} (ts : List Lexeme) (enough : 16 * ts.length < room) :
    tape.Follows (tape.place room) ts (forget (Parse.place ts)) := by
  rw [place, Parse.forget_place]
  apply (follows_ident ts).bind
  intro base rest read
  have shorter := length_of_forget read
  exact follows_selections (.ident base) rest (by omega)

theorem follows_ident_of_kind {t : Lexeme} (kind : kindOf t = .identifier) (ts : List Lexeme) :
    tape.Follows tape.ident (t :: ts) (.ok (identOf t, ts)) := by
  have name := @follows_ident tape (t :: ts)
  rwa [Parse.forget_ident, Parse.forget_expect_cons, if_pos kind] at name

theorem operation_nil (levels : List Level) :
    forget (Parse.operation levels []) = .error ⟨[]⟩ := by
  induction levels with
  | nil => rw [Parse.forget_operation_nil, Parse.forget_operand_nil]
  | cons level tighter ih => rw [Parse.forget_operation_cons, ih, error_bind]

theorem exp_nil : forget (Parse.exp []) = .error ⟨[]⟩ := by
  rw [Parse.forget_exp, operation_nil, error_bind]

theorem argumentsFrom_eq (ts : List Lexeme) :
    forget (Parse.argumentsFrom ts) = (do
      let (e, rest) ← forget (Parse.exp ts)
      let (args, rest) ← itemsAfter (fun us => forget (Parse.argumentsFrom us)) rest
      return (e :: args, rest)) := by
  rw [Parse.forget_argumentsFrom]
  congr 1
  funext r
  obtain ⟨e, rest⟩ := r
  exact (bind_itemsAfter e rest).symm

theorem operator?_endOfInput (level : Level) : level.operator? .endOfInput = none := rfl

-- what is added to the room for the lexemes is the number of calls before one of them is taken
mutual

theorem follows_exp {room : Nat} (ts : List Lexeme) (enough : 16 * ts.length + 10 < room) :
    tape.Follows (tape.exp room) ts (forget (Parse.exp ts)) := by
  cases room with
  | zero => cases enough
  | succ room =>
    rw [exp, Parse.forget_exp]
    have levels : Level.all.length = 5 := rfl
    apply (follows_operation Level.all ts (by omega) (by omega)).bind
    intro left rest read
    have shorter := length_of_forget read
    cases rest with
    | nil =>
      refine .nextIs_nil ?_
      exact .ret
    | cons t rest =>
      rw [List.length_cons] at shorter
      by_cases assigns : kindOf t = .assign
      · simp only [if_pos assigns]
        apply Follows.nextIs_yes assigns
        split
        · apply Follows.advance.step
          exact (follows_exp rest (by omega)).returns
        · exact .misfit
      · simp only [if_neg assigns]
        apply Follows.nextIs_no assigns
        exact .ret
termination_by room

theorem follows_operation {room : Nat} (levels : List Level) (ts : List Lexeme)
    (few : levels.length ≤ 5) (enough : 16 * ts.length + levels.length + 3 < room) :
    tape.Follows (tape.operation levels room) ts (forget (Parse.operation levels ts)) := by
  cases room with
  | zero => cases enough
  | succ room =>
    cases levels with
    | nil =>
      rw [operation, Parse.forget_operation_nil]
      rw [List.length_nil] at enough
      exact follows_operand ts (by omega)
    | cons level tighter =>
      rw [operation, Parse.forget_operation_cons]
      rw [List.length_cons] at few enough
      apply (follows_operation tighter ts (by omega) (by omega)).bind
      intro left rest read
      have shorter := length_of_forget read
      exact follows_operations level tighter left rest few (by omega)
termination_by room

theorem follows_operations {room : Nat} (level : Level) (tighter : List Level) (left : Exp)
    (ts : List Lexeme) (few : tighter.length + 1 ≤ 5) (enough : 16 * ts.length < room) :
    tape.Follows (tape.operations level tighter left room) ts
      (forget (Parse.operations level tighter left ts)) := by
  cases room with
  | zero => cases enough
  | succ room =>
    rw [operations]
    cases ts with
    | nil =>
      rw [Parse.forget_operations_nil]
      refine .current_nil fun t last => ?_
      rw [last, operator?_endOfInput]
      exact .ret
    | cons t ts =>
      rw [Parse.forget_operations_cons]
      rw [List.length_cons] at enough
      refine .current_cons fun _ => ?_
      rw [← kindOf]
      cases level.operator? (kindOf t) with
      | none => exact .ret
      | some op =>
        dsimp only
        have operand := @follows_operation room tighter ts (by omega) (by omega)
        split
        · apply (operand.roundAfter .operators).bind
          intro right rest read
          have shorter := length_of_forget read
          exact follows_operations level tighter (.binary op left right) rest few (by omega)
        · apply Follows.advance.step
          apply operand.bind
          intro right rest _
          cases rest with
          | nil =>
            refine .current_nil fun t last => ?_
            rw [last, operator?_endOfInput]
            exact .ret
          | cons u rest =>
            refine .current_cons fun _ => ?_
            rw [← kindOf, Parse.startsOperation]
            split
            · exact .misfit
            · exact .ret
termination_by room

theorem follows_operand {room : Nat} (ts : List Lexeme) (enough : 16 * ts.length + 2 < room) :
    tape.Follows (tape.operand room) ts (forget (Parse.operand ts)) := by
  cases room with
  | zero => cases enough
  | succ room =>
    rw [operand]
    cases ts with
    | nil =>
      rw [Parse.forget_operand_nil, ← Parse.forget_term_nil]
      refine .nextIs_nil ?_
      refine .nextIs_nil ?_
      exact follows_term [] (by omega)
    | cons t ts =>
      rw [Parse.forget_operand_cons]
      have fewer : 16 * ts.length + 2 < room := by
        rw [List.length_cons] at enough
        omega
      have operand := follows_operand ts fewer
      split
      · next kind =>
        apply Follows.nextIs_yes kind
        apply Follows.advance.step
        exact operand.returns
      · next kind =>
        have other : kindOf t ≠ .not := by
          rw [kind]
          decide
        apply Follows.nextIs_no other
        apply Follows.nextIs_yes kind
        apply Follows.advance.step
        exact operand.returns
      · next no minus =>
        apply Follows.nextIs_no no
        apply Follows.nextIs_no minus
        exact follows_term (t :: ts) (by omega)
termination_by room

theorem follows_term {room : Nat} (ts : List Lexeme) (enough : 16 * ts.length + 1 < room) :
    tape.Follows (tape.term room) ts (forget (Parse.term ts)) := by
  cases room with
  | zero => cases enough
  | succ room =>
    rw [term]
    cases ts with
    | nil =>
      rw [Parse.forget_term_nil]
      refine .current_nil fun t last => ?_
      rw [last]
      exact .misfit
    | cons t ts =>
      rw [Parse.forget_term_cons]
      refine .current_cons fun _ => ?_
      rw [← kindOf]
      have fewer : 16 * ts.length + 10 < room := by
        rw [List.length_cons] at enough
        omega
      cases kind : kindOf t with
      | intLiteral | stringLiteral | trueWord | falseWord =>
        apply Follows.advance.step
        exact .ret
      | leftParen =>
        apply Follows.advance.step
        apply (follows_exp ts fewer).bind
        intro e rest _
        exact .closes
      | identifier =>
        dsimp only
        refine .ahead (Nat.le_add_left 1 _) (fun opens => ?_) fun other => ?_
        · have args := @follows_arguments room ts (by omega)
          rw [List.drop_one, List.tail_cons] at opens
          rw [if_pos opens]
          apply (follows_ident_of_kind kind ts).step
          exact args.returns
        · rw [List.drop_one, List.tail_cons] at other
          rw [if_neg (Bool.eq_false_iff.mp other)]
          exact follows_place (t :: ts) (by omega)
      | _ => exact .misfit
termination_by room

theorem follows_arguments {room : Nat} (ts : List Lexeme) (enough : 16 * ts.length + 1 < room) :
    tape.Follows (tape.arguments room) ts (forget (Parse.arguments ts)) := by
  obtain ⟨room, rfl⟩ := Nat.exists_eq_add_of_le' (show 2 ≤ room by omega)
  rw [arguments, Parse.forget_arguments]
  refine follows_list (argumentList.eq_2 tape room) argumentsFrom_eq exp_nil ts
    (fun us shorter => ?_) fun us shorter => ?_
  · exact follows_exp us (by omega)
  · exact follows_moreArguments us (by omega)
termination_by room

theorem follows_moreArguments {room : Nat} (ts : List Lexeme) (enough : 16 * ts.length < room) :
    tape.Follows (do
      let args ← tape.moreArguments room
      let _ ← tape.expect .rightParen
      return args) ts (itemsAfter (fun us => forget (Parse.argumentsFrom us)) ts) := by
  cases room with
  | zero => cases enough
  | succ room =>
    refine follows_more (moreArguments.eq_2 tape room) argumentsFrom_eq ts (fun us shorter => ?_)
      fun us shorter => ?_
    · exact follows_exp us (by omega)
    · exact follows_moreArguments us (by omega)
termination_by room

end

/-! ## Statements -/

theorem follows_condition {room : Nat} (ts : List Lexeme) (enough : 16 * ts.length < room) :
    tape.Follows (tape.condition room) ts (forget (Parse.condition ts)) := by
  rw [condition, Parse.forget_condition]
  refine .expect fun t rest whole _ => ?_
  rw [whole, List.length_cons] at enough
  apply (follows_exp rest (by omega)).bind
  intro e rest' _
  exact .closes

theorem closedExp_returns {α : Type} (g : Exp → α) (ts : List Lexeme) :
    (do
      let (e, rest) ← forget (Parse.closedExp ts)
      return (g e, rest)) = (do
      let (e, rest) ← forget (Parse.exp ts)
      let (_, rest) ← forget (Parse.expect .semicolon rest)
      return (g e, rest)) := by
  rw [Parse.forget_closedExp, bind_assoc]
  congr 1
  funext r
  obtain ⟨e, rest⟩ := r
  exact bind_assoc ..

theorem follows_returned {room : Nat} (position : Position) (ts : List Lexeme)
    (enough : 16 * ts.length + 10 < room) :
    tape.Follows (do
      let value ← tape.returned room
      let _ ← tape.expect .semicolon
      return .giveBack value position) ts (forget (Parse.returnStmt position ts)) := by
  rw [returned, Follows.nextIs_bind]
  cases ts with
  | nil =>
    have fails := @follows_exp tape room [] enough
    rw [exp_nil] at fails
    refine .nextIs_nil ?_
    apply Follows.assoc
    exact fails.stops
  | cons t ts =>
    rw [Parse.forget_returnStmt_cons]
    split
    · next closed =>
      apply Follows.nextIs_yes closed
      apply Follows.ret.step
      apply (Follows.expect_yes closed).step
      exact .ret
    · next other =>
      refine .of_eq ?_ (closedExp_returns (fun e => Stmt.giveBack (some e) position) (t :: ts))
      apply Follows.nextIs_no other
      apply Follows.assoc
      apply (follows_exp (t :: ts) enough).bind
      intro e rest _
      apply Follows.ret.step
      exact .closes

theorem follows_change {room : Nat} (target : Exp) (ts : List Lexeme) :
    16 * ts.length < room → tape.Follows (do
      let s ← tape.change target room
      let _ ← tape.expect .semicolon
      return s) ts (match ts with
      | [] => .error ⟨[]⟩
      | t :: rest =>
        match kindOf t with
        | .assign => do
          let (value, rest) ← forget (Parse.closedExp rest)
          return (.assign target value, rest)
        | .increment => do
          let (_, rest) ← forget (Parse.expect .semicolon rest)
          return (.increment target, rest)
        | .decrement => do
          let (_, rest) ← forget (Parse.expect .semicolon rest)
          return (.decrement target, rest)
        | _ => .error ⟨t :: rest⟩) := by
  intro enough
  have fails (us : List Lexeme) : tape.Follows (do
      let s ← (tape.misfit : Run Stmt)
      let _ ← tape.expect .semicolon
      return s) us (.error ⟨us⟩) := by
    apply Follows.stops
    exact .misfit
  rw [change, Follows.nextIs_bind, Follows.nextIs_bind, Follows.nextIs_bind]
  cases ts with
  | nil =>
    refine .nextIs_nil ?_
    refine .nextIs_nil ?_
    refine .nextIs_nil ?_
    exact fails []
  | cons t ts =>
    dsimp only
    rw [List.length_cons] at enough
    cases kind : kindOf t with
    | assign =>
      refine .of_eq ?_ (closedExp_returns (Stmt.assign target) ts)
      apply Follows.nextIs_yes kind
      apply Follows.assoc
      apply Follows.advance.step
      apply Follows.assoc
      apply (follows_exp ts (by omega)).bind
      intro value rest _
      apply Follows.ret.step
      exact .closes
    | increment =>
      apply Follows.nextIs_no (by simp [kind])
      apply Follows.nextIs_yes kind
      apply Follows.assoc
      apply Follows.advance.step
      apply Follows.ret.step
      exact .closes
    | decrement =>
      apply Follows.nextIs_no (by simp [kind])
      apply Follows.nextIs_no (by simp [kind])
      apply Follows.nextIs_yes kind
      apply Follows.assoc
      apply Follows.advance.step
      apply Follows.ret.step
      exact .closes
    | _ =>
      apply Follows.nextIs_no (by simp [kind])
      apply Follows.nextIs_no (by simp [kind])
      apply Follows.nextIs_no (by simp [kind])
      exact fails (t :: ts)

theorem follows_identStmt {room : Nat} {t : Lexeme} (kind : kindOf t = .identifier)
    (ts : List Lexeme) (enough : 16 * (t :: ts).length < room) :
    tape.Follows (tape.identStmt room) (t :: ts)
      (if Parse.nextIs .leftParen ts then forget (Parse.callStmt (identOf t) ts)
        else forget (Parse.placeStmt (t :: ts))) := by
  rw [identStmt]
  refine .ahead (Nat.le_add_left 1 _) (fun opens => ?_) fun other => ?_
  · rw [List.drop_one, List.tail_cons] at opens
    rw [if_pos opens, Parse.forget_callStmt]
    rw [List.length_cons] at enough
    apply (follows_ident_of_kind kind ts).step
    apply (follows_arguments ts (by omega)).bind
    intro args rest _
    exact .closes
  · rw [List.drop_one, List.tail_cons] at other
    rw [if_neg (Bool.eq_false_iff.mp other), Parse.forget_placeStmt]
    apply (follows_place (t :: ts) enough).bind
    intro target rest read
    have shorter := length_of_forget read
    exact follows_change target rest (by omega)

theorem governed_bind {α : Type}
    (g : (Exp × Block) × List Lexeme → Except Stuck (α × List Lexeme)) (ts : List Lexeme) :
    Parse.governed ts >>= g = (do
      let (e, rest) ← forget (Parse.condition ts)
      let (body, rest) ← forget (Parse.block rest)
      g ((e, body), rest)) := by
  rw [Parse.governed, bind_assoc]
  congr 1
  funext r
  obtain ⟨e, rest⟩ := r
  exact bind_assoc ..

/-- A condition and a block, if blocks are followed. -/
theorem Follows.governed {room : Nat} {α : Type} {f : Exp → Block → Run α}
    {g : (Exp × Block) × List Lexeme → Except Stuck (α × List Lexeme)} {ts : List Lexeme}
    (enough : 16 * ts.length < room)
    (blocks : ∀ us : List Lexeme, us.length < ts.length →
      tape.Follows (tape.block room) us (forget (Parse.block us)))
    (next : ∀ e body (rest : List Lexeme), rest.length < ts.length →
      tape.Follows (f e body) rest (g ((e, body), rest))) :
    tape.Follows (do
      let e ← tape.condition room
      let body ← tape.block room
      f e body) ts (Parse.governed ts >>= g) := by
  rw [governed_bind g ts]
  apply (follows_condition ts enough).bind
  intro e rest read
  have shorter := length_of_forget read
  apply (blocks rest shorter).bind
  intro body rest' read'
  exact next e body rest' (Nat.lt_trans (length_of_forget read') shorter)

mutual

theorem follows_block {room : Nat} (ts : List Lexeme) (enough : 16 * ts.length < room) :
    tape.Follows (tape.block room) ts (forget (Parse.block ts)) := by
  cases room with
  | zero => cases enough
  | succ room =>
    rw [block, Parse.forget_block]
    refine .expect fun t rest whole _ => ?_
    rw [whole, List.length_cons] at enough
    apply (follows_varDecls rest (by omega)).bind
    intro ds rest' read
    have shorter := length_of_forget read
    apply (follows_stmts rest' (by omega)).bind
    intro ss rest'' _
    exact .closes
termination_by room

theorem follows_stmts {room : Nat} (ts : List Lexeme) (enough : 16 * ts.length + 2 < room) :
    tape.Follows (tape.stmts room) ts (forget (Parse.stmts ts)) := by
  cases room with
  | zero => cases enough
  | succ room =>
    rw [stmts]
    cases ts with
    | nil =>
      rw [Parse.forget_stmts_nil]
      refine .nextIs_nil ?_
      apply Follows.nextIs_end
      exact .ret
    | cons t ts =>
      rw [Parse.forget_stmts_cons]
      split
      · next brace =>
        apply Follows.nextIs_yes brace
        exact .ret
      · next other =>
        have one := @follows_stmt room (t :: ts) (by omega)
        apply Follows.nextIs_no other
        apply Follows.nextIs_more
        apply (one.roundOf .statements).bind
        intro s rest read
        have shorter := length_of_forget read
        exact (follows_stmts rest (by omega)).returns
termination_by room

theorem follows_stmt {room : Nat} (ts : List Lexeme) (enough : 16 * ts.length + 1 < room) :
    tape.Follows (tape.stmt room) ts (forget (Parse.stmt ts)) := by
  cases room with
  | zero => cases enough
  | succ room =>
    rw [stmt]
    cases ts with
    | nil =>
      rw [Parse.forget_stmt_nil]
      refine .current_nil fun t last => ?_
      rw [last]
      exact .misfit
    | cons t ts =>
      rw [Parse.forget_stmt_cons]
      refine .current_cons fun _ => ?_
      rw [← kindOf]
      have fewer : 16 * ts.length + 10 < room := by
        rw [List.length_cons] at enough
        omega
      cases kind : kindOf t with
      | cinWord =>
        dsimp only
        rw [Parse.forget_readStmt]
        apply Follows.advance.step
        refine .expect fun _ rest whole _ => ?_
        rw [whole, List.length_cons] at fewer
        apply (follows_place rest (by omega)).bind
        intro target rest' _
        exact .closes
      | coutWord =>
        dsimp only
        rw [Parse.forget_writeStmt]
        apply Follows.advance.step
        refine .expect fun _ rest whole _ => ?_
        rw [whole, List.length_cons] at fewer
        refine .of_eq ?_ (closedExp_returns Stmt.write rest)
        apply (follows_exp rest (by omega)).bind
        intro value rest' _
        exact .closes
      | ifWord =>
        apply Follows.advance.step
        refine .governed (by omega) (fun us shorter => follows_block us (by omega)) ?_
        intro e yes rest shorter
        cases rest with
        | nil =>
          refine .nextIs_nil ?_
          exact .ret
        | cons u rest =>
          rw [List.length_cons] at shorter
          by_cases other : kindOf u = .elseWord
          · have found : Parse.nextIs .elseWord (u :: rest) = true := decide_eq_true other
            simp only [if_pos found]
            apply Follows.nextIs_yes other
            apply Follows.advance.step
            exact (follows_block rest (by omega)).returns
          · have missing : ¬ Parse.nextIs .elseWord (u :: rest) = true := by
              simpa [Parse.nextIs] using other
            simp only [if_neg missing]
            apply Follows.nextIs_no other
            exact .ret
      | whileWord | repeatWord =>
        apply Follows.advance.step
        refine .governed (by omega) (fun us shorter => follows_block us (by omega)) ?_
        intro e body rest _
        exact .ret
      | returnWord =>
        apply Follows.advance.step
        exact follows_returned t.1.position ts fewer
      | identifier => exact follows_identStmt kind ts (by omega)
      | _ => exact .misfit
termination_by room

end

/-! ## Declarations -/

theorem follows_fieldList {room : Nat} (ts : List Lexeme) (enough : 16 * ts.length < room) :
    tape.Follows (tape.fieldList room) ts (forget (Parse.fieldsFrom ts)) := by
  rw [fieldList, fieldsFrom_eq]
  apply (follows_varDecl ts).bind
  intro d rest read
  have shorter := length_of_forget read
  have more := (@follows_fields tape room rest (by omega)).returns (g := (d :: ·))
  simpa only [bind_assoc, pure_bind] using more

theorem follows_structDecl {room : Nat} (ts : List Lexeme) (enough : 16 * ts.length < room) :
    tape.Follows (tape.structDecl room) ts (forget (Parse.structDecl ts)) := by
  rw [structDecl, Parse.forget_structDecl]
  refine .expect fun _ rest whole _ => ?_
  rw [whole, List.length_cons] at enough
  apply (follows_ident rest).bind
  intro name rest' read
  have shorter := length_of_forget read
  refine .expect fun _ rest'' whole' _ => ?_
  rw [whole', List.length_cons] at shorter
  apply (follows_fieldList rest'' (by omega)).bind
  intro ds left _
  exact .closes

theorem follows_fnDecl {room : Nat} (resultType : TypeExp) (name : Ident) (ts : List Lexeme)
    (enough : 16 * ts.length < room) :
    tape.Follows (tape.fnDecl resultType name room) ts
      (forget (Parse.fnDecl resultType name ts)) := by
  rw [fnDecl, Parse.forget_fnDecl]
  apply (follows_formals ts enough).bind
  intro ds rest read
  have shorter := length_of_forget read
  exact (follows_block rest (by omega)).returns

theorem follows_startsStruct (ts : List Lexeme) :
    tape.Follows tape.startsStruct ts (.ok (Parse.startsStruct ts, ts)) := by
  cases ts with
  | nil =>
    refine .nextIs_nil ?_
    exact .ret
  | cons t ts =>
    rw [Parse.startsStruct_cons]
    by_cases word : kindOf t = .structWord
    · rw [decide_eq_true word, Bool.true_and]
      apply Follows.nextIs_yes word
      refine .ahead (Nat.le_add_left 1 _) (fun name : Parse.nextIs .identifier ts = true => ?_)
        fun other : Parse.nextIs .identifier ts = false => ?_
      · -- the second look ahead stays on the tape because the first one found a name
        have within : 1 ≤ ts.length := by
          cases ts with
          | nil => cases name
          | cons u ts => exact Nat.le_add_left ..
        rw [name, Bool.true_and]
        refine .ahead (Nat.succ_le_succ within)
          (fun brace : Parse.nextIs .leftBrace (ts.drop 1) = true => ?_)
          fun other : Parse.nextIs .leftBrace (ts.drop 1) = false => ?_
        · rw [brace]
          exact .ret
        · rw [other]
          exact .ret
      · rw [other, Bool.false_and]
        exact .ret
    · rw [decide_eq_false word, Bool.false_and, Bool.false_and]
      apply Follows.nextIs_no word
      exact .ret

theorem follows_decl {room : Nat} (ts : List Lexeme) (enough : 16 * ts.length < room) :
    tape.Follows (tape.decl room) ts (forget (Parse.decl ts)) := by
  rw [decl, Parse.forget_decl]
  apply (follows_startsStruct ts).step
  split
  · exact follows_structDecl ts enough
  · rw [Parse.forget_varOrFnDecl]
    apply (follows_formal ts).bind
    intro d rest read
    have shorter := length_of_forget read
    refine .nextIs_ite ?_ ?_
    · exact follows_fnDecl d.type d.name rest (by omega)
    · exact .closes

theorem decls_returns (t : Lexeme) (ts : List Lexeme) :
    (do return (← Parse.decls (t :: ts), ([] : List Lexeme))) = (do
      let (d, rest) ← forget (Parse.decl (t :: ts))
      let more ← Parse.decls rest
      return (d :: more, [])) := by
  rw [Parse.decls_cons, bind_assoc]
  congr 1
  funext r
  obtain ⟨d, rest⟩ := r
  exact bind_assoc ..

theorem follows_decls {room : Nat} (ts : List Lexeme) (enough : 16 * ts.length + 1 < room) :
    tape.Follows (tape.decls room) ts (do return (← Parse.decls ts, [])) := by
  induction room generalizing ts with
  | zero => cases enough
  | succ room ih =>
    rw [decls]
    cases ts with
    | nil =>
      rw [Parse.decls_nil]
      apply Follows.nextIs_end
      exact .ret
    | cons t ts =>
      have one := @follows_decl tape room (t :: ts) (by omega)
      rw [decls_returns t ts]
      apply Follows.nextIs_more
      apply (one.roundOf .declarations).bind
      intro d rest read
      have shorter := length_of_forget read
      refine (ih rest (by omega)).returns.of_eq ?_
      dsimp only
      cases Parse.decls rest <;> rfl

/-! ## The whole input -/

theorem stands_zipIdx {tape : Tape} {t : Token} {front back : List Token} (used : List Token)
    (whole : tape.tokens = used ++ front ++ t :: back)
    (before : ∀ u ∈ front, u.kind ≠ .endOfInput) (last : t.kind = .endOfInput)
    (stops : tape.stop = used.length + front.length) :
    tape.Stands used.length (front.zipIdx (tape.first + used.length)) := by
  induction front generalizing used with
  | nil =>
    have here : tape.stop = used.length := stops
    have found : tape.tokens[tape.stop]? = some t := by simp [here, whole]
    rw [← here]
    exact .last found last
  | cons u front ih =>
    have later := ih (used ++ [u]) (by simp [whole])
      (fun v mem => before v (List.mem_cons_of_mem _ mem)) (by simp [stops]; omega)
    rw [List.length_append] at later
    exact .next (by simp [whole]) (before u List.mem_cons_self) later

theorem stands_lexemes (ended : tape.tokens.getLast?.map Token.kind = some .endOfInput) :
    tape.Stands 0 (Parse.lexemes tape.first tape.tokens) := by
  obtain ⟨front, t, back, whole, before, last⟩ := Parse.exists_end ended
  have inner : ∀ u ∈ front, decide (u.kind ≠ .endOfInput) = true :=
    fun u mem => decide_eq_true (before u mem)
  have lexed : Parse.lexemes tape.first tape.tokens = front.zipIdx tape.first := by
    rw [Parse.lexemes, whole, List.takeWhile_append_of_pos inner]
    simp [last]
  rw [lexed]
  refine stands_zipIdx [] whole before last ?_
  have outside : front.findIdx (·.kind = .endOfInput) = front.length :=
    List.findIdx_eq_length_of_false fun u mem => decide_eq_false (before u mem)
  simp [stop, whole, List.findIdx_append, outside, List.findIdx_cons, last]

/-- The position of a reader that got stuck is that of the token under the head. -/
theorem Stands.position {head : Nat} {rest : List Lexeme} {t : Token}
    (stands : tape.Stands head rest) (found : tape.tokens[head]? = some t) :
    (rest.head?.map (·.1.position)).getD (Parse.endPosition tape.tokens) = t.position := by
  cases stands with
  | last _ _ =>
    have same : tape.tokens.find? (·.kind = .endOfInput) = some t := by
      rw [List.find?_eq_getElem?_findIdx]
      exact found
    simp [Parse.endPosition, same]
  | next found' _ _ =>
    cases found.symm.trans found'
    rfl

theorem ofTokens_of_stuck {first : Nat} {tokens : List Token} {rest : List Lexeme}
    (read : Parse.decls (Parse.lexemes first tokens) = .error ⟨rest⟩) :
    Program.ofTokens first tokens =
      .error ⟨(rest.head?.map (·.1.position)).getD (Parse.endPosition tokens)⟩ := by
  rw [Program.ofTokens, read]
  cases rest <;> rfl

/-- Sixteen calls inside one another for each token before the end and two more are room enough. -/
theorem leads_parse (ended : tape.tokens.getLast?.map Token.kind = some .endOfInput) :
    tape.Leads 0 [] (do return (⟨← Parse.decls (Parse.lexemes tape.first tape.tokens)⟩, []))
      (tape.parse (16 * tape.stop + 2)) := by
  have stands := stands_lexemes ended
  have length := stands.add_length
  have follows := @follows_decls tape (16 * tape.stop + 2)
    (Parse.lexemes tape.first tape.tokens) (by omega)
  refine (follows.returns.of_eq ?_) 0 [] stands
  cases Parse.decls (Parse.lexemes tape.first tape.tokens) <;> rfl

/-- On a tape that closes with an end of the input the parser comes to an end: sixteen calls inside
one another for each token before the end and two more are room enough, and with more room it does
the same. Whatever it looks at is on the tape, the head never gets past the first end of the input,
and every round of a loop that comes to its end has taken a token. The outcome is the program that
is read from the tokens, and then all rounds came to their end, and they are those that the program
takes; or the parser halts at the token that reading gets stuck at, and then the rounds that did not
come to their end are those that are open, one inside another, when it halts. -/
theorem parse_keeps_to_tape (ended : tape.tokens.getLast?.map Token.kind = some .endOfInput) :
    ∃ outcome head events,
      (∀ room, 16 * tape.stop + 2 ≤ room → tape.parse room = some (outcome, ⟨head, events⟩)) ∧
      head ≤ tape.stop ∧ (∀ e ∈ events, e.Within tape) ∧
      ((∃ p, outcome = .ok p ∧ Program.ofTokens tape.first tape.tokens = .ok p ∧ Settled events ∧
          begun events = p.rounds) ∨
        ∃ t, tape.tokens[head]? = some t ∧ outcome = .error (.misfit t.position) ∧
          Program.ofTokens tape.first tape.tokens = .error ⟨t.position⟩ ∧
          Unfinished (openRounds events) events ∧ ∀ r ∈ openRounds events, r.2 ≤ head) := by
  have leads := leads_parse ended
  generalize ran : tape.parse (16 * tape.stop + 2) = o at leads
  have always : ∀ result, o = some result → ∀ room, 16 * tape.stop + 2 ≤ room →
      tape.parse room = some result := by
    intro result same room more
    rw [same] at ran
    exact parse_of_le tape more ran
  cases read : Parse.decls (Parse.lexemes tape.first tape.tokens) with
  | ok ds =>
    rw [read] at leads
    cases leads with
    | value _ stands within settled =>
      have parsed : Program.ofTokens tape.first tape.tokens = .ok ⟨ds⟩ := by
        rw [Program.ofTokens, read]
      have noted := begun_of_parse tape ran
      refine ⟨_, _, _, always _ rfl, stands.le_stop, within, .inl ?_⟩
      exact ⟨⟨ds⟩, rfl, parsed, settled, noted⟩
  | error stuck =>
    rw [read] at leads
    cases leads with
    | halt _ stands found within unfinished reached =>
      have failed := ofTokens_of_stuck read
      rw [stands.position found] at failed
      have opened := unfinished.openRounds_eq
      refine ⟨_, _, _, always _ rfl, stands.le_stop, within, .inr ⟨_, found, rfl, failed, ?_, ?_⟩⟩
      · rw [List.nil_append, opened]
        exact unfinished
      · rw [List.nil_append, opened]
        exact reached

/-- The tape may go on after the first end of the input, but the head does not. Every loop goes
round on the first tape. On the others the parser halts in the first round, and in the second operand
of a sum. -/
theorem parse_keeps_to_tape_two_ends :
    let tape (source : Text) : Tape := ⟨0, source.scan.tokens ++ (Text.scan "x").tokens⟩
    let whole := tape
      "struct S\x7bint a;int b;\x7d;int f(struct S s,int c)\x7bint x;return s.a+f(s,1);\x7d"
    (whole.tokens.getLast?.map Token.kind = some .endOfInput ∧
      ∃ p head events, whole.parse 610 = some (.ok p, ⟨head, events⟩) ∧ head ≤ 38 ∧
        (∀ e ∈ events, e.Within whole) ∧ Settled events ∧
        begun events = [.declarations, .fields, .declarations, .formals, .variables, .statements,
          .selections, .operators, .arguments]) ∧
    ((tape "struct").tokens.getLast?.map Token.kind = some .endOfInput ∧
      ∃ halt head events, (tape "struct").parse 18 = some (.error halt, ⟨head, events⟩) ∧
        head ≤ 1 ∧ (∀ e ∈ events, e.Within (tape "struct")) ∧
        Unfinished [(.declarations, 0)] events) ∧
    (tape "void f()\x7bx=a+").tokens.getLast?.map Token.kind = some .endOfInput ∧
      ∃ halt head events, (tape "void f()\x7bx=a+").parse 146 = some (.error halt, ⟨head, events⟩) ∧
        head ≤ 9 ∧ (∀ e ∈ events, e.Within (tape "void f()\x7bx=a+")) ∧
        Unfinished [(.declarations, 0), (.statements, 5), (.operators, 8)] events := by
  intro tape whole
  have halts {t : Tape} {room stop : Nat} {rounds : List (Loop × Nat)}
      (ended : t.tokens.getLast?.map Token.kind = some .endOfInput) (stops : t.stop = stop)
      (enough : 16 * stop + 2 ≤ room)
      (ran : (t.parse room).map (fun r => (r.1.isOk, openRounds r.2.events)) =
        some (false, rounds)) :
      ∃ halt head events, t.parse room = some (.error halt, ⟨head, events⟩) ∧ head ≤ stop ∧
        (∀ e ∈ events, e.Within t) ∧ Unfinished rounds events := by
    rw [← stops] at enough ⊢
    obtain ⟨outcome, head, events, parsed, inside, within, found | halted⟩ :=
      parse_keeps_to_tape ended
    · obtain ⟨p, rfl, -⟩ := found
      rw [parsed room enough] at ran
      cases ran
    · obtain ⟨u, -, rfl, -, unfinished, -⟩ := halted
      rw [parsed room enough] at ran
      obtain rfl : openRounds events = rounds := (Prod.mk.inj (Option.some.inj ran)).2
      exact ⟨_, head, events, parsed room enough, inside, within, unfinished⟩
  have ended : whole.tokens.getLast?.map Token.kind = some .endOfInput := by decide +kernel
  have stops : whole.stop = 38 := by decide +kernel
  have taken : (whole.parse 610).bind (fun r => r.1.toOption.map Program.rounds) =
      some [.declarations, .fields, .declarations, .formals, .variables, .statements,
        .selections, .operators, .arguments] := by decide +kernel
  refine ⟨⟨ended, ?_⟩, ⟨by decide +kernel, ?_⟩, by decide +kernel, ?_⟩
  · obtain ⟨outcome, head, events, ran, inside, within, found | halted⟩ :=
      parse_keeps_to_tape ended
    · obtain ⟨p, rfl, -, settled, noted⟩ := found
      rw [stops] at ran inside
      rw [ran 610 (by omega)] at taken
      have rounds := Option.some.inj taken
      exact ⟨p, head, events, ran 610 (by omega), inside, within, settled, noted.trans rounds⟩
    · obtain ⟨t, -, rfl, -⟩ := halted
      rw [stops] at ran
      rw [ran 610 (by omega)] at taken
      cases taken
  · exact halts (by decide +kernel) (by decide +kernel) (by decide) (by decide +kernel)
  · exact halts (by decide +kernel) (by decide +kernel) (by decide) (by decide +kernel)

end Cinder.Tape
