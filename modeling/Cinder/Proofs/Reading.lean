import Cinder.Program.Parse

/-!
# Readers without their bounds

`forget` drops the proof that fewer lexemes are left from the outcome of a reader. Each reader has an
equation that says what is left of its definition then; these equations are all that is used of the
readers later.
-/
namespace Cinder.Parse

variable {α : Type} {bound : Nat}

def forget (o : Outcome α bound) : Except Stuck (α × List Lexeme) :=
  match o with
  | .error stuck => .error stuck
  | .ok ⟨value, rest, _⟩ => .ok (value, rest)

@[simp] theorem forget_ok (value : α) (rest : List Lexeme) (fits : rest.length < bound) :
    forget (.ok ⟨value, rest, fits⟩ : Outcome α bound) = .ok (value, rest) := rfl

@[simp] theorem error_bind {β : Type} (stuck : Stuck) (f : α → Except Stuck β) :
    (Except.error stuck >>= f) = .error stuck := rfl

@[simp] theorem ok_bind {β : Type} (a : α) (f : α → Except Stuck β) :
    (Except.ok a >>= f) = f a := rfl

/-- What is left after a reader succeeded is shorter than its bound. -/
theorem length_of_forget {o : Outcome α bound} {value : α} {rest : List Lexeme}
    (read : forget o = .ok (value, rest)) : rest.length < bound := by
  match o, read with
  | .ok ⟨_, _, fits⟩, rfl => exact fits

theorem forget_map {bound' : Nat} (o : Outcome α bound) (f : Reading α bound → Reading α bound')
    (same : ∀ r, (f r).value = r.value ∧ (f r).rest = r.rest) :
    forget (o.map f) = forget o := by
  cases o with
  | error stuck => rfl
  | ok r =>
    obtain ⟨hv, hr⟩ := same r
    simp only [Except.map, forget]
    rw [hv, hr]

theorem forget_expect_nil (kind : Kind) : forget (expect kind []) = .error ⟨[]⟩ := rfl

theorem forget_expect_cons (kind : Kind) (t : Lexeme) (ts : List Lexeme) :
    forget (expect kind (t :: ts)) =
      if kindOf t = kind then .ok (t, ts) else .error ⟨t :: ts⟩ := by
  simp only [expect]
  split <;> rfl

theorem forget_ident (ts : List Lexeme) :
    forget (ident ts) = (do
      let (t, rest) ← forget (expect .identifier ts)
      return (identOf t, rest)) := by
  unfold ident
  cases expect .identifier ts <;> rfl

theorem forget_typeExp_cons (t : Lexeme) (ts : List Lexeme) :
    forget (typeExp (t :: ts)) =
      match kindOf t with
      | .intWord => .ok (.int, ts)
      | .boolWord => .ok (.bool, ts)
      | .voidWord => .ok (.void, ts)
      | .structWord => do
        let (name, rest) ← forget (ident ts)
        return (.struct name, rest)
      | _ => .error ⟨t :: ts⟩ := by
  simp only [typeExp]
  cases kindOf t with
  | structWord => cases ident ts <;> rfl
  | _ => rfl

theorem forget_formal (ts : List Lexeme) :
    forget (formal ts) = (do
      let (type, rest) ← forget (typeExp ts)
      let (name, rest) ← forget (ident rest)
      return (⟨type, name⟩, rest)) := by
  unfold formal
  cases typeExp ts with
  | error stuck => rfl
  | ok r =>
    obtain ⟨type, rest, fits⟩ := r
    simp only [forget_ok, ok_bind]
    cases ident rest <;> rfl

theorem forget_varDecl (ts : List Lexeme) :
    forget (varDecl ts) = (do
      let (decl, rest) ← forget (formal ts)
      let (_, rest) ← forget (expect .semicolon rest)
      return (decl, rest)) := by
  unfold varDecl
  cases formal ts with
  | error stuck => rfl
  | ok r =>
    obtain ⟨decl, rest, fits⟩ := r
    simp only [forget_ok, ok_bind]
    cases expect .semicolon rest <;> rfl

theorem forget_varDecls_nil : forget (varDecls []) = .ok ([], []) := by
  rw [varDecls]
  rfl

theorem forget_varDecls_cons (t : Lexeme) (ts : List Lexeme) :
    forget (varDecls (t :: ts)) =
      if startsType (kindOf t) then do
        let (decl, rest) ← forget (varDecl (t :: ts))
        let (decls, rest) ← forget (varDecls rest)
        return (decl :: decls, rest)
      else .ok ([], t :: ts) := by
  rw [varDecls]
  split
  · cases varDecl (t :: ts) with
    | error stuck => rfl
    | ok r =>
      obtain ⟨decl, rest, fits⟩ := r
      simp only [forget_ok, ok_bind]
      cases varDecls rest <;> rfl
  · rfl

theorem forget_fieldsFrom (ts : List Lexeme) :
    forget (fieldsFrom ts) = (do
      let (field, rest) ← forget (varDecl ts)
      match rest with
      | [] => .error ⟨[]⟩
      | t :: rest =>
        if kindOf t = .rightBrace then .ok ([field], rest)
        else do
          let (fields, rest) ← forget (fieldsFrom (t :: rest))
          return (field :: fields, rest)) := by
  rw [fieldsFrom]
  cases varDecl ts with
  | error stuck => rfl
  | ok r =>
    obtain ⟨field, rest, fits⟩ := r
    cases rest with
    | nil => rfl
    | cons t rest =>
      simp only [forget_ok, ok_bind]
      split
      · rfl
      · cases fieldsFrom (t :: rest) <;> rfl

theorem forget_formalsFrom (ts : List Lexeme) :
    forget (formalsFrom ts) = (do
      let (decl, rest) ← forget (formal ts)
      match rest with
      | [] => .error ⟨[]⟩
      | t :: rest =>
        if kindOf t = .comma then do
          let (decls, rest) ← forget (formalsFrom rest)
          return (decl :: decls, rest)
        else if kindOf t = .rightParen then .ok ([decl], rest)
        else .error ⟨t :: rest⟩) := by
  rw [formalsFrom]
  cases formal ts with
  | error stuck => rfl
  | ok r =>
    obtain ⟨decl, rest, fits⟩ := r
    cases rest with
    | nil => rfl
    | cons t rest =>
      simp only [forget_ok, ok_bind]
      split
      · cases formalsFrom rest <;> rfl
      · split <;> rfl

theorem forget_formals (ts : List Lexeme) :
    forget (formals ts) = (do
      let (_, rest) ← forget (expect .leftParen ts)
      match rest with
      | [] => .error ⟨[]⟩
      | t :: rest =>
        if kindOf t = .rightParen then .ok ([], rest)
        else forget (formalsFrom (t :: rest))) := by
  unfold formals
  cases expect .leftParen ts with
  | error stuck => rfl
  | ok r =>
    obtain ⟨paren, rest, fits⟩ := r
    cases rest with
    | nil => rfl
    | cons t rest =>
      simp only [forget_ok, ok_bind]
      split
      · rfl
      · cases formalsFrom (t :: rest) <;> rfl

/-! ## Expressions -/

theorem forget_selections_nil (base : Exp) : forget (selections base []) = .ok (base, []) := by
  rw [selections]
  rfl

theorem forget_selections_cons (base : Exp) (t : Lexeme) (ts : List Lexeme) :
    forget (selections base (t :: ts)) =
      if kindOf t = .dot then do
        let (field, rest) ← forget (ident ts)
        forget (selections (.dot base field) rest)
      else .ok (base, t :: ts) := by
  rw [selections]
  split
  · cases ident ts with
    | error stuck => rfl
    | ok r =>
      obtain ⟨field, rest, fits⟩ := r
      simp only [forget_ok, ok_bind]
      cases selections (.dot base field) rest <;> rfl
  · rfl

theorem forget_place (ts : List Lexeme) :
    forget (place ts) = (do
      let (base, rest) ← forget (ident ts)
      forget (selections (.ident base) rest)) := by
  unfold place
  cases ident ts with
  | error stuck => rfl
  | ok r =>
    obtain ⟨base, rest, fits⟩ := r
    simp only [forget_ok, ok_bind]
    cases selections (.ident base) rest <;> rfl

theorem forget_exp (ts : List Lexeme) :
    forget (exp ts) = (do
      let (left, rest) ← forget (operation Level.all ts)
      match rest with
      | [] => .ok (left, [])
      | t :: rest =>
        if kindOf t = .assign then
          if left.isPlace then do
            let (value, rest) ← forget (exp rest)
            return (.assign left value, rest)
          else .error ⟨t :: rest⟩
        else .ok (left, t :: rest)) := by
  rw [exp]
  cases operation Level.all ts with
  | error stuck => rfl
  | ok r =>
    obtain ⟨left, rest, fits⟩ := r
    cases rest with
    | nil => rfl
    | cons t rest =>
      simp only [forget_ok, ok_bind]
      split
      · split
        · cases exp rest <;> rfl
        · rfl
      · rfl

theorem forget_operation_nil (ts : List Lexeme) :
    forget (operation [] ts) = forget (operand ts) := by
  rw [operation]

theorem forget_operation_cons (level : Level) (tighter : List Level) (ts : List Lexeme) :
    forget (operation (level :: tighter) ts) = (do
      let (left, rest) ← forget (operation tighter ts)
      forget (operations level tighter left rest)) := by
  rw [operation]
  cases operation tighter ts with
  | error stuck => rfl
  | ok r =>
    obtain ⟨left, rest, fits⟩ := r
    simp only [forget_ok, ok_bind]
    cases operations level tighter left rest <;> rfl

theorem forget_operations_nil (level : Level) (tighter : List Level) (left : Exp) :
    forget (operations level tighter left []) = .ok (left, []) := by
  rw [operations]
  rfl

theorem forget_operations_cons (level : Level) (tighter : List Level) (left : Exp) (t : Lexeme)
    (ts : List Lexeme) :
    forget (operations level tighter left (t :: ts)) =
      match level.operator? (kindOf t) with
      | none => .ok (left, t :: ts)
      | some op => (do
        let (right, rest) ← forget (operation tighter ts)
        if level.chains then forget (operations level tighter (.binary op left right) rest)
        else if startsOperation level rest then .error ⟨rest⟩
        else .ok (.binary op left right, rest)) := by
  rw [operations]
  cases level.operator? (kindOf t) with
  | none => rfl
  | some op =>
    dsimp only
    cases operation tighter ts with
    | error stuck => rfl
    | ok r =>
      obtain ⟨right, rest, fits⟩ := r
      simp only [forget_ok, ok_bind]
      split
      · cases operations level tighter (.binary op left right) rest <;> rfl
      · split <;> rfl

theorem forget_operand_nil : forget (operand []) = .error ⟨[]⟩ := by
  rw [operand]
  rfl

theorem forget_operand_cons (t : Lexeme) (ts : List Lexeme) :
    forget (operand (t :: ts)) =
      match kindOf t with
      | .not => do
        let (e, rest) ← forget (operand ts)
        return (.unary .not e, rest)
      | .minus => do
        let (e, rest) ← forget (operand ts)
        return (.unary .negate e, rest)
      | _ => forget (term (t :: ts)) := by
  rw [operand]
  cases kindOf t with
  | not | minus => cases operand ts <;> rfl
  | _ => rfl

theorem forget_term_nil : forget (term []) = .error ⟨[]⟩ := by
  rw [term]
  rfl

theorem forget_term_cons (t : Lexeme) (ts : List Lexeme) :
    forget (term (t :: ts)) =
      match kindOf t with
      | .intLiteral => .ok (.int (t.1.value.getD 0) t.1.text t.1.position, ts)
      | .stringLiteral => .ok (.string t.1.text t.1.position, ts)
      | .trueWord => .ok (.bool true t.1.position, ts)
      | .falseWord => .ok (.bool false t.1.position, ts)
      | .leftParen => do
        let (e, rest) ← forget (exp ts)
        let (_, rest) ← forget (expect .rightParen rest)
        return (e, rest)
      | .identifier =>
        if nextIs .leftParen ts then do
          let (args, rest) ← forget (arguments ts)
          return (.call (identOf t) args, rest)
        else forget (place (t :: ts))
      | _ => .error ⟨t :: ts⟩ := by
  rw [term]
  cases kindOf t with
  | leftParen =>
    cases exp ts with
    | error stuck => rfl
    | ok r =>
      obtain ⟨e, rest, fits⟩ := r
      simp only [forget_ok, ok_bind]
      cases expect .rightParen rest <;> rfl
  | identifier =>
    dsimp only
    split
    · cases arguments ts <;> rfl
    · rfl
  | _ => rfl

theorem forget_arguments (ts : List Lexeme) :
    forget (arguments ts) = (do
      let (_, rest) ← forget (expect .leftParen ts)
      match rest with
      | [] => .error ⟨[]⟩
      | t :: rest =>
        if kindOf t = .rightParen then .ok ([], rest)
        else forget (argumentsFrom (t :: rest))) := by
  rw [arguments]
  cases expect .leftParen ts with
  | error stuck => rfl
  | ok r =>
    obtain ⟨paren, rest, fits⟩ := r
    cases rest with
    | nil => rfl
    | cons t rest =>
      simp only [forget_ok, ok_bind]
      split
      · rfl
      · cases argumentsFrom (t :: rest) <;> rfl

theorem forget_argumentsFrom (ts : List Lexeme) :
    forget (argumentsFrom ts) = (do
      let (e, rest) ← forget (exp ts)
      match rest with
      | [] => .error ⟨[]⟩
      | t :: rest =>
        if kindOf t = .comma then do
          let (args, rest) ← forget (argumentsFrom rest)
          return (e :: args, rest)
        else if kindOf t = .rightParen then .ok ([e], rest)
        else .error ⟨t :: rest⟩) := by
  rw [argumentsFrom]
  cases exp ts with
  | error stuck => rfl
  | ok r =>
    obtain ⟨e, rest, fits⟩ := r
    cases rest with
    | nil => rfl
    | cons t rest =>
      simp only [forget_ok, ok_bind]
      split
      · cases argumentsFrom rest <;> rfl
      · split <;> rfl

/-! ## Statements -/

theorem forget_condition (ts : List Lexeme) :
    forget (condition ts) = (do
      let (_, rest) ← forget (expect .leftParen ts)
      let (e, rest) ← forget (exp rest)
      let (_, rest) ← forget (expect .rightParen rest)
      return (e, rest)) := by
  unfold condition
  cases expect .leftParen ts with
  | error stuck => rfl
  | ok r =>
    obtain ⟨paren, rest, fits⟩ := r
    simp only [forget_ok, ok_bind]
    cases exp rest with
    | error stuck => rfl
    | ok r =>
      obtain ⟨e, rest', fits'⟩ := r
      simp only [forget_ok, ok_bind]
      cases expect .rightParen rest' <;> rfl

theorem forget_closedExp (ts : List Lexeme) :
    forget (closedExp ts) = (do
      let (e, rest) ← forget (exp ts)
      let (_, rest) ← forget (expect .semicolon rest)
      return (e, rest)) := by
  unfold closedExp
  cases exp ts with
  | error stuck => rfl
  | ok r =>
    obtain ⟨e, rest, fits⟩ := r
    simp only [forget_ok, ok_bind]
    cases expect .semicolon rest <;> rfl

theorem forget_readStmt (ts : List Lexeme) :
    forget (readStmt ts) = (do
      let (_, rest) ← forget (expect .read ts)
      let (target, rest) ← forget (place rest)
      let (_, rest) ← forget (expect .semicolon rest)
      return (.read target, rest)) := by
  unfold readStmt
  cases expect .read ts with
  | error stuck => rfl
  | ok r =>
    obtain ⟨mark, rest, fits⟩ := r
    simp only [forget_ok, ok_bind]
    cases place rest with
    | error stuck => rfl
    | ok r =>
      obtain ⟨target, rest', fits'⟩ := r
      simp only [forget_ok, ok_bind]
      cases expect .semicolon rest' <;> rfl

theorem forget_writeStmt (ts : List Lexeme) :
    forget (writeStmt ts) = (do
      let (_, rest) ← forget (expect .write ts)
      let (value, rest) ← forget (closedExp rest)
      return (.write value, rest)) := by
  unfold writeStmt
  cases expect .write ts with
  | error stuck => rfl
  | ok r =>
    obtain ⟨mark, rest, fits⟩ := r
    simp only [forget_ok, ok_bind]
    cases closedExp rest <;> rfl

theorem forget_returnStmt_cons (position : Position) (t : Lexeme) (ts : List Lexeme) :
    forget (returnStmt position (t :: ts)) =
      if kindOf t = .semicolon then .ok (.giveBack none position, ts)
      else do
        let (value, rest) ← forget (closedExp (t :: ts))
        return (.giveBack (some value) position, rest) := by
  simp only [returnStmt]
  split
  · rfl
  · cases closedExp (t :: ts) <;> rfl

theorem forget_callStmt (callee : Ident) (ts : List Lexeme) :
    forget (callStmt callee ts) = (do
      let (args, rest) ← forget (arguments ts)
      let (_, rest) ← forget (expect .semicolon rest)
      return (.call callee args, rest)) := by
  unfold callStmt
  cases arguments ts with
  | error stuck => rfl
  | ok r =>
    obtain ⟨args, rest, fits⟩ := r
    simp only [forget_ok, ok_bind]
    cases expect .semicolon rest <;> rfl

theorem forget_placeStmt (ts : List Lexeme) :
    forget (placeStmt ts) = (do
      let (target, rest) ← forget (place ts)
      match rest with
      | [] => .error ⟨[]⟩
      | t :: rest =>
        match kindOf t with
        | .assign => do
          let (value, rest) ← forget (closedExp rest)
          return (.assign target value, rest)
        | .increment => do
          let (_, rest) ← forget (expect .semicolon rest)
          return (.increment target, rest)
        | .decrement => do
          let (_, rest) ← forget (expect .semicolon rest)
          return (.decrement target, rest)
        | _ => .error ⟨t :: rest⟩) := by
  unfold placeStmt
  cases place ts with
  | error stuck => rfl
  | ok r =>
    obtain ⟨target, rest, fits⟩ := r
    cases rest with
    | nil => rfl
    | cons t rest =>
      simp only [forget_ok, ok_bind]
      cases kindOf t with
      | assign => cases closedExp rest <;> rfl
      | increment | decrement => cases expect .semicolon rest <;> rfl
      | _ => rfl

theorem forget_block (ts : List Lexeme) :
    forget (block ts) = (do
      let (_, rest) ← forget (expect .leftBrace ts)
      let (decls, rest) ← forget (varDecls rest)
      let (body, rest) ← forget (stmts rest)
      let (_, rest) ← forget (expect .rightBrace rest)
      return (.mk decls body, rest)) := by
  rw [block]
  cases expect .leftBrace ts with
  | error stuck => rfl
  | ok r =>
    obtain ⟨brace, rest, fits⟩ := r
    simp only [forget_ok, ok_bind]
    cases varDecls rest with
    | error stuck => rfl
    | ok r =>
      obtain ⟨decls, rest', fits'⟩ := r
      simp only [forget_ok, ok_bind]
      cases stmts rest' with
      | error stuck => rfl
      | ok r =>
        obtain ⟨body, rest'', fits''⟩ := r
        simp only [forget_ok, ok_bind]
        cases expect .rightBrace rest'' <;> rfl

theorem forget_stmts_nil : forget (stmts []) = .ok ([], []) := by
  rw [stmts]
  rfl

theorem forget_stmts_cons (t : Lexeme) (ts : List Lexeme) :
    forget (stmts (t :: ts)) =
      if kindOf t = .rightBrace then .ok ([], t :: ts)
      else do
        let (s, rest) ← forget (stmt (t :: ts))
        let (more, rest) ← forget (stmts rest)
        return (s :: more, rest) := by
  rw [stmts]
  split
  · rfl
  · cases stmt (t :: ts) with
    | error stuck => rfl
    | ok r =>
      obtain ⟨s, rest, fits⟩ := r
      simp only [forget_ok, ok_bind]
      cases stmts rest <;> rfl

theorem forget_stmt_nil : forget (stmt []) = .error ⟨[]⟩ := by
  rw [stmt]
  rfl

/-- A condition and the block that it governs. -/
def governed (ts : List Lexeme) : Except Stuck ((Exp × Block) × List Lexeme) := do
  let (e, rest) ← forget (condition ts)
  let (body, rest) ← forget (block rest)
  return ((e, body), rest)

theorem forget_stmt_cons (t : Lexeme) (ts : List Lexeme) :
    forget (stmt (t :: ts)) =
      match kindOf t with
      | .cinWord => forget (readStmt ts)
      | .coutWord => forget (writeStmt ts)
      | .ifWord => do
        let ((e, yes), rest) ← governed ts
        if nextIs .elseWord rest then do
          let (no, rest) ← forget (block rest.tail)
          return (.ifElse e yes no, rest)
        else return (.ifThen e yes, rest)
      | .whileWord => do
        let ((e, body), rest) ← governed ts
        return (.whileLoop e body, rest)
      | .repeatWord => do
        let ((e, body), rest) ← governed ts
        return (.repeatLoop e body, rest)
      | .returnWord => forget (returnStmt t.1.position ts)
      | .identifier =>
        if nextIs .leftParen ts then forget (callStmt (identOf t) ts)
        else forget (placeStmt (t :: ts))
      | _ => .error ⟨t :: ts⟩ := by
  rw [stmt]
  unfold governed
  cases kindOf t with
  | cinWord | coutWord | returnWord => exact forget_map _ _ fun _ => ⟨rfl, rfl⟩
  | ifWord =>
    cases condition ts with
    | error stuck => rfl
    | ok r =>
      obtain ⟨e, rest, fits⟩ := r
      simp only [forget_ok, ok_bind]
      cases block rest with
      | error stuck => rfl
      | ok r =>
        obtain ⟨yes, rest', fits'⟩ := r
        cases rest' with
        | nil => rfl
        | cons u rest' =>
          by_cases other : kindOf u = .elseWord
          · simp only [forget_ok, ok_bind, pure_bind, nextIs, other, decide_true, if_true,
              List.tail_cons]
            cases block rest' <;> rfl
          · simp only [forget_ok, ok_bind, pure_bind, nextIs, other, decide_false, if_false]
            rfl
  | whileWord | repeatWord =>
    cases condition ts with
    | error stuck => rfl
    | ok r =>
      obtain ⟨e, rest, fits⟩ := r
      simp only [forget_ok, ok_bind]
      cases block rest <;> rfl
  | identifier =>
    dsimp only
    split
    · exact forget_map _ _ fun _ => ⟨rfl, rfl⟩
    · rfl
  | _ => rfl

/-! ## Declarations -/

theorem forget_structDecl (ts : List Lexeme) :
    forget (structDecl ts) = (do
      let (_, rest) ← forget (expect .structWord ts)
      let (name, rest) ← forget (ident rest)
      let (_, rest) ← forget (expect .leftBrace rest)
      let (fields, rest) ← forget (fieldsFrom rest)
      let (_, rest) ← forget (expect .semicolon rest)
      return (.struct ⟨name, fields⟩, rest)) := by
  unfold structDecl
  cases expect .structWord ts with
  | error stuck => rfl
  | ok r =>
    obtain ⟨word, rest, fits⟩ := r
    simp only [forget_ok, ok_bind]
    cases ident rest with
    | error stuck => rfl
    | ok r =>
      obtain ⟨name, rest, fits⟩ := r
      simp only [forget_ok, ok_bind]
      cases expect .leftBrace rest with
      | error stuck => rfl
      | ok r =>
        obtain ⟨brace, rest, fits⟩ := r
        simp only [forget_ok, ok_bind]
        cases fieldsFrom rest with
        | error stuck => rfl
        | ok r =>
          obtain ⟨fields, rest, fits⟩ := r
          simp only [forget_ok, ok_bind]
          cases expect .semicolon rest <;> rfl

theorem forget_fnDecl (resultType : TypeExp) (name : Ident) (ts : List Lexeme) :
    forget (fnDecl resultType name ts) = (do
      let (formals, rest) ← forget (formals ts)
      let (body, rest) ← forget (block rest)
      return (.fn ⟨resultType, name, formals, body⟩, rest)) := by
  unfold fnDecl
  cases formals ts with
  | error stuck => rfl
  | ok r =>
    obtain ⟨formals, rest, fits⟩ := r
    simp only [forget_ok, ok_bind]
    cases block rest <;> rfl

theorem forget_varOrFnDecl (ts : List Lexeme) :
    forget (varOrFnDecl ts) = (do
      let (d, rest) ← forget (formal ts)
      if nextIs .leftParen rest then forget (fnDecl d.type d.name rest)
      else do
        let (_, rest) ← forget (expect .semicolon rest)
        return (.var d, rest)) := by
  unfold varOrFnDecl
  cases formal ts with
  | error stuck => rfl
  | ok r =>
    obtain ⟨d, rest, fits⟩ := r
    simp only [forget_ok, ok_bind]
    split
    · cases fnDecl d.type d.name rest <;> rfl
    · cases expect .semicolon rest <;> rfl

theorem forget_decl (ts : List Lexeme) :
    forget (decl ts) =
      if startsStruct ts then forget (structDecl ts) else forget (varOrFnDecl ts) := by
  unfold decl
  split <;> rfl

theorem decls_nil : decls [] = .ok [] := by
  rw [decls]

theorem decls_cons (t : Lexeme) (ts : List Lexeme) :
    decls (t :: ts) = (do
      let (d, rest) ← forget (decl (t :: ts))
      let more ← decls rest
      return d :: more) := by
  rw [decls]
  cases decl (t :: ts) with
  | error stuck => rfl
  | ok r =>
    obtain ⟨d, rest, fits⟩ := r
    simp only [forget_ok, ok_bind]
    cases decls rest <;> rfl

end Cinder.Parse
