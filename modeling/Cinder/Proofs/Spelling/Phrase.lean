import Cinder.Proofs.Spelling

/-!
# The phrase of a spelling

Tokens that spell a well-shaped program, wherever they stand, are a phrase whose tree is that program
up to positions. Each expression is spelled as a term, and each place as one.
-/
namespace Cinder.Spelling

open Grammar (Phrase)
open Parse (Lexeme kindOf)
open Token (mark name)

/-- A lexeme up to its position. -/
def bare (t : Lexeme) : Token := t.1.unplaced

theorem kindOf_of_bare {t : Lexeme} {w : Token} (same : bare t = w) : kindOf t = w.kind := by
  rw [← same]
  rfl

theorem unplaced_of_bare {t : Lexeme} {id : Ident} (same : bare t = name id.name) :
    Ident.unplaced ⟨t.2, t.1.text, t.1.position⟩ = id.unplaced := by
  have text : t.1.text = id.name := congrArg Token.text same
  simp [Ident.unplaced, text]

/-- A term is an operation of every level. -/
theorem operation_of_term {ts : List Lexeme} {e : Exp} (term : Phrase .term ts e)
    (level : Option Level) : Phrase (.operation level) ts e := by
  have unary : Phrase (.operation none) ts e := term.unaryTerm
  have product : Phrase (.operation (some .product)) ts e := Phrase.operand unary
  have sum : Phrase (.operation (some .sum)) ts e := Phrase.operand product
  have comparison : Phrase (.operation (some .comparison)) ts e := Phrase.operand sum
  have conjunction : Phrase (.operation (some .conjunction)) ts e := Phrase.operand comparison
  have disjunction : Phrase (.operation (some .disjunction)) ts e := Phrase.operand conjunction
  cases level with
  | none => exact unary
  | some level =>
    cases level with
    | product => exact product
    | sum => exact sum
    | comparison => exact comparison
    | conjunction => exact conjunction
    | disjunction => exact disjunction

theorem exp_of_operation {ts : List Lexeme} {e : Exp} {level : Level}
    (phrase : Phrase (.operation (some level)) ts e) : Phrase .exp ts e := by
  cases level with
  | disjunction => exact .exp phrase
  | conjunction => exact .exp (Phrase.operand phrase)
  | comparison =>
    have conjunction : Phrase (.operation (some .conjunction)) ts e := Phrase.operand phrase
    exact .exp (Phrase.operand conjunction)
  | sum =>
    have comparison : Phrase (.operation (some .comparison)) ts e := Phrase.operand phrase
    have conjunction : Phrase (.operation (some .conjunction)) ts e := Phrase.operand comparison
    exact .exp (Phrase.operand conjunction)
  | product =>
    have sum : Phrase (.operation (some .sum)) ts e := Phrase.operand phrase
    have comparison : Phrase (.operation (some .comparison)) ts e := Phrase.operand sum
    have conjunction : Phrase (.operation (some .conjunction)) ts e := Phrase.operand comparison
    exact .exp (Phrase.operand conjunction)

theorem exp_of_term {ts : List Lexeme} {e : Exp} (term : Phrase .term ts e) : Phrase .exp ts e :=
  .exp (operation_of_term term _)

theorem binary_of_terms {op : BinaryOp} {ts us : List Lexeme} {t : Lexeme} {x y : Exp}
    (written : (kindOf t, op) ∈ op.level.operators) (left : Phrase .term ts x)
    (right : Phrase .term us y) :
    Phrase (.operation (some op.level)) (ts ++ t :: us) (.binary op x y) := by
  by_cases single : op.level = .comparison
  · rw [single] at written ⊢
    exact .comparison written (operation_of_term left _) (operation_of_term right _)
  · exact .chain single written (operation_of_term left _) (operation_of_term right _)

theorem loc_of_spelling : (e : Exp) → e.isPlace → e.WellShaped → {ts : List Lexeme} →
    ts.map bare = exp e → ∃ v, Phrase .loc ts v ∧ v.unplaced = e.unplaced
  | .ident id, _, _, ts, spelled => by
    obtain ⟨t, rfl, same⟩ := List.map_eq_singleton_iff.mp spelled
    refine ⟨_, .ident (kindOf_of_bare same), ?_⟩
    rw [Exp.unplaced, Exp.unplaced, unplaced_of_bare same]
  | .dot base field, _, shaped, ts, spelled => by
    obtain ⟨us, vs, rfl, first, second⟩ := List.map_eq_append_iff.mp spelled
    obtain ⟨t, us', rfl, dot, second⟩ := List.map_eq_cons_iff.mp second
    obtain ⟨u, rfl, same⟩ := List.map_eq_singleton_iff.mp second
    obtain ⟨v, phrase, equal⟩ := loc_of_spelling base shaped.1 shaped.2.1 first
    refine ⟨_, .select phrase (kindOf_of_bare dot) (kindOf_of_bare same), ?_⟩
    rw [Exp.unplaced, Exp.unplaced, equal, unplaced_of_bare same]

/-- A call, as a term or as a statement, given the phrase of its arguments. -/
theorem call_of_spelling {callee : Ident} {args : List Exp} {ts : List Lexeme}
    (inner : args ≠ [] → ∀ us : List Lexeme, us.map bare = exps args →
      ∃ vs, Phrase .args us vs ∧ Exp.unplacedAll vs = Exp.unplacedAll args)
    (spelled : ts.map bare =
      name callee.name :: mark .leftParen :: (exps args ++ [mark .rightParen])) :
    ∃ f vs, Phrase .call ts (f, vs) ∧ f.unplaced = callee.unplaced ∧
      Exp.unplacedAll vs = Exp.unplacedAll args := by
  obtain ⟨f, us, rfl, named, spelled⟩ := List.map_eq_cons_iff.mp spelled
  obtain ⟨t, us, rfl, left, spelled⟩ := List.map_eq_cons_iff.mp spelled
  obtain ⟨us, ws, rfl, middle, spelled⟩ := List.map_eq_append_iff.mp spelled
  obtain ⟨u, rfl, right⟩ := List.map_eq_singleton_iff.mp spelled
  have callee := kindOf_of_bare named
  by_cases empty : args = []
  · subst empty
    obtain rfl : us = [] := List.map_eq_nil_iff.mp middle
    exact ⟨_, _, .callPlain callee (kindOf_of_bare left) (kindOf_of_bare right),
      unplaced_of_bare named, rfl⟩
  · obtain ⟨vs, phrase, equal⟩ := inner empty us middle
    exact ⟨_, vs, .call callee (kindOf_of_bare left) phrase (kindOf_of_bare right),
      unplaced_of_bare named, equal⟩

mutual

/-- Every expression is spelled as a term. -/
theorem term_of_spelling : (e : Exp) → e.WellShaped → {ts : List Lexeme} →
    ts.map bare = exp e → ∃ v, Phrase .term ts v ∧ v.unplaced = e.unplaced
  | .int value text p, _, ts, spelled => by
    obtain ⟨t, rfl, same⟩ := List.map_eq_singleton_iff.mp spelled
    refine ⟨_, .int (kindOf_of_bare same), ?_⟩
    have number : t.1.value = some value := congrArg Token.value same
    have digits : t.1.text = text := congrArg Token.text same
    simp [Exp.unplaced, number, digits]
  | .string text p, _, ts, spelled => by
    obtain ⟨t, rfl, same⟩ := List.map_eq_singleton_iff.mp spelled
    refine ⟨_, .string (kindOf_of_bare same), ?_⟩
    have literal : t.1.text = text := congrArg Token.text same
    simp [Exp.unplaced, literal]
  | .bool true p, _, ts, spelled => by
    obtain ⟨t, rfl, same⟩ := List.map_eq_singleton_iff.mp spelled
    exact ⟨_, .true (kindOf_of_bare same), rfl⟩
  | .bool false p, _, ts, spelled => by
    obtain ⟨t, rfl, same⟩ := List.map_eq_singleton_iff.mp spelled
    exact ⟨_, .false (kindOf_of_bare same), rfl⟩
  | .ident id, shaped, ts, spelled => by
    obtain ⟨v, phrase, equal⟩ := loc_of_spelling (.ident id) rfl shaped spelled
    exact ⟨v, phrase.termLoc, equal⟩
  | .dot base field, shaped, ts, spelled => by
    obtain ⟨v, phrase, equal⟩ := loc_of_spelling (.dot base field) rfl shaped spelled
    exact ⟨v, phrase.termLoc, equal⟩
  | .assign target value, shaped, ts, spelled => by
    obtain ⟨place, target_shaped, value_shaped⟩ := shaped
    simp only [exp, List.append_assoc, List.cons_append] at spelled
    obtain ⟨t, us, rfl, left, spelled⟩ := List.map_eq_cons_iff.mp spelled
    obtain ⟨us, vs, rfl, first, spelled⟩ := List.map_eq_append_iff.mp spelled
    obtain ⟨equals, vs, rfl, sign, spelled⟩ := List.map_eq_cons_iff.mp spelled
    obtain ⟨vs, ws, rfl, second, spelled⟩ := List.map_eq_append_iff.mp spelled
    obtain ⟨u, rfl, right⟩ := List.map_eq_singleton_iff.mp spelled
    obtain ⟨x, targetPhrase, targetEqual⟩ := loc_of_spelling target place target_shaped first
    obtain ⟨y, valuePhrase, valueEqual⟩ := term_of_spelling value value_shaped second
    have inner : Phrase .exp (us ++ equals :: vs) (.assign x y) :=
      .assign targetPhrase.target (kindOf_of_bare sign) (exp_of_term valuePhrase)
    have whole := inner.parens (kindOf_of_bare left) (kindOf_of_bare right)
    refine ⟨_, by simpa using whole, ?_⟩
    rw [Exp.unplaced, Exp.unplaced, targetEqual, valueEqual]
  | .call callee args, shaped, ts, spelled => by
    have inner := fun nonempty us h => @args_of_spelling args shaped.2 nonempty us h
    obtain ⟨f, vs, phrase, equal, equals⟩ := call_of_spelling inner spelled
    refine ⟨_, .termCall phrase, ?_⟩
    rw [Exp.unplaced, Exp.unplaced, equal, equals]
  | .unary op operand, shaped, ts, spelled => by
    simp only [exp, List.cons_append] at spelled
    obtain ⟨t, us, rfl, left, spelled⟩ := List.map_eq_cons_iff.mp spelled
    obtain ⟨sign, us, rfl, signed, spelled⟩ := List.map_eq_cons_iff.mp spelled
    obtain ⟨us, ws, rfl, middle, spelled⟩ := List.map_eq_append_iff.mp spelled
    obtain ⟨u, rfl, right⟩ := List.map_eq_singleton_iff.mp spelled
    obtain ⟨v, phrase, equal⟩ := term_of_spelling operand shaped middle
    have unary : Phrase (.operation none) (sign :: us) (.unary op v) := by
      have operand := operation_of_term phrase none
      cases op with
      | negate => exact .negate (kindOf_of_bare signed) operand
      | not => exact .not (kindOf_of_bare signed) operand
    have inner := @exp_of_operation _ _ .product (Phrase.operand unary)
    have whole := inner.parens (kindOf_of_bare left) (kindOf_of_bare right)
    refine ⟨_, by simpa using whole, ?_⟩
    rw [Exp.unplaced, Exp.unplaced, equal]
  | .binary op left right, shaped, ts, spelled => by
    simp only [exp, List.append_assoc, List.cons_append] at spelled
    obtain ⟨t, us, rfl, opens, spelled⟩ := List.map_eq_cons_iff.mp spelled
    obtain ⟨us, vs, rfl, first, spelled⟩ := List.map_eq_append_iff.mp spelled
    obtain ⟨sign, vs, rfl, signed, spelled⟩ := List.map_eq_cons_iff.mp spelled
    obtain ⟨vs, ws, rfl, second, spelled⟩ := List.map_eq_append_iff.mp spelled
    obtain ⟨u, rfl, closes⟩ := List.map_eq_singleton_iff.mp spelled
    obtain ⟨x, leftPhrase, leftEqual⟩ := term_of_spelling left shaped.1 first
    obtain ⟨y, rightPhrase, rightEqual⟩ := term_of_spelling right shaped.2 second
    have written : (kindOf sign, op) ∈ op.level.operators := by
      rw [kindOf_of_bare signed]
      cases op <;> decide
    have whole :=
      (exp_of_operation (binary_of_terms written leftPhrase rightPhrase)).parens
        (kindOf_of_bare opens) (kindOf_of_bare closes)
    refine ⟨_, by simpa using whole, ?_⟩
    rw [Exp.unplaced, Exp.unplaced, leftEqual, rightEqual]

theorem args_of_spelling : (args : List Exp) → Exp.AllWellShaped args → args ≠ [] →
    {ts : List Lexeme} → ts.map bare = exps args →
    ∃ vs, Phrase .args ts vs ∧ Exp.unplacedAll vs = Exp.unplacedAll args
  | [e], shaped, _, ts, spelled => by
    obtain ⟨v, phrase, equal⟩ := term_of_spelling e shaped.1 spelled
    exact ⟨[v], .lastArg (exp_of_term phrase), by simp [Exp.unplacedAll, equal]⟩
  | e :: f :: es, shaped, _, ts, spelled => by
    obtain ⟨us, vs, rfl, first, spelled⟩ := List.map_eq_append_iff.mp spelled
    obtain ⟨t, vs, rfl, comma, spelled⟩ := List.map_eq_cons_iff.mp spelled
    obtain ⟨v, phrase, equal⟩ := term_of_spelling e shaped.1 first
    obtain ⟨more, others, equals⟩ := args_of_spelling (f :: es) shaped.2 (by simp) spelled
    refine ⟨v :: more, .moreArgs (exp_of_term phrase) (kindOf_of_bare comma) others, ?_⟩
    rw [Exp.unplacedAll, Exp.unplacedAll, equal, equals]

end

/-! ## Declarations of variables -/

theorem type_of_spelling {type : TypeExp} {ts : List Lexeme} (spelled : ts.map bare = typeExp type) :
    ∃ v, Phrase .type ts v ∧ v.unplaced = type.unplaced := by
  cases type with
  | int =>
    obtain ⟨t, rfl, same⟩ := List.map_eq_singleton_iff.mp spelled
    exact ⟨_, .typeInt (kindOf_of_bare same), rfl⟩
  | bool =>
    obtain ⟨t, rfl, same⟩ := List.map_eq_singleton_iff.mp spelled
    exact ⟨_, .typeBool (kindOf_of_bare same), rfl⟩
  | void =>
    obtain ⟨t, rfl, same⟩ := List.map_eq_singleton_iff.mp spelled
    exact ⟨_, .typeVoid (kindOf_of_bare same), rfl⟩
  | struct id =>
    obtain ⟨t, us, rfl, word, spelled⟩ := List.map_eq_cons_iff.mp spelled
    obtain ⟨u, rfl, same⟩ := List.map_eq_singleton_iff.mp spelled
    refine ⟨_, .typeStruct (kindOf_of_bare word) (kindOf_of_bare same), ?_⟩
    rw [TypeExp.unplaced, TypeExp.unplaced, unplaced_of_bare same]

theorem formal_of_spelling {d : VarDecl} {ts : List Lexeme} (spelled : ts.map bare = typed d) :
    ∃ v, Phrase .formal ts v ∧ v.unplaced = d.unplaced := by
  obtain ⟨us, vs, rfl, first, spelled⟩ := List.map_eq_append_iff.mp spelled
  obtain ⟨t, rfl, same⟩ := List.map_eq_singleton_iff.mp spelled
  obtain ⟨τ, phrase, equal⟩ := type_of_spelling first
  refine ⟨_, .formal phrase (kindOf_of_bare same), ?_⟩
  rw [VarDecl.unplaced, VarDecl.unplaced, equal, unplaced_of_bare same]

theorem varDecl_of_spelling {d : VarDecl} {ts : List Lexeme} (spelled : ts.map bare = varDecl d) :
    ∃ v, Phrase .varDecl ts v ∧ v.unplaced = d.unplaced := by
  simp only [varDecl, typed, List.append_assoc, List.cons_append, List.nil_append] at spelled
  obtain ⟨us, vs, rfl, first, spelled⟩ := List.map_eq_append_iff.mp spelled
  obtain ⟨t, vs, rfl, same, spelled⟩ := List.map_eq_cons_iff.mp spelled
  obtain ⟨u, rfl, closes⟩ := List.map_eq_singleton_iff.mp spelled
  obtain ⟨τ, phrase, equal⟩ := type_of_spelling first
  refine ⟨_, .varDecl phrase (kindOf_of_bare same) (kindOf_of_bare closes), ?_⟩
  rw [VarDecl.unplaced, VarDecl.unplaced, equal, unplaced_of_bare same]

theorem varDecls_of_spelling {ds : List VarDecl} {ts : List Lexeme}
    (spelled : ts.map bare = ds.flatMap varDecl) :
    ∃ vs, Phrase .varDecls ts vs ∧ vs.map VarDecl.unplaced = ds.map VarDecl.unplaced := by
  induction ds generalizing ts with
  | nil =>
    obtain rfl : ts = [] := List.map_eq_nil_iff.mp spelled
    exact ⟨[], .noVars, rfl⟩
  | cons d ds ih =>
    obtain ⟨us, vs, rfl, first, rest⟩ := List.map_eq_append_iff.mp spelled
    obtain ⟨v, phrase, equal⟩ := varDecl_of_spelling first
    obtain ⟨more, others, equals⟩ := ih rest
    exact ⟨v :: more, .moreVars phrase others, by simp [equal, equals]⟩

theorem fields_of_spelling {ds : List VarDecl} {ts : List Lexeme} (nonempty : ds ≠ [])
    (spelled : ts.map bare = ds.flatMap varDecl) :
    ∃ vs, Phrase .fields ts vs ∧ vs.map VarDecl.unplaced = ds.map VarDecl.unplaced := by
  induction ds generalizing ts with
  | nil => contradiction
  | cons d ds ih =>
    obtain ⟨us, vs, rfl, first, rest⟩ := List.map_eq_append_iff.mp spelled
    obtain ⟨v, phrase, equal⟩ := varDecl_of_spelling first
    by_cases last : ds = []
    · subst last
      obtain rfl : vs = [] := List.map_eq_nil_iff.mp rest
      exact ⟨[v], by simpa using phrase.lastField, by simp [equal]⟩
    · obtain ⟨more, others, equals⟩ := ih last rest
      exact ⟨v :: more, .moreFields phrase others, by simp [equal, equals]⟩

theorem formals_of_spelling {ds : List VarDecl} {ts : List Lexeme} (nonempty : ds ≠ [])
    (spelled : ts.map bare = [mark .comma].intercalate (ds.map typed)) :
    ∃ vs, Phrase .formals ts vs ∧ vs.map VarDecl.unplaced = ds.map VarDecl.unplaced := by
  induction ds generalizing ts with
  | nil => contradiction
  | cons d ds ih =>
    cases ds with
    | nil =>
      rw [List.map_singleton, List.intercalate_singleton] at spelled
      obtain ⟨v, phrase, equal⟩ := formal_of_spelling spelled
      exact ⟨[v], .lastFormal phrase, by simp [equal]⟩
    | cons e ds =>
      rw [List.map_cons, List.map_cons, List.intercalate_cons_cons, List.append_assoc] at spelled
      obtain ⟨us, vs, rfl, first, spelled⟩ := List.map_eq_append_iff.mp spelled
      obtain ⟨t, vs, rfl, comma, spelled⟩ := List.map_eq_cons_iff.mp spelled
      obtain ⟨v, phrase, equal⟩ := formal_of_spelling first
      obtain ⟨more, others, equals⟩ := ih (by simp) spelled
      exact ⟨v :: more, .moreFormals phrase (kindOf_of_bare comma) others, by
        rw [List.map_cons, List.map_cons, equal, equals]⟩

/-! ## Statements -/

theorem exp_of_spelling {e : Exp} (shaped : e.WellShaped) {ts : List Lexeme}
    (spelled : ts.map bare = exp e) : ∃ v, Phrase .exp ts v ∧ v.unplaced = e.unplaced := by
  obtain ⟨v, phrase, equal⟩ := term_of_spelling e shaped spelled
  exact ⟨v, exp_of_term phrase, equal⟩

/-- An expression in parentheses and a block, after the word that governs them. -/
theorem governed_of_spelling {kind : Kind} {e : Exp} {b : Block} {ts : List Lexeme}
    (shaped : e.WellShaped)
    (inner : ∀ us : List Lexeme, us.map bare = block b →
      ∃ v, Phrase .block us v ∧ v.unplaced = b.unplaced)
    (spelled : ts.map bare =
      mark kind :: mark .leftParen :: (exp e ++ mark .rightParen :: block b)) :
    ∃ t u us v vs x c, ts = [t, u] ++ us ++ v :: vs ∧ kindOf t = kind ∧ kindOf u = .leftParen ∧
      Phrase .exp us x ∧ kindOf v = .rightParen ∧ Phrase .block vs c ∧
      x.unplaced = e.unplaced ∧ c.unplaced = b.unplaced := by
  obtain ⟨t, us, rfl, word, spelled⟩ := List.map_eq_cons_iff.mp spelled
  obtain ⟨u, us, rfl, left, spelled⟩ := List.map_eq_cons_iff.mp spelled
  obtain ⟨us, vs, rfl, middle, spelled⟩ := List.map_eq_append_iff.mp spelled
  obtain ⟨v, vs, rfl, right, spelled⟩ := List.map_eq_cons_iff.mp spelled
  obtain ⟨x, condition, equal⟩ := exp_of_spelling shaped middle
  obtain ⟨c, body, same⟩ := inner vs spelled
  exact ⟨t, u, us, v, vs, x, c, rfl, kindOf_of_bare word, kindOf_of_bare left, condition,
    kindOf_of_bare right, body, equal, same⟩

mutual

theorem stmt_of_spelling : (s : Stmt) → s.WellShaped → {ts : List Lexeme} →
    ts.map bare = stmt s → ∃ v, Phrase .stmt ts v ∧ v.unplaced = s.unplaced
  | .assign target value, shaped, ts, spelled => by
    obtain ⟨place, target_shaped, value_shaped⟩ := shaped
    simp only [stmt, List.append_assoc, List.cons_append] at spelled
    obtain ⟨us, vs, rfl, first, spelled⟩ := List.map_eq_append_iff.mp spelled
    obtain ⟨t, vs, rfl, sign, spelled⟩ := List.map_eq_cons_iff.mp spelled
    obtain ⟨vs, ws, rfl, second, spelled⟩ := List.map_eq_append_iff.mp spelled
    obtain ⟨u, rfl, closes⟩ := List.map_eq_singleton_iff.mp spelled
    obtain ⟨x, left, leftEqual⟩ := loc_of_spelling target place target_shaped first
    obtain ⟨y, right, rightEqual⟩ := exp_of_spelling value_shaped second
    have whole := left.assignStmt (kindOf_of_bare sign) right (kindOf_of_bare closes)
    exact ⟨_, by simpa using whole, by rw [Stmt.unplaced, Stmt.unplaced, leftEqual, rightEqual]⟩
  | .increment target, shaped, ts, spelled => by
    obtain ⟨us, vs, rfl, first, spelled⟩ := List.map_eq_append_iff.mp spelled
    obtain ⟨t, vs, rfl, sign, spelled⟩ := List.map_eq_cons_iff.mp spelled
    obtain ⟨u, rfl, closes⟩ := List.map_eq_singleton_iff.mp spelled
    obtain ⟨x, place, equal⟩ := loc_of_spelling target shaped.1 shaped.2 first
    exact ⟨_, place.increment (kindOf_of_bare sign) (kindOf_of_bare closes), by
      rw [Stmt.unplaced, Stmt.unplaced, equal]⟩
  | .decrement target, shaped, ts, spelled => by
    obtain ⟨us, vs, rfl, first, spelled⟩ := List.map_eq_append_iff.mp spelled
    obtain ⟨t, vs, rfl, sign, spelled⟩ := List.map_eq_cons_iff.mp spelled
    obtain ⟨u, rfl, closes⟩ := List.map_eq_singleton_iff.mp spelled
    obtain ⟨x, place, equal⟩ := loc_of_spelling target shaped.1 shaped.2 first
    exact ⟨_, place.decrement (kindOf_of_bare sign) (kindOf_of_bare closes), by
      rw [Stmt.unplaced, Stmt.unplaced, equal]⟩
  | .read target, shaped, ts, spelled => by
    obtain ⟨t, us, rfl, word, spelled⟩ := List.map_eq_cons_iff.mp spelled
    obtain ⟨u, us, rfl, sign, spelled⟩ := List.map_eq_cons_iff.mp spelled
    obtain ⟨us, vs, rfl, middle, spelled⟩ := List.map_eq_append_iff.mp spelled
    obtain ⟨v, rfl, closes⟩ := List.map_eq_singleton_iff.mp spelled
    obtain ⟨x, place, equal⟩ := loc_of_spelling target shaped.1 shaped.2 middle
    exact ⟨_, .read (kindOf_of_bare word) (kindOf_of_bare sign) place (kindOf_of_bare closes), by
      rw [Stmt.unplaced, Stmt.unplaced, equal]⟩
  | .write value, shaped, ts, spelled => by
    obtain ⟨t, us, rfl, word, spelled⟩ := List.map_eq_cons_iff.mp spelled
    obtain ⟨u, us, rfl, sign, spelled⟩ := List.map_eq_cons_iff.mp spelled
    obtain ⟨us, vs, rfl, middle, spelled⟩ := List.map_eq_append_iff.mp spelled
    obtain ⟨v, rfl, closes⟩ := List.map_eq_singleton_iff.mp spelled
    obtain ⟨x, phrase, equal⟩ := exp_of_spelling shaped middle
    exact ⟨_, .write (kindOf_of_bare word) (kindOf_of_bare sign) phrase (kindOf_of_bare closes), by
      rw [Stmt.unplaced, Stmt.unplaced, equal]⟩
  | .ifThen condition body, shaped, ts, spelled => by
    have inner := fun us h => @block_of_spelling body shaped.2 us h
    obtain ⟨t, u, us, v, vs, x, c, rfl, word, left, phrase, right, block, equal, same⟩ :=
      governed_of_spelling shaped.1 inner spelled
    exact ⟨_, .ifThen word left phrase right block, by
      rw [Stmt.unplaced, Stmt.unplaced, equal, same]⟩
  | .ifElse condition yes no, shaped, ts, spelled => by
    simp only [stmt] at spelled
    obtain ⟨ts, ws, rfl, first, rest⟩ := List.map_eq_append_iff.mp spelled
    obtain ⟨w, ws, rfl, other, last⟩ := List.map_eq_cons_iff.mp rest
    have inner := fun us h => @block_of_spelling yes shaped.2.1 us h
    obtain ⟨t, u, us, v, vs, x, c, rfl, word, left, phrase, right, block, equal, same⟩ :=
      governed_of_spelling shaped.1 inner first
    obtain ⟨d, otherwise, lastSame⟩ := block_of_spelling no shaped.2.2 last
    exact ⟨_, .ifElse word left phrase right block (kindOf_of_bare other) otherwise, by
      rw [Stmt.unplaced, Stmt.unplaced, equal, same, lastSame]⟩
  | .whileLoop condition body, shaped, ts, spelled => by
    have inner := fun us h => @block_of_spelling body shaped.2 us h
    obtain ⟨t, u, us, v, vs, x, c, rfl, word, left, phrase, right, block, equal, same⟩ :=
      governed_of_spelling shaped.1 inner spelled
    exact ⟨_, .whileLoop word left phrase right block, by
      rw [Stmt.unplaced, Stmt.unplaced, equal, same]⟩
  | .repeatLoop count body, shaped, ts, spelled => by
    have inner := fun us h => @block_of_spelling body shaped.2 us h
    obtain ⟨t, u, us, v, vs, x, c, rfl, word, left, phrase, right, block, equal, same⟩ :=
      governed_of_spelling shaped.1 inner spelled
    exact ⟨_, .repeatLoop word left phrase right block, by
      rw [Stmt.unplaced, Stmt.unplaced, equal, same]⟩
  | .call callee args, shaped, ts, spelled => by
    have split : stmt (.call callee args) =
        (name callee.name :: mark .leftParen :: (exps args ++ [mark .rightParen]))
          ++ [mark .semicolon] := by simp [stmt]
    rw [split] at spelled
    obtain ⟨us, vs, rfl, first, spelled⟩ := List.map_eq_append_iff.mp spelled
    obtain ⟨u, rfl, closes⟩ := List.map_eq_singleton_iff.mp spelled
    have inner := fun nonempty us h => @args_of_spelling args shaped.2 nonempty us h
    obtain ⟨f, vs, phrase, equal, equals⟩ := call_of_spelling inner first
    exact ⟨_, .callStmt phrase (kindOf_of_bare closes), by
      rw [Stmt.unplaced, Stmt.unplaced, equal, equals]⟩
  | .giveBack none p, _, ts, spelled => by
    obtain ⟨t, us, rfl, word, spelled⟩ := List.map_eq_cons_iff.mp spelled
    obtain ⟨u, rfl, closes⟩ := List.map_eq_singleton_iff.mp spelled
    exact ⟨_, .returnPlain (kindOf_of_bare word) (kindOf_of_bare closes), rfl⟩
  | .giveBack (some value) p, shaped, ts, spelled => by
    obtain ⟨t, us, rfl, word, spelled⟩ := List.map_eq_cons_iff.mp spelled
    obtain ⟨us, vs, rfl, middle, spelled⟩ := List.map_eq_append_iff.mp spelled
    obtain ⟨u, rfl, closes⟩ := List.map_eq_singleton_iff.mp spelled
    obtain ⟨x, phrase, equal⟩ := exp_of_spelling shaped middle
    exact ⟨_, .returnValue (kindOf_of_bare word) phrase (kindOf_of_bare closes), by
      rw [Stmt.unplaced, Stmt.unplaced, equal]⟩

theorem block_of_spelling : (b : Block) → b.WellShaped → {ts : List Lexeme} →
    ts.map bare = block b → ∃ v, Phrase .block ts v ∧ v.unplaced = b.unplaced
  | .mk decls body, shaped, ts, spelled => by
    simp only [block, List.append_assoc, List.cons_append] at spelled
    obtain ⟨t, us, rfl, left, spelled⟩ := List.map_eq_cons_iff.mp spelled
    obtain ⟨us, vs, rfl, first, spelled⟩ := List.map_eq_append_iff.mp spelled
    obtain ⟨vs, ws, rfl, second, spelled⟩ := List.map_eq_append_iff.mp spelled
    obtain ⟨u, rfl, right⟩ := List.map_eq_singleton_iff.mp spelled
    obtain ⟨ds, declared, declsEqual⟩ := varDecls_of_spelling first
    obtain ⟨ss, phrase, bodyEqual⟩ := stmts_of_spelling body shaped.2 second
    have whole := Phrase.block (kindOf_of_bare left) declared phrase (kindOf_of_bare right)
    exact ⟨_, by simpa using whole, by rw [Block.unplaced, Block.unplaced, declsEqual, bodyEqual]⟩

theorem stmts_of_spelling : (ss : List Stmt) → Stmt.AllWellShaped ss → {ts : List Lexeme} →
    ts.map bare = stmts ss → ∃ vs, Phrase .stmts ts vs ∧ Stmt.unplacedAll vs = Stmt.unplacedAll ss
  | [], _, ts, spelled => by
    obtain rfl : ts = [] := List.map_eq_nil_iff.mp spelled
    exact ⟨[], .noStmts, rfl⟩
  | s :: ss, shaped, ts, spelled => by
    obtain ⟨us, vs, rfl, first, rest⟩ := List.map_eq_append_iff.mp spelled
    obtain ⟨v, phrase, equal⟩ := stmt_of_spelling s shaped.1 first
    obtain ⟨more, others, equals⟩ := stmts_of_spelling ss shaped.2 rest
    exact ⟨v :: more, .moreStmts phrase others, by
      rw [Stmt.unplacedAll, Stmt.unplacedAll, equal, equals]⟩

end

/-! ## Declarations -/

theorem decl_of_spelling {d : Decl} (shaped : d.WellShaped) {ts : List Lexeme}
    (spelled : ts.map bare = decl d) : ∃ v, Phrase .decl ts v ∧ v.unplaced = d.unplaced := by
  cases d with
  | var d =>
    obtain ⟨v, phrase, equal⟩ := varDecl_of_spelling spelled
    exact ⟨_, .declVar phrase, by rw [Decl.unplaced, Decl.unplaced, equal]⟩
  | fn d =>
    simp only [decl, List.append_assoc, List.cons_append] at spelled
    obtain ⟨us, vs, rfl, first, spelled⟩ := List.map_eq_append_iff.mp spelled
    obtain ⟨f, vs, rfl, named, spelled⟩ := List.map_eq_cons_iff.mp spelled
    obtain ⟨t, vs, rfl, left, spelled⟩ := List.map_eq_cons_iff.mp spelled
    obtain ⟨vs, ws, rfl, middle, spelled⟩ := List.map_eq_append_iff.mp spelled
    obtain ⟨u, ws, rfl, right, spelled⟩ := List.map_eq_cons_iff.mp spelled
    obtain ⟨τ, typed, typeEqual⟩ := type_of_spelling first
    obtain ⟨b, body, bodyEqual⟩ := block_of_spelling d.body shaped.body spelled
    by_cases empty : d.formals = []
    · obtain rfl : vs = [] := by simpa [empty] using middle
      have whole := Phrase.fnDeclPlain typed (kindOf_of_bare named) (kindOf_of_bare left)
        (kindOf_of_bare right) body
      refine ⟨_, .declFn (by simpa using whole), ?_⟩
      simp [Decl.unplaced, empty, typeEqual, bodyEqual, unplaced_of_bare named]
    · obtain ⟨ds, formals, formalsEqual⟩ := formals_of_spelling empty middle
      have whole := Phrase.fnDecl typed (kindOf_of_bare named) (kindOf_of_bare left) formals
        (kindOf_of_bare right) body
      refine ⟨_, .declFn (by simpa using whole), ?_⟩
      simp [Decl.unplaced, formalsEqual, typeEqual, bodyEqual, unplaced_of_bare named]
  | struct d =>
    simp only [decl, List.cons_append] at spelled
    obtain ⟨t, us, rfl, word, spelled⟩ := List.map_eq_cons_iff.mp spelled
    obtain ⟨s, us, rfl, named, spelled⟩ := List.map_eq_cons_iff.mp spelled
    obtain ⟨u, us, rfl, left, spelled⟩ := List.map_eq_cons_iff.mp spelled
    obtain ⟨us, vs, rfl, middle, spelled⟩ := List.map_eq_append_iff.mp spelled
    obtain ⟨v, vs, rfl, right, spelled⟩ := List.map_eq_cons_iff.mp spelled
    obtain ⟨w, rfl, closes⟩ := List.map_eq_singleton_iff.mp spelled
    obtain ⟨ds, fields, equal⟩ := fields_of_spelling shaped.nonempty middle
    have whole := Phrase.structDecl (kindOf_of_bare word) (kindOf_of_bare named)
      (kindOf_of_bare left) fields (kindOf_of_bare right) (kindOf_of_bare closes)
    refine ⟨_, .declStruct (by simpa using whole), ?_⟩
    simp [Decl.unplaced, equal, unplaced_of_bare named]

/-- Tokens that spell a program are that program, up to positions. -/
theorem program_of_spelling {ds : List Decl} (shaped : ∀ d ∈ ds, d.WellShaped) {ts : List Lexeme}
    (spelled : ts.map bare = ds.flatMap decl) :
    ∃ vs, Phrase .program ts vs ∧ vs.map Decl.unplaced = ds.map Decl.unplaced := by
  induction ds generalizing ts with
  | nil =>
    obtain rfl : ts = [] := List.map_eq_nil_iff.mp spelled
    exact ⟨[], .noDecls, rfl⟩
  | cons d ds ih =>
    rw [List.forall_mem_cons] at shaped
    obtain ⟨us, vs, rfl, first, rest⟩ := List.map_eq_append_iff.mp spelled
    obtain ⟨v, phrase, equal⟩ := decl_of_spelling shaped.1 first
    obtain ⟨more, others, equals⟩ := ih shaped.2 rest
    exact ⟨v :: more, .moreDecls phrase others, by simp [equal, equals]⟩

end Cinder.Spelling
