import Cinder.Proofs.Grammar
import Cinder.Proofs.Reading

/-!
# Phrases are read

A phrase that is followed by something that cannot continue it is read to its end, and its tree is
what the reader returns. Phrases built by left recursion are handled by equations: reading such a
phrase leaves the reader's loop with the tree so far and what follows.
-/
namespace Cinder.Parse

open Grammar

/-- The token kinds that phrases of a nonterminal begin with. -/
def starts : Nonterminal → Kind → Bool
  | .program, k | .decl, k | .varDecl, k | .fnDecl, k | .formal, k | .type, k | .fields, k
  | .formals, k | .varDecls, k => startsType k
  | .structDecl, k => k = .structWord
  | .stmts, k | .stmt, k =>
    k ∈ [Kind.identifier, .cinWord, .coutWord, .ifWord, .whileWord, .repeatWord, .returnWord]
  | .block, k => k = .leftBrace
  | .exp, k | .operation _, k | .args, k =>
    k ∈ [Kind.identifier, .intLiteral, .stringLiteral, .trueWord, .falseWord, .leftParen, .not,
      .minus]
  | .term, k =>
    k ∈ [Kind.identifier, .intLiteral, .stringLiteral, .trueWord, .falseWord, .leftParen]
  | .target, k => k = .identifier || k = .leftParen
  | .call, k | .loc, k => k = .identifier

/-- The nonterminals that the empty list is a phrase of. -/
def nullable : Nonterminal → Bool
  | .program | .varDecls | .stmts => true
  | _ => false

/-- How a phrase begins. -/
def Leads (n : Nonterminal) (ts : List Lexeme) : Prop :=
  ts = [] ∧ nullable n ∨ ∃ t us, ts = t :: us ∧ starts n (kindOf t)

theorem Leads.widen {n m : Nonterminal} {ts : List Lexeme} (us : List Lexeme) (leads : Leads n ts)
    (full : nullable n = false) (wider : ∀ k, starts n k → starts m k) : Leads m (ts ++ us) := by
  obtain ⟨-, empty⟩ | ⟨t, vs, rfl, first⟩ := leads
  · rw [full] at empty
    cases empty
  · exact .inr ⟨t, vs ++ us, rfl, wider _ first⟩

theorem leads {n : Nonterminal} {ts : List Lexeme} {v : n.Tree} (phrase : Phrase n ts v) :
    Leads n ts := by
  induction phrase with
  | noDecls | noVars | noStmts => exact .inl ⟨rfl, rfl⟩
  | moreDecls _ _ ih | moreFields _ _ ih | moreVars _ _ ih | moreStmts _ _ ih =>
    exact ih.widen _ rfl fun _ first => first
  | declVar _ ih | declFn _ ih | lastField _ ih | lastFormal _ ih | lastArg _ ih | exp _ ih
  | operand _ ih =>
    exact ih
  | varDecl _ _ _ ih | formal _ _ ih | moreFormals _ _ _ ih | moreArgs _ _ _ ih | chain _ _ _ _ ih
  | comparison _ _ _ ih | select _ _ _ ih =>
    exact ih.widen _ rfl fun _ first => first
  | fnDeclPlain _ _ _ _ _ ih | fnDecl _ _ _ _ _ _ ih =>
    simp only [List.append_assoc]
    exact ih.widen _ rfl fun _ first => first
  | declStruct _ ih | target _ ih | unaryTerm _ ih | termLoc _ ih | termCall _ ih =>
    simpa using ih.widen [] rfl (by simp +contextual [starts, startsType])
  | assign _ _ _ ih | increment _ _ _ ih | decrement _ _ _ ih | callStmt _ _ ih =>
    exact ih.widen _ rfl (by simp +contextual [starts])
  | assignStmt _ _ _ _ ih =>
    simp only [List.append_assoc]
    exact ih.widen _ rfl (by simp +contextual [starts])
  | structDecl first | typeInt first | typeBool first | typeVoid first | typeStruct first
  | read first | write first | ifThen first | ifElse first | whileLoop first | repeatLoop first
  | returnPlain first | returnValue first | block first | targetParens first | not first
  | negate first | int first | string first | true first | false first | parens first
  | callPlain first | call first | ident first =>
    exact .inr ⟨_, _, rfl, by simp [starts, startsType, first]⟩

/-- The levels from a level on, the looser before the tighter. -/
def levels : Option Level → List Level
  | none => []
  | some level => Level.all.dropWhile (· ≠ level)

theorem levels_some (level : Level) : levels (some level) = level :: levels level.tighter := by
  cases level <;> rfl

/-- The token kinds that are read as part of the phrase before them. -/
def continues : Nonterminal → Kind → Bool
  | .loc, k => k = .dot
  | .term, k => k = .dot || k = .leftParen
  | .operation level, k =>
    k = .dot || k = .leftParen || (k.binaryOp?.any fun op => op.level ∈ levels level)
  | .exp, k => k = .dot || k = .leftParen || k = .assign || k.binaryOp?.isSome
  | .varDecls, k => startsType k
  | .stmts, k => k ≠ .rightBrace
  | .stmt, k => k = .elseWord
  | _, _ => false

/-- What follows does not continue a phrase. -/
def Stops (n : Nonterminal) (rest : List Lexeme) : Prop :=
  ∀ t us, rest = t :: us → continues n (kindOf t) = false

theorem stops_cons {n : Nonterminal} {t : Lexeme} {us : List Lexeme} :
    Stops n (t :: us) ↔ continues n (kindOf t) = false := by
  constructor
  · intro stops
    exact stops t us rfl
  · intro h u vs same
    cases same
    exact h

theorem Stops.weaken {n m : Nonterminal} {rest : List Lexeme} (stops : Stops n rest)
    (fewer : ∀ k, continues m k → continues n k) : Stops m rest := by
  intro t us same
  have stopped := stops t us same
  by_contra continued
  rw [fewer _ (by simpa using continued)] at stopped
  cases stopped

theorem Stops.tighter {level : Level} {rest : List Lexeme}
    (stops : Stops (.operation (some level)) rest) : Stops (.operation level.tighter) rest := by
  refine stops.weaken fun k continued => ?_
  simp only [continues, levels_some, Bool.or_eq_true, Option.any_eq_true] at continued ⊢
  rcases continued with marks | ⟨op, written, tight⟩
  · exact .inl marks
  · exact .inr ⟨op, written, by simp at tight ⊢; exact .inr tight⟩

/-- An operator ends the operand to the left of it. -/
theorem stops_operator {level : Level} {op : BinaryOp} {t : Lexeme} {us : List Lexeme}
    (written : (kindOf t, op) ∈ level.operators) :
    Stops (.operation level.tighter) (t :: us) := by
  obtain ⟨written, same⟩ := Level.mem_operators.mp written
  rw [stops_cons]
  have looser : level ∉ levels level.tighter := by cases level <;> decide
  have notDot : kindOf t ≠ .dot := by
    intro kind
    rw [kind] at written
    cases written
  have notParen : kindOf t ≠ .leftParen := by
    intro kind
    rw [kind] at written
    cases written
  simp [continues, written, same, looser, notDot, notParen]

theorem operator?_of_stops {level : Level} {t : Lexeme} {us : List Lexeme}
    (stops : Stops (.operation (some level)) (t :: us)) : level.operator? (kindOf t) = none := by
  rw [stops_cons] at stops
  simp only [continues, levels_some, Bool.or_eq_false_iff, Option.any_eq_false] at stops
  simp only [Level.operator?, Option.filter_eq_none_iff]
  intro op written
  have tight := stops.2 op written
  simp at tight ⊢
  exact tight.1

theorem operations_of_stops {level : Level} {rest : List Lexeme} (tighter : List Level) (e : Exp)
    (stops : Stops (.operation (some level)) rest) :
    forget (operations level tighter e rest) = .ok (e, rest) := by
  cases rest with
  | nil => exact forget_operations_nil level tighter e
  | cons t us => rw [forget_operations_cons, operator?_of_stops stops]

theorem startsOperation_of_stops {level : Level} {rest : List Lexeme}
    (stops : Stops (.operation (some level)) rest) : startsOperation level rest = false := by
  cases rest with
  | nil => rfl
  | cons t us => simp [startsOperation, operator?_of_stops stops]

/-- How a phrase is read: which reader reads it, and what may follow. -/
def Reads : (n : Nonterminal) → List Lexeme → n.Tree → Prop
  | .program, ts, ds => decls ts = .ok ds
  | .decl, ts, d => ∀ rest, forget (decl (ts ++ rest)) = .ok (d, rest)
  | .varDecl, ts, d => ∀ rest, forget (varDecl (ts ++ rest)) = .ok (d, rest) ∧
      forget (decl (ts ++ rest)) = .ok (.var d, rest)
  | .structDecl, ts, d => ∀ rest, forget (decl (ts ++ rest)) = .ok (.struct d, rest)
  | .fnDecl, ts, d => ∀ rest, forget (decl (ts ++ rest)) = .ok (.fn d, rest)
  | .formal, ts, d => ∀ rest, forget (formal (ts ++ rest)) = .ok (d, rest)
  | .type, ts, type => ∀ rest, forget (typeExp (ts ++ rest)) = .ok (type, rest)
  | .fields, ts, ds => ∀ t rest, kindOf t = .rightBrace →
      forget (fieldsFrom (ts ++ t :: rest)) = .ok (ds, rest)
  | .formals, ts, ds => ∀ t rest, kindOf t = .rightParen →
      forget (formalsFrom (ts ++ t :: rest)) = .ok (ds, rest)
  | .varDecls, ts, ds => ∀ rest, Stops .varDecls rest →
      forget (varDecls (ts ++ rest)) = .ok (ds, rest)
  | .stmts, ts, ss => ∀ rest, Stops .stmts rest → forget (stmts (ts ++ rest)) = .ok (ss, rest)
  | .stmt, ts, s => ∀ rest, Stops .stmt rest → forget (stmt (ts ++ rest)) = .ok (s, rest)
  | .block, ts, b => ∀ rest, forget (block (ts ++ rest)) = .ok (b, rest)
  | .exp, ts, e => ∀ rest, Stops .exp rest → forget (exp (ts ++ rest)) = .ok (e, rest)
  | .target, ts, x => x.isPlace ∧ ∀ rest, Stops (.operation (some .disjunction)) rest →
      forget (operation Level.all (ts ++ rest)) = .ok (x, rest)
  | .operation level, ts, e =>
      (∀ looser, level = some looser → looser.chains → ∀ rest,
        Stops (.operation looser.tighter) rest →
        forget (operation (levels level) (ts ++ rest)) =
          forget (operations looser (levels looser.tighter) e rest)) ∧
      ∀ rest, Stops (.operation level) rest →
        forget (operation (levels level) (ts ++ rest)) = .ok (e, rest)
  | .term, ts, e => ∀ rest, Stops .term rest → forget (term (ts ++ rest)) = .ok (e, rest)
  | .call, ts, c => ∃ t us, ts = t :: us ∧ kindOf t = .identifier ∧ c.1 = identOf t ∧
      ∀ rest, nextIs .leftParen (us ++ rest) ∧ forget (arguments (us ++ rest)) = .ok (c.2, rest)
  | .args, ts, es => ∀ t rest, kindOf t = .rightParen →
      forget (argumentsFrom (ts ++ t :: rest)) = .ok (es, rest)
  | .loc, ts, x => ∃ t us, ts = t :: us ∧ kindOf t = .identifier ∧
      (∀ u vs, us = u :: vs → kindOf u = .dot) ∧
      ∀ rest, forget (selections (.ident (identOf t)) (us ++ rest)) = forget (selections x rest)

theorem expect_cons {kind : Kind} {t : Lexeme} (rest : List Lexeme) (same : kindOf t = kind) :
    forget (expect kind (t :: rest)) = .ok (t, rest) := by
  rw [forget_expect_cons, if_pos same]

theorem ident_cons {t : Lexeme} (rest : List Lexeme) (kind : kindOf t = .identifier) :
    forget (ident (t :: rest)) = .ok (identOf t, rest) := by
  rw [forget_ident, expect_cons rest kind]
  rfl

/-! ## Expressions -/

theorem selections_of_stops {rest : List Lexeme} (x : Exp) (stops : Stops .loc rest) :
    forget (selections x rest) = .ok (x, rest) := by
  cases rest with
  | nil => exact forget_selections_nil x
  | cons t us =>
    rw [stops_cons] at stops
    rw [forget_selections_cons, if_neg (by simpa [continues] using stops)]

theorem place_of_reads {ts rest : List Lexeme} {x : Exp} (reads : Reads .loc ts x)
    (stops : Stops .loc rest) : forget (place (ts ++ rest)) = .ok (x, rest) := by
  obtain ⟨t, us, rfl, kind, -, selected⟩ := reads
  rw [List.cons_append, forget_place, ident_cons _ kind]
  exact (selected rest).trans (selections_of_stops x stops)

theorem reads_select {ts : List Lexeme} {t u : Lexeme} {x : Exp} (reads : Reads .loc ts x)
    (dot : kindOf t = .dot) (kind : kindOf u = .identifier) :
    Reads .loc (ts ++ [t, u]) (.dot x (identOf u)) := by
  obtain ⟨first, us, rfl, kind', dotted, selected⟩ := reads
  refine ⟨first, us ++ [t, u], rfl, kind', ?_, fun rest => ?_⟩
  · intro v vs same
    cases us with
    | nil => cases same; exact dot
    | cons w ws => cases same; exact dotted _ _ rfl
  · rw [List.append_assoc, selected, List.cons_append, forget_selections_cons, if_pos dot,
      List.cons_append, List.nil_append, ident_cons _ kind]
    rfl

/-- No call begins where a place stands. -/
theorem nextIs_of_reads {ts rest : List Lexeme} {t : Lexeme} {us : List Lexeme} {x : Exp}
    (whole : ts = t :: us) (reads : Reads .loc ts x)
    (stops : ∀ u vs, rest = u :: vs → kindOf u ≠ .leftParen) :
    nextIs .leftParen (us ++ rest) = false := by
  obtain ⟨_, _, rfl, -, dotted, -⟩ := reads
  cases whole
  cases us with
  | nil =>
    cases rest with
    | nil => rfl
    | cons u vs => simpa [nextIs] using stops u vs rfl
  | cons u vs => simp [nextIs, dotted u vs rfl]

theorem reads_termLoc {ts : List Lexeme} {x : Exp} (reads : Reads .loc ts x) :
    Reads .term ts x := by
  intro rest stops
  obtain ⟨t, us, whole, kind, -⟩ := id reads
  have apart : nextIs .leftParen (us ++ rest) = false := by
    refine nextIs_of_reads whole reads fun u vs same => ?_
    have stopped := stops u vs same
    simp only [continues, Bool.or_eq_false_iff, decide_eq_false_iff_not] at stopped
    exact stopped.2
  have taken := place_of_reads reads (stops.weaken (by simp +contextual [continues]))
  rw [whole, List.cons_append] at taken ⊢
  rw [forget_term_cons, kind]
  simp only [apart, Bool.false_eq_true, if_false]
  exact taken

theorem reads_termCall {ts : List Lexeme} {c : Ident × List Exp} (reads : Reads .call ts c) :
    Reads .term ts (.call c.1 c.2) := by
  intro rest _
  obtain ⟨t, us, rfl, kind, same, read⟩ := reads
  rw [List.cons_append, forget_term_cons, kind]
  simp only [(read rest).1, if_true, (read rest).2, ok_bind, same]
  rfl

theorem reads_parens {ts : List Lexeme} {t u : Lexeme} {e : Exp} (left : kindOf t = .leftParen)
    (reads : Reads .exp ts e) (right : kindOf u = .rightParen) :
    Reads .term (t :: ts ++ [u]) e := by
  intro rest _
  have stops : Stops .exp (u :: rest) := by simp [stops_cons, continues, right, Kind.binaryOp?]
  have inner := reads (u :: rest) stops
  rw [List.append_assoc, List.cons_append, forget_term_cons, left, List.cons_append,
    List.nil_append]
  simp only [inner, ok_bind, expect_cons rest right]
  rfl

theorem reads_unaryTerm {ts : List Lexeme} {e : Exp} (leads : Leads .term ts)
    (reads : Reads .term ts e) : Reads (.operation none) ts e := by
  refine ⟨by rintro _ ⟨⟩, fun rest stops => ?_⟩
  have read := reads rest (stops.weaken (by simp +contextual [continues]))
  obtain ⟨-, empty⟩ | ⟨t, us, rfl, first⟩ := leads
  · cases empty
  · simp only [levels, List.cons_append, forget_operation_nil, forget_operand_cons] at read ⊢
    split
    · next kind => simp [starts, kind] at first
    · next kind => simp [starts, kind] at first
    · exact read

/-- The operand of a unary operator is all that follows it. -/
theorem reads_unary {ts : List Lexeme} {t : Lexeme} {op : UnaryOp} {e : Exp}
    (kind : kindOf t = .not ∧ op = .not ∨ kindOf t = .minus ∧ op = .negate)
    (reads : Reads (.operation none) ts e) : Reads (.operation none) (t :: ts) (.unary op e) := by
  refine ⟨by rintro _ ⟨⟩, fun rest stops => ?_⟩
  have read := reads.2 rest stops
  rw [levels, forget_operation_nil] at read ⊢
  rw [List.cons_append, forget_operand_cons]
  rcases kind with ⟨kind, rfl⟩ | ⟨kind, rfl⟩
  · rw [kind]
    simp only [read, ok_bind]
    rfl
  · rw [kind]
    simp only [read, ok_bind]
    rfl

theorem reads_operand {level : Level} {ts : List Lexeme} {e : Exp}
    (reads : Reads (.operation level.tighter) ts e) : Reads (.operation (some level)) ts e := by
  have enter : ∀ rest, Stops (.operation level.tighter) rest →
      forget (operation (levels (some level)) (ts ++ rest)) =
        forget (operations level (levels level.tighter) e rest) := by
    intro rest stops
    rw [levels_some, forget_operation_cons, reads.2 rest stops]
    rfl
  refine ⟨?_, fun rest stops => ?_⟩
  · rintro _ ⟨⟩ _ rest stops
    exact enter rest stops
  · rw [enter rest stops.tighter, operations_of_stops _ _ stops]

theorem reads_chain {level : Level} {op : BinaryOp} {ts us : List Lexeme} {t : Lexeme} {x y : Exp}
    (chains : level ≠ .comparison) (written : (kindOf t, op) ∈ level.operators)
    (left : Reads (.operation (some level)) ts x)
    (right : Reads (.operation level.tighter) us y) :
    Reads (.operation (some level)) (ts ++ t :: us) (.binary op x y) := by
  have chains : level.chains := Level.chains_iff.mpr chains
  have operator : level.operator? (kindOf t) = some op := Level.operator?_eq_some.mpr written
  have enter : ∀ rest, Stops (.operation level.tighter) rest →
      forget (operation (levels (some level)) (ts ++ t :: us ++ rest)) =
        forget (operations level (levels level.tighter) (.binary op x y) rest) := by
    intro rest stops
    rw [List.append_assoc, List.cons_append,
      left.1 level rfl chains _ (stops_operator written), forget_operations_cons, operator]
    simp only [right.2 rest stops, ok_bind, chains, if_true]
  refine ⟨?_, fun rest stops => ?_⟩
  · rintro _ ⟨⟩ _ rest stops
    exact enter rest stops
  · rw [enter rest stops.tighter, operations_of_stops _ _ stops]

theorem reads_comparison {op : BinaryOp} {ts us : List Lexeme} {t : Lexeme} {x y : Exp}
    (written : (kindOf t, op) ∈ Level.comparison.operators)
    (left : Reads (.operation (some .sum)) ts x) (right : Reads (.operation (some .sum)) us y) :
    Reads (.operation (some .comparison)) (ts ++ t :: us) (.binary op x y) := by
  have operator : Level.comparison.operator? (kindOf t) = some op := Level.operator?_eq_some.mpr written
  have single : ¬ Level.comparison.chains := by decide
  refine ⟨?_, fun rest stops => ?_⟩
  · rintro _ ⟨⟩ chains
    exact absurd chains single
  · have follows : Stops (.operation (some .sum)) (t :: (us ++ rest)) := stops_operator written
    have ends : Stops (.operation (some .sum)) rest := stops.tighter
    rw [levels_some, forget_operation_cons, List.append_assoc, List.cons_append]
    simp only [Level.tighter, left.2 _ follows, ok_bind, forget_operations_cons, operator,
      right.2 rest ends, single, startsOperation_of_stops stops]
    rfl

theorem reads_disjunction {ts : List Lexeme} {e : Exp} (leads : Leads .term ts)
    (reads : Reads .term ts e) : Reads (.operation (some .disjunction)) ts e := by
  have product : Reads (.operation (some .product)) ts e :=
    reads_operand (reads_unaryTerm leads reads)
  have sum : Reads (.operation (some .sum)) ts e := reads_operand product
  have comparison : Reads (.operation (some .comparison)) ts e := reads_operand sum
  have conjunction : Reads (.operation (some .conjunction)) ts e := reads_operand comparison
  exact reads_operand conjunction

/-- Nothing is assigned to an expression that no `=` follows. -/
theorem reads_exp {ts : List Lexeme} {e : Exp}
    (reads : ∀ rest, Stops (.operation (some .disjunction)) rest →
      forget (operation Level.all (ts ++ rest)) = .ok (e, rest)) : Reads .exp ts e := by
  intro rest stops
  have open' : Stops (.operation (some .disjunction)) rest := by
    refine stops.weaken fun k => ?_
    simp only [continues]
    cases k.binaryOp? <;> simp +contextual
  rw [forget_exp, reads rest open', ok_bind]
  cases rest with
  | nil => rfl
  | cons t us =>
    rw [stops_cons] at stops
    have unassigned : kindOf t ≠ .assign := by
      intro assigns
      simp [continues, assigns] at stops
    simp only [unassigned, if_false]

theorem reads_assign {ts us : List Lexeme} {t : Lexeme} {x e : Exp} (target : Reads .target ts x)
    (assigns : kindOf t = .assign) (value : Reads .exp us e) :
    Reads .exp (ts ++ t :: us) (.assign x e) := by
  intro rest stops
  have stopped : Stops (.operation (some .disjunction)) (t :: us ++ rest) := by
    rw [List.cons_append, stops_cons, assigns]
    rfl
  rw [forget_exp, List.append_assoc, target.2 _ stopped, ok_bind]
  simp only [List.cons_append, assigns, if_true, target.1, value rest stops, ok_bind]
  rfl

theorem isPlace_of_loc {ts : List Lexeme} {x : Exp} (phrase : Phrase .loc ts x) : x.isPlace := by
  cases phrase <;> rfl

theorem reads_targetParens {ts : List Lexeme} {t u : Lexeme} {x : Exp}
    (left : kindOf t = .leftParen) (target : Reads .target ts x) (right : kindOf u = .rightParen) :
    Reads .target (t :: ts ++ [u]) x := by
  have leads : Leads .term (t :: ts ++ [u]) := .inr ⟨t, _, rfl, by simp [starts, left]⟩
  have inner : Reads .exp ts x := reads_exp target.2
  exact ⟨target.1, (reads_disjunction leads (reads_parens left inner right)).2⟩

theorem arguments_cons {t u : Lexeme} {us : List Lexeme} (left : kindOf t = .leftParen)
    (other : kindOf u ≠ .rightParen) :
    forget (arguments (t :: u :: us)) = forget (argumentsFrom (u :: us)) := by
  rw [forget_arguments, expect_cons _ left]
  simp only [ok_bind, other, if_false]

theorem reads_call {ts : List Lexeme} {t u v : Lexeme} {args : List Exp}
    (callee : kindOf t = .identifier) (left : kindOf u = .leftParen) (leads : Leads .args ts)
    (reads : Reads .args ts args) (right : kindOf v = .rightParen) :
    Reads .call ([t, u] ++ ts ++ [v]) (identOf t, args) := by
  refine ⟨t, u :: ts ++ [v], rfl, callee, rfl, fun rest => ⟨by simp [nextIs, left], ?_⟩⟩
  have read := reads v rest right
  obtain ⟨-, empty⟩ | ⟨w, ws, rfl, first⟩ := leads
  · cases empty
  · have other : kindOf w ≠ .rightParen := by
      intro kind
      simp [starts, kind] at first
    have whole : u :: w :: ws ++ [v] ++ rest = u :: w :: (ws ++ v :: rest) := by simp
    rw [whole, arguments_cons left other]
    exact read

theorem argumentsFrom_last {ts rest : List Lexeme} {t : Lexeme} {e : Exp} (reads : Reads .exp ts e)
    (right : kindOf t = .rightParen) :
    forget (argumentsFrom (ts ++ t :: rest)) = .ok ([e], rest) := by
  have stops : Stops .exp (t :: rest) := by simp [stops_cons, continues, right, Kind.binaryOp?]
  rw [forget_argumentsFrom, reads _ stops]
  simp [right]

theorem argumentsFrom_more {ts us rest : List Lexeme} {t u : Lexeme} {e : Exp} {es : List Exp}
    (reads : Reads .exp ts e) (comma : kindOf t = .comma) (more : Reads .args us es)
    (right : kindOf u = .rightParen) :
    forget (argumentsFrom (ts ++ t :: us ++ u :: rest)) = .ok (e :: es, rest) := by
  have stops : Stops .exp (t :: us ++ u :: rest) := by
    simp [stops_cons, continues, comma, Kind.binaryOp?]
  rw [forget_argumentsFrom, List.append_assoc, reads _ stops, ok_bind]
  simp only [List.cons_append, comma, if_true, more u rest right, ok_bind]
  rfl

/-! ## Statements -/

theorem stops_semicolon {n : Nonterminal} {t : Lexeme} {us : List Lexeme}
    (inner : n = .exp ∨ n = .loc) (mark : kindOf t = .semicolon) : Stops n (t :: us) := by
  rcases inner with rfl | rfl <;> simp [stops_cons, continues, mark, Kind.binaryOp?]

theorem closedExp_of_reads {ts : List Lexeme} {t : Lexeme} {e : Exp} (rest : List Lexeme)
    (reads : Reads .exp ts e) (mark : kindOf t = .semicolon) :
    forget (closedExp (ts ++ t :: rest)) = .ok (e, rest) := by
  rw [forget_closedExp, reads _ (stops_semicolon (.inl rfl) mark)]
  simp only [ok_bind, expect_cons rest mark]
  rfl

theorem governed_of_reads {ts us : List Lexeme} {t u : Lexeme} {e : Exp} {b : Block}
    (rest : List Lexeme) (left : kindOf t = .leftParen) (reads : Reads .exp ts e)
    (right : kindOf u = .rightParen) (body : Reads .block us b) :
    governed (t :: (ts ++ u :: (us ++ rest))) = .ok ((e, b), rest) := by
  have stops : Stops .exp (u :: (us ++ rest)) := by
    simp [stops_cons, continues, right, Kind.binaryOp?]
  unfold governed
  rw [forget_condition, expect_cons _ left, ok_bind]
  simp only [reads _ stops, ok_bind, expect_cons _ right, pure_bind, body rest]
  rfl

theorem reads_assignStmt {ts us : List Lexeme} {t u : Lexeme} {x e : Exp} (target : Reads .loc ts x)
    (assigns : kindOf t = .assign) (value : Reads .exp us e) (mark : kindOf u = .semicolon) :
    Reads .stmt (ts ++ t :: us ++ [u]) (.assign x e) := by
  intro rest _
  have stops : Stops .loc (t :: (us ++ u :: rest)) := by simp [stops_cons, continues, assigns]
  have taken := place_of_reads target stops
  obtain ⟨v, vs, rfl, kind, -⟩ := id target
  have apart : nextIs .leftParen (vs ++ t :: (us ++ u :: rest)) = false := by
    refine nextIs_of_reads rfl target fun w ws same => ?_
    cases same
    simp [assigns]
  have whole : v :: vs ++ t :: us ++ [u] ++ rest = v :: (vs ++ t :: (us ++ u :: rest)) := by simp
  rw [List.cons_append] at taken
  rw [whole, forget_stmt_cons, kind]
  simp only [apart, Bool.false_eq_true, if_false]
  rw [forget_placeStmt, taken]
  simp only [ok_bind, assigns, closedExp_of_reads rest value mark]
  rfl

/-- Increments and decrements: a place, the operator and a semicolon. -/
theorem reads_step {ts : List Lexeme} {t u : Lexeme} {x : Exp} {s : Stmt} (target : Reads .loc ts x)
    (steps : kindOf t = .increment ∧ s = .increment x ∨ kindOf t = .decrement ∧ s = .decrement x)
    (mark : kindOf u = .semicolon) : Reads .stmt (ts ++ [t, u]) s := by
  intro rest _
  have stops : Stops .loc (t :: u :: rest) := by
    rcases steps with ⟨steps, -⟩ | ⟨steps, -⟩ <;> simp [stops_cons, continues, steps]
  have taken := place_of_reads target stops
  obtain ⟨v, vs, rfl, kind, -⟩ := id target
  have apart : nextIs .leftParen (vs ++ t :: u :: rest) = false := by
    refine nextIs_of_reads rfl target fun w ws same => ?_
    cases same
    rcases steps with ⟨steps, -⟩ | ⟨steps, -⟩ <;> simp [steps]
  have whole : v :: vs ++ [t, u] ++ rest = v :: (vs ++ t :: u :: rest) := by simp
  rw [List.cons_append] at taken
  rw [whole, forget_stmt_cons, kind]
  simp only [apart, Bool.false_eq_true, if_false]
  rw [forget_placeStmt, taken]
  rcases steps with ⟨steps, rfl⟩ | ⟨steps, rfl⟩
  · simp only [ok_bind, steps, expect_cons rest mark]
    rfl
  · simp only [ok_bind, steps, expect_cons rest mark]
    rfl

theorem reads_read {ts : List Lexeme} {t u v : Lexeme} {x : Exp} (word : kindOf t = .cinWord)
    (arrow : kindOf u = .read) (target : Reads .loc ts x) (mark : kindOf v = .semicolon) :
    Reads .stmt ([t, u] ++ ts ++ [v]) (.read x) := by
  intro rest _
  have taken := place_of_reads target (@stops_semicolon _ _ rest (.inr rfl) mark)
  have whole : [t, u] ++ ts ++ [v] ++ rest = t :: u :: (ts ++ v :: rest) := by simp
  rw [whole, forget_stmt_cons, word]
  simp only [forget_readStmt, expect_cons _ arrow, ok_bind, taken, expect_cons rest mark]
  rfl

theorem reads_write {ts : List Lexeme} {t u v : Lexeme} {e : Exp} (word : kindOf t = .coutWord)
    (arrow : kindOf u = .write) (value : Reads .exp ts e) (mark : kindOf v = .semicolon) :
    Reads .stmt ([t, u] ++ ts ++ [v]) (.write e) := by
  intro rest _
  have whole : [t, u] ++ ts ++ [v] ++ rest = t :: u :: (ts ++ v :: rest) := by simp
  rw [whole, forget_stmt_cons, word]
  simp only [forget_writeStmt, expect_cons _ arrow, ok_bind, closedExp_of_reads rest value mark]
  rfl

theorem reads_ifThen {ts us : List Lexeme} {t u v : Lexeme} {e : Exp} {b : Block}
    (word : kindOf t = .ifWord) (left : kindOf u = .leftParen) (reads : Reads .exp ts e)
    (right : kindOf v = .rightParen) (body : Reads .block us b) :
    Reads .stmt ([t, u] ++ ts ++ v :: us) (.ifThen e b) := by
  intro rest stops
  have alone : nextIs .elseWord rest = false := by
    cases rest with
    | nil => rfl
    | cons w ws => simpa [stops_cons, continues, nextIs] using stops
  have whole : [t, u] ++ ts ++ v :: us ++ rest = t :: u :: (ts ++ v :: (us ++ rest)) := by simp
  rw [whole, forget_stmt_cons, word]
  simp only [governed_of_reads rest left reads right body, ok_bind, alone, Bool.false_eq_true,
    if_false]
  rfl

theorem reads_ifElse {ts us vs : List Lexeme} {t u v w : Lexeme} {e : Exp} {b c : Block}
    (word : kindOf t = .ifWord) (left : kindOf u = .leftParen) (reads : Reads .exp ts e)
    (right : kindOf v = .rightParen) (yes : Reads .block us b) (other : kindOf w = .elseWord)
    (no : Reads .block vs c) :
    Reads .stmt ([t, u] ++ ts ++ v :: us ++ w :: vs) (.ifElse e b c) := by
  intro rest _
  have whole : [t, u] ++ ts ++ v :: us ++ w :: vs ++ rest =
      t :: u :: (ts ++ v :: (us ++ w :: (vs ++ rest))) := by simp
  rw [whole, forget_stmt_cons, word]
  simp only [governed_of_reads _ left reads right yes, ok_bind, nextIs, other, decide_true, if_true,
    List.tail_cons, no rest]
  rfl

/-- Loops of both kinds: a word, a condition and a block. -/
theorem reads_loop {ts us : List Lexeme} {t u v : Lexeme} {e : Exp} {b : Block} {s : Stmt}
    (word : kindOf t = .whileWord ∧ s = .whileLoop e b ∨
      kindOf t = .repeatWord ∧ s = .repeatLoop e b)
    (left : kindOf u = .leftParen) (reads : Reads .exp ts e) (right : kindOf v = .rightParen)
    (body : Reads .block us b) : Reads .stmt ([t, u] ++ ts ++ v :: us) s := by
  intro rest _
  have whole : [t, u] ++ ts ++ v :: us ++ rest = t :: u :: (ts ++ v :: (us ++ rest)) := by simp
  rw [whole, forget_stmt_cons]
  rcases word with ⟨word, rfl⟩ | ⟨word, rfl⟩
  · simp only [word, governed_of_reads rest left reads right body, ok_bind]
    rfl
  · simp only [word, governed_of_reads rest left reads right body, ok_bind]
    rfl

theorem reads_returnPlain {t u : Lexeme} (word : kindOf t = .returnWord)
    (mark : kindOf u = .semicolon) : Reads .stmt [t, u] (.giveBack none t.1.position) := by
  intro rest _
  simp only [List.cons_append, List.nil_append]
  rw [forget_stmt_cons, word]
  simp only [forget_returnStmt_cons, mark, if_true]

theorem reads_returnValue {ts : List Lexeme} {t u : Lexeme} {e : Exp}
    (word : kindOf t = .returnWord) (leads : Leads .exp ts) (value : Reads .exp ts e)
    (mark : kindOf u = .semicolon) :
    Reads .stmt (t :: ts ++ [u]) (.giveBack (some e) t.1.position) := by
  intro rest _
  have taken := closedExp_of_reads rest value mark
  obtain ⟨-, empty⟩ | ⟨v, vs, rfl, first⟩ := leads
  · cases empty
  · have other : kindOf v ≠ .semicolon := by
      intro kind
      simp [starts, kind] at first
    have whole : t :: v :: vs ++ [u] ++ rest = t :: v :: (vs ++ u :: rest) := by simp
    rw [List.cons_append] at taken
    rw [whole, forget_stmt_cons, word]
    simp only [forget_returnStmt_cons, other, if_false, taken, ok_bind]
    rfl

theorem reads_callStmt {ts : List Lexeme} {t : Lexeme} {c : Ident × List Exp}
    (reads : Reads .call ts c) (mark : kindOf t = .semicolon) :
    Reads .stmt (ts ++ [t]) (.call c.1 c.2) := by
  intro rest _
  obtain ⟨u, us, rfl, kind, same, read⟩ := reads
  have whole : u :: us ++ [t] ++ rest = u :: (us ++ t :: rest) := by simp
  rw [whole, forget_stmt_cons, kind]
  simp only [(read (t :: rest)).1, if_true, forget_callStmt, (read (t :: rest)).2, ok_bind,
    expect_cons rest mark, same]
  rfl

theorem reads_noStmts : Reads .stmts [] [] := by
  intro rest stops
  cases rest with
  | nil => exact forget_stmts_nil
  | cons t us =>
    rw [stops_cons] at stops
    rw [List.nil_append, forget_stmts_cons, if_pos (by simpa [continues] using stops)]

theorem reads_moreStmts {ts us : List Lexeme} {s : Stmt} {ss : List Stmt} (first : Leads .stmt ts)
    (more : Leads .stmts us) (reads : Reads .stmt ts s) (others : Reads .stmts us ss) :
    Reads .stmts (ts ++ us) (s :: ss) := by
  intro rest stops
  have apart : Stops .stmt (us ++ rest) := by
    obtain ⟨rfl, -⟩ | ⟨u, vs, rfl, next⟩ := more
    · refine stops.weaken ?_
      simp +contextual [continues]
    · rw [List.cons_append, stops_cons]
      have other : kindOf u ≠ .elseWord := by
        intro kind
        simp [starts, kind] at next
      simpa [continues] using other
  have read := reads (us ++ rest) apart
  obtain ⟨-, empty⟩ | ⟨t, vs, rfl, next⟩ := first
  · cases empty
  · have other : kindOf t ≠ .rightBrace := by
      intro kind
      simp [starts, kind] at next
    rw [List.cons_append] at read
    rw [List.append_assoc, List.cons_append, forget_stmts_cons, if_neg other, read]
    simp only [ok_bind, others rest stops]
    rfl

theorem reads_noVars : Reads .varDecls [] [] := by
  intro rest stops
  cases rest with
  | nil => exact forget_varDecls_nil
  | cons t us =>
    rw [stops_cons] at stops
    rw [List.nil_append, forget_varDecls_cons, if_neg (by simpa [continues] using stops)]

theorem reads_moreVars {ts us : List Lexeme} {d : VarDecl} {ds : List VarDecl}
    (first : Leads .varDecl ts) (reads : Reads .varDecl ts d) (others : Reads .varDecls us ds) :
    Reads .varDecls (ts ++ us) (d :: ds) := by
  intro rest stops
  have read := (reads (us ++ rest)).1
  obtain ⟨-, empty⟩ | ⟨t, vs, rfl, next⟩ := first
  · cases empty
  · have type : startsType (kindOf t) := next
    rw [List.cons_append] at read
    rw [List.append_assoc, List.cons_append, forget_varDecls_cons, if_pos type, read]
    simp only [ok_bind, others rest stops]
    rfl

theorem reads_block {ts us : List Lexeme} {t u : Lexeme} {ds : List VarDecl} {ss : List Stmt}
    (left : kindOf t = .leftBrace) (declared : Reads .varDecls ts ds) (leads : Leads .stmts us)
    (body : Reads .stmts us ss) (right : kindOf u = .rightBrace) :
    Reads .block (t :: ts ++ us ++ [u]) (.mk ds ss) := by
  intro rest
  have apart : Stops .varDecls (us ++ u :: rest) := by
    obtain ⟨rfl, -⟩ | ⟨v, vs, rfl, next⟩ := leads
    · simp [stops_cons, continues, startsType, right]
    · rw [List.cons_append, stops_cons]
      by_contra type
      simp only [continues, startsType, Bool.not_eq_false, Bool.or_eq_true,
        decide_eq_true_eq] at type
      rcases type with ((type | type) | type) | type <;> simp [starts, type] at next
  have closed : Stops .stmts (u :: rest) := by simp [stops_cons, continues, right]
  have whole : t :: ts ++ us ++ [u] ++ rest = t :: (ts ++ (us ++ u :: rest)) := by simp
  rw [whole, forget_block, expect_cons _ left, ok_bind]
  simp only [declared _ apart, ok_bind, body _ closed, expect_cons rest right]
  rfl

/-! ## Declarations -/

theorem reads_typeStruct {t u : Lexeme} (word : kindOf t = .structWord)
    (kind : kindOf u = .identifier) : Reads .type [t, u] (.struct (identOf u)) := by
  intro rest
  rw [List.cons_append, forget_typeExp_cons, word, List.cons_append, List.nil_append]
  simp only [ident_cons rest kind, ok_bind]
  rfl

/-- The three types that are written with one word. -/
theorem reads_typeWord {t : Lexeme} {type : TypeExp}
    (word : kindOf t = .intWord ∧ type = .int ∨ kindOf t = .boolWord ∧ type = .bool ∨
      kindOf t = .voidWord ∧ type = .void) : Reads .type [t] type := by
  intro rest
  rw [List.cons_append, forget_typeExp_cons, List.nil_append]
  rcases word with ⟨word, rfl⟩ | ⟨word, rfl⟩ | ⟨word, rfl⟩ <;> rw [word]

theorem reads_formal {ts : List Lexeme} {t : Lexeme} {type : TypeExp} (typed : Reads .type ts type)
    (kind : kindOf t = .identifier) : Reads .formal (ts ++ [t]) ⟨type, identOf t⟩ := by
  intro rest
  rw [List.append_assoc, forget_formal, typed]
  simp only [ok_bind, List.cons_append, List.nil_append, ident_cons rest kind]
  rfl

theorem formal_cons {ts rest : List Lexeme} {t : Lexeme} {type : TypeExp}
    (typed : Reads .type ts type) (kind : kindOf t = .identifier) :
    forget (formal (ts ++ t :: rest)) = .ok (⟨type, identOf t⟩, rest) := by
  have read := reads_formal typed kind rest
  rwa [List.append_assoc] at read

theorem reads_lastField {ts : List Lexeme} {d : VarDecl} (reads : Reads .varDecl ts d) :
    Reads .fields ts [d] := by
  intro t rest right
  rw [forget_fieldsFrom, (reads _).1]
  simp [right]

theorem reads_moreFields {ts us : List Lexeme} {d : VarDecl} {ds : List VarDecl}
    (reads : Reads .varDecl ts d) (leads : Leads .fields us) (others : Reads .fields us ds) :
    Reads .fields (ts ++ us) (d :: ds) := by
  intro t rest right
  have read := others t rest right
  obtain ⟨-, empty⟩ | ⟨u, vs, rfl, next⟩ := leads
  · cases empty
  · have other : kindOf u ≠ .rightBrace := by
      intro kind
      simp [starts, startsType, kind] at next
    rw [List.append_assoc, forget_fieldsFrom, (reads _).1]
    rw [List.cons_append] at read ⊢
    simp only [ok_bind, other, if_false, read]
    rfl

theorem reads_lastFormal {ts : List Lexeme} {d : VarDecl} (reads : Reads .formal ts d) :
    Reads .formals ts [d] := by
  intro t rest right
  rw [forget_formalsFrom, reads]
  simp [right]

theorem reads_moreFormals {ts us : List Lexeme} {t : Lexeme} {d : VarDecl} {ds : List VarDecl}
    (reads : Reads .formal ts d) (comma : kindOf t = .comma) (others : Reads .formals us ds) :
    Reads .formals (ts ++ t :: us) (d :: ds) := by
  intro u rest right
  rw [List.append_assoc, forget_formalsFrom, reads]
  simp only [ok_bind, List.cons_append, comma, if_true, others u rest right]
  rfl

/-- A type and a name never look like the head of a struct declaration. -/
theorem startsStruct_of_type {ts rest : List Lexeme} {t : Lexeme} {type : TypeExp}
    (typed : Phrase .type ts type) (kind : kindOf t = .identifier) :
    startsStruct (ts ++ t :: rest) = false := by
  cases typed with
  | typeInt word | typeBool word | typeVoid word => simp [startsStruct, word]
  | typeStruct word kind' => simp [startsStruct, word, kind', kind]

theorem decl_of_type {ts rest : List Lexeme} {t : Lexeme} {type : TypeExp}
    (typed : Phrase .type ts type) (reads : Reads .type ts type) (kind : kindOf t = .identifier) :
    forget (decl (ts ++ t :: rest)) =
      if nextIs .leftParen rest then forget (fnDecl type (identOf t) rest)
      else do
        let (_, rest) ← forget (expect .semicolon rest)
        return (.var ⟨type, identOf t⟩, rest) := by
  rw [forget_decl, startsStruct_of_type typed kind, if_neg Bool.false_ne_true, forget_varOrFnDecl,
    formal_cons reads kind]
  rfl

theorem reads_varDecl {ts : List Lexeme} {t u : Lexeme} {type : TypeExp}
    (typed : Phrase .type ts type) (reads : Reads .type ts type) (kind : kindOf t = .identifier)
    (mark : kindOf u = .semicolon) : Reads .varDecl (ts ++ [t, u]) ⟨type, identOf t⟩ := by
  intro rest
  have whole : ts ++ [t, u] ++ rest = ts ++ t :: u :: rest := by simp
  rw [whole]
  constructor
  · rw [forget_varDecl, formal_cons reads kind]
    simp only [ok_bind, expect_cons rest mark]
    rfl
  · rw [decl_of_type typed reads kind]
    simp only [nextIs, mark, reduceCtorEq, decide_false, Bool.false_eq_true, if_false,
      expect_cons rest mark, ok_bind]
    rfl

theorem fnDecl_of_reads {ts us : List Lexeme} {type : TypeExp} {name : Ident} {ds : List VarDecl}
    {b : Block} (rest : List Lexeme) (head : forget (formals (ts ++ (us ++ rest))) =
      .ok (ds, us ++ rest)) (body : Reads .block us b) :
    forget (fnDecl type name (ts ++ (us ++ rest))) = .ok (.fn ⟨type, name, ds, b⟩, rest) := by
  rw [forget_fnDecl, head]
  simp only [ok_bind, body rest]
  rfl

theorem reads_fnDeclPlain {ts us : List Lexeme} {name t u : Lexeme} {type : TypeExp} {b : Block}
    (typed : Phrase .type ts type) (reads : Reads .type ts type) (kind : kindOf name = .identifier)
    (left : kindOf t = .leftParen) (right : kindOf u = .rightParen) (body : Reads .block us b) :
    Reads .fnDecl (ts ++ [name, t, u] ++ us) ⟨type, identOf name, [], b⟩ := by
  intro rest
  have whole : ts ++ [name, t, u] ++ us ++ rest = ts ++ name :: ([t, u] ++ (us ++ rest)) := by simp
  have head : forget (formals ([t, u] ++ (us ++ rest))) = .ok ([], us ++ rest) := by
    rw [List.cons_append, forget_formals, expect_cons _ left]
    simp [right]
  rw [whole, decl_of_type typed reads kind, if_pos (by simp [nextIs, left])]
  exact fnDecl_of_reads rest head body

theorem reads_fnDecl {ts us vs : List Lexeme} {name t u : Lexeme} {type : TypeExp}
    {ds : List VarDecl} {b : Block} (typed : Phrase .type ts type) (reads : Reads .type ts type)
    (kind : kindOf name = .identifier) (left : kindOf t = .leftParen) (leads : Leads .formals vs)
    (inner : Reads .formals vs ds) (right : kindOf u = .rightParen) (body : Reads .block us b) :
    Reads .fnDecl (ts ++ [name, t] ++ vs ++ [u] ++ us) ⟨type, identOf name, ds, b⟩ := by
  intro rest
  have whole : ts ++ [name, t] ++ vs ++ [u] ++ us ++ rest =
      ts ++ name :: (t :: vs ++ [u] ++ (us ++ rest)) := by simp
  have head : forget (formals (t :: vs ++ [u] ++ (us ++ rest))) = .ok (ds, us ++ rest) := by
    have read := inner u (us ++ rest) right
    obtain ⟨-, empty⟩ | ⟨w, ws, rfl, next⟩ := leads
    · cases empty
    · have other : kindOf w ≠ .rightParen := by
        intro kind
        simp [starts, startsType, kind] at next
      have split : t :: w :: ws ++ [u] ++ (us ++ rest) = t :: w :: (ws ++ u :: (us ++ rest)) := by
        simp
      rw [split, forget_formals, expect_cons _ left]
      simp only [ok_bind, other, if_false]
      exact read
  rw [whole, decl_of_type typed reads kind, if_pos (by simp [nextIs, left])]
  exact fnDecl_of_reads rest head body

theorem reads_structDecl {ts : List Lexeme} {t name u v w : Lexeme} {ds : List VarDecl}
    (word : kindOf t = .structWord) (kind : kindOf name = .identifier)
    (left : kindOf u = .leftBrace) (fields : Reads .fields ts ds) (right : kindOf v = .rightBrace)
    (mark : kindOf w = .semicolon) :
    Reads .structDecl ([t, name, u] ++ ts ++ [v, w]) ⟨identOf name, ds⟩ := by
  intro rest
  have whole : [t, name, u] ++ ts ++ [v, w] ++ rest = t :: name :: u :: (ts ++ v :: w :: rest) := by
    simp
  rw [whole, forget_decl, if_pos (by simp [startsStruct, word, kind, left]), forget_structDecl,
    expect_cons _ word]
  simp only [ok_bind, ident_cons _ kind, expect_cons _ left, fields v _ right, expect_cons rest mark]
  rfl

theorem reads_moreDecls {ts us : List Lexeme} {d : Decl} {ds : List Decl} (leads : Leads .decl ts)
    (reads : Reads .decl ts d) (others : Reads .program us ds) :
    Reads .program (ts ++ us) (d :: ds) := by
  have read := reads us
  obtain ⟨-, empty⟩ | ⟨t, vs, rfl, -⟩ := leads
  · cases empty
  · change decls us = .ok ds at others
    change decls (t :: vs ++ us) = .ok (d :: ds)
    rw [List.cons_append] at read ⊢
    rw [decls_cons, read]
    simp only [ok_bind, others]
    rfl

/-- Phrases are read to their end. -/
theorem reads {n : Nonterminal} {ts : List Lexeme} {v : n.Tree} (phrase : Phrase n ts v) :
    Reads n ts v := by
  induction phrase with
  | noDecls => exact decls_nil
  | moreDecls first _ reads others => exact reads_moreDecls (leads first) reads others
  | declVar _ reads => exact fun rest => (reads rest).2
  | declFn _ reads => exact reads
  | declStruct _ reads => exact reads
  | varDecl typed kind mark reads => exact reads_varDecl typed reads kind mark
  | structDecl word kind left _ right mark reads =>
    exact reads_structDecl word kind left reads right mark
  | fnDeclPlain typed kind left right _ reads body =>
    exact reads_fnDeclPlain typed reads kind left right body
  | fnDecl typed kind left formals right _ reads inner body =>
    exact reads_fnDecl typed reads kind left (leads formals) inner right body
  | formal _ kind reads => exact reads_formal reads kind
  | typeInt word => exact reads_typeWord (.inl ⟨word, rfl⟩)
  | typeBool word => exact reads_typeWord (.inr (.inl ⟨word, rfl⟩))
  | typeVoid word => exact reads_typeWord (.inr (.inr ⟨word, rfl⟩))
  | typeStruct word kind => exact reads_typeStruct word kind
  | lastField _ reads => exact reads_lastField reads
  | moreFields _ more reads others => exact reads_moreFields reads (leads more) others
  | lastFormal _ reads => exact reads_lastFormal reads
  | moreFormals _ comma _ reads others => exact reads_moreFormals reads comma others
  | noVars => exact reads_noVars
  | moreVars first _ reads others => exact reads_moreVars (leads first) reads others
  | noStmts => exact reads_noStmts
  | moreStmts first more reads others =>
    exact reads_moreStmts (leads first) (leads more) reads others
  | assignStmt _ assigns _ mark target value => exact reads_assignStmt target assigns value mark
  | increment _ steps mark target => exact reads_step target (.inl ⟨steps, rfl⟩) mark
  | decrement _ steps mark target => exact reads_step target (.inr ⟨steps, rfl⟩) mark
  | read word arrow _ mark target => exact reads_read word arrow target mark
  | write word arrow _ mark value => exact reads_write word arrow value mark
  | ifThen word left _ right _ condition body =>
    exact reads_ifThen word left condition right body
  | ifElse word left _ right _ other _ condition yes no =>
    exact reads_ifElse word left condition right yes other no
  | whileLoop word left _ right _ condition body =>
    exact reads_loop (.inl ⟨word, rfl⟩) left condition right body
  | repeatLoop word left _ right _ condition body =>
    exact reads_loop (.inr ⟨word, rfl⟩) left condition right body
  | returnPlain word mark => exact reads_returnPlain word mark
  | returnValue word exp mark value => exact reads_returnValue word (leads exp) value mark
  | callStmt _ mark reads => exact reads_callStmt reads mark
  | block left _ stmts right declared body =>
    exact reads_block left declared (leads stmts) body right
  | assign _ assigns _ target value => exact reads_assign target assigns value
  | exp _ reads => exact reads_exp reads.2
  | target loc reads =>
    have term := reads_termLoc reads
    exact ⟨isPlace_of_loc loc, (reads_disjunction (leads loc.termLoc) term).2⟩
  | targetParens left _ right reads => exact reads_targetParens left reads right
  | operand _ reads => exact reads_operand reads
  | chain chains written _ _ left right => exact reads_chain chains written left right
  | comparison written _ _ left right => exact reads_comparison written left right
  | unaryTerm term reads => exact reads_unaryTerm (leads term) reads
  | not kind _ reads => exact reads_unary (.inl ⟨kind, rfl⟩) reads
  | negate kind _ reads => exact reads_unary (.inr ⟨kind, rfl⟩) reads
  | termLoc _ reads => exact reads_termLoc reads
  | int kind | string kind | true kind | false kind =>
    intro rest _
    rw [List.cons_append, forget_term_cons, kind, List.nil_append]
  | parens left _ right reads => exact reads_parens left reads right
  | termCall _ reads => exact reads_termCall reads
  | callPlain callee left right =>
    refine ⟨_, _, rfl, callee, rfl, fun rest => ⟨by simp [nextIs, left], ?_⟩⟩
    rw [List.cons_append, forget_arguments, expect_cons _ left]
    simp [right]
  | call callee left args right reads => exact reads_call callee left (leads args) reads right
  | lastArg _ reads => exact fun t rest right => argumentsFrom_last reads right
  | moreArgs _ comma _ reads more =>
    exact fun t rest right => argumentsFrom_more reads comma more right
  | ident kind => exact ⟨_, [], rfl, kind, by rintro _ _ ⟨⟩, fun _ => rfl⟩
  | select _ dot kind reads => exact reads_select reads dot kind

end Cinder.Parse
