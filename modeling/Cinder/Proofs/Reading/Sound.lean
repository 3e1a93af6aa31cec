import Cinder.Proofs.Grammar
import Cinder.Proofs.Reading

/-!
# What readers return are phrases

A reader that succeeds has taken a phrase of its nonterminal from the front of the lexemes, and the
value it returns is the tree of that phrase.
-/
namespace Cinder.Parse

open Grammar

/-- A phrase stands at the front of the lexemes, and `rest` follows it. -/
def Took (n : Nonterminal) (ts : List Lexeme) (v : n.Tree) (rest : List Lexeme) : Prop :=
  ∃ used, ts = used ++ rest ∧ Phrase n used v

theorem bind_eq_ok {α β : Type} {x : Except Stuck (α × List Lexeme)}
    {f : α × List Lexeme → Except Stuck β} {b : β} :
    (x >>= f) = .ok b ↔ ∃ v rest, x = .ok (v, rest) ∧ f (v, rest) = .ok b := by
  cases x with
  | error stuck => simp
  | ok a =>
    obtain ⟨v, rest⟩ := a
    simp

theorem pure_eq_ok {α : Type} {a b : α} : (pure a : Except Stuck α) = .ok b ↔ a = b := by
  constructor
  · intro h
    exact Except.ok.inj h
  · rintro rfl
    rfl

theorem expect_eq_ok {kind : Kind} {ts rest : List Lexeme} {t : Lexeme} :
    forget (expect kind ts) = .ok (t, rest) ↔ ts = t :: rest ∧ kindOf t = kind := by
  cases ts with
  | nil => simp [forget_expect_nil]
  | cons u us =>
    rw [forget_expect_cons]
    by_cases same : kindOf u = kind
    · rw [if_pos same]
      constructor
      · intro h
        cases h
        exact ⟨rfl, same⟩
      · rintro ⟨h, -⟩
        cases h
        rfl
    · rw [if_neg same]
      constructor
      · intro h
        cases h
      · rintro ⟨h, other⟩
        cases h
        exact absurd other same

theorem ident_eq_ok {ts rest : List Lexeme} {id : Ident} :
    forget (ident ts) = .ok (id, rest) ↔
      ∃ t, ts = t :: rest ∧ kindOf t = .identifier ∧ id = identOf t := by
  rw [forget_ident]
  simp only [bind_eq_ok, pure_eq_ok, expect_eq_ok, Prod.mk.injEq]
  constructor
  · rintro ⟨t, us, ⟨rfl, kind⟩, rfl, rfl⟩
    exact ⟨t, rfl, kind, rfl⟩
  · rintro ⟨t, rfl, kind, rfl⟩
    exact ⟨t, rest, ⟨rfl, kind⟩, rfl, rfl⟩

theorem took_typeExp {ts rest : List Lexeme} {type : TypeExp}
    (read : forget (typeExp ts) = .ok (type, rest)) : Took .type ts type rest := by
  cases ts with
  | nil => cases read
  | cons t ts =>
    rw [forget_typeExp_cons] at read
    split at read
    · next kind => cases read; exact ⟨[t], rfl, .typeInt kind⟩
    · next kind => cases read; exact ⟨[t], rfl, .typeBool kind⟩
    · next kind => cases read; exact ⟨[t], rfl, .typeVoid kind⟩
    · next kind =>
      simp only [bind_eq_ok, pure_eq_ok, ident_eq_ok, Prod.mk.injEq] at read
      obtain ⟨_, _, ⟨u, rfl, kind', rfl⟩, rfl, rfl⟩ := read
      exact ⟨[t, u], rfl, .typeStruct kind kind'⟩
    · cases read

theorem took_formal {ts rest : List Lexeme} {d : VarDecl}
    (read : forget (formal ts) = .ok (d, rest)) : Took .formal ts d rest := by
  rw [forget_formal] at read
  simp only [bind_eq_ok, pure_eq_ok, ident_eq_ok, Prod.mk.injEq] at read
  obtain ⟨type, _, typed, _, _, ⟨t, rfl, kind, rfl⟩, rfl, rfl⟩ := read
  obtain ⟨used, rfl, phrase⟩ := took_typeExp typed
  exact ⟨used ++ [t], by simp, .formal phrase kind⟩

theorem took_varDecl {ts rest : List Lexeme} {d : VarDecl}
    (read : forget (varDecl ts) = .ok (d, rest)) : Took .varDecl ts d rest := by
  rw [forget_varDecl] at read
  simp only [bind_eq_ok, pure_eq_ok, expect_eq_ok, Prod.mk.injEq] at read
  obtain ⟨_, _, typed, u, _, ⟨rfl, mark⟩, rfl, rfl⟩ := read
  obtain ⟨used, rfl, phrase⟩ := took_formal typed
  cases phrase with
  | formal phrase kind => exact ⟨_, by simp, .varDecl phrase kind mark⟩

theorem took_varDecls {ts rest : List Lexeme} {ds : List VarDecl}
    (read : forget (varDecls ts) = .ok (ds, rest)) : Took .varDecls ts ds rest := by
  induction len : ts.length using Nat.strongRecOn generalizing ts ds rest with
  | ind n ih =>
    cases ts with
    | nil =>
      rw [forget_varDecls_nil] at read
      cases read
      exact ⟨[], rfl, .noVars⟩
    | cons t ts =>
      rw [forget_varDecls_cons] at read
      split at read
      · simp only [bind_eq_ok, pure_eq_ok, Prod.mk.injEq] at read
        obtain ⟨d, us, first, more, _, others, rfl, rfl⟩ := read
        have shorter := length_of_forget first
        obtain ⟨used, whole, phrase⟩ := took_varDecl first
        obtain ⟨used', rfl, phrases⟩ := ih us.length (by omega) others rfl
        exact ⟨used ++ used', by rw [whole, List.append_assoc], .moreVars phrase phrases⟩
      · cases read
        exact ⟨[], rfl, .noVars⟩

/-- The closing brace is read together with the fields. -/
theorem took_fieldsFrom {ts rest : List Lexeme} {ds : List VarDecl}
    (read : forget (fieldsFrom ts) = .ok (ds, rest)) :
    ∃ t, kindOf t = .rightBrace ∧ Took .fields ts ds (t :: rest) := by
  induction len : ts.length using Nat.strongRecOn generalizing ts ds rest with
  | ind n ih =>
    rw [forget_fieldsFrom] at read
    simp only [bind_eq_ok] at read
    obtain ⟨d, us, first, read⟩ := read
    have shorter := length_of_forget first
    obtain ⟨used, rfl, phrase⟩ := took_varDecl first
    cases us with
    | nil => cases read
    | cons t us =>
      dsimp only at read
      split at read
      · next kind => cases read; exact ⟨t, kind, used, rfl, .lastField phrase⟩
      · simp only [bind_eq_ok, pure_eq_ok, Prod.mk.injEq] at read
        obtain ⟨more, _, others, rfl, rfl⟩ := read
        obtain ⟨brace, kind, used', whole, phrases⟩ := ih _ (len ▸ shorter) others rfl
        exact ⟨brace, kind, used ++ used', by rw [whole, List.append_assoc],
          .moreFields phrase phrases⟩

/-- The closing parenthesis is read together with the formals. -/
theorem took_formalsFrom {ts rest : List Lexeme} {ds : List VarDecl}
    (read : forget (formalsFrom ts) = .ok (ds, rest)) :
    ∃ t, kindOf t = .rightParen ∧ Took .formals ts ds (t :: rest) := by
  induction len : ts.length using Nat.strongRecOn generalizing ts ds rest with
  | ind n ih =>
    rw [forget_formalsFrom] at read
    simp only [bind_eq_ok] at read
    obtain ⟨d, us, first, read⟩ := read
    have shorter := length_of_forget first
    obtain ⟨used, rfl, phrase⟩ := took_formal first
    cases us with
    | nil => cases read
    | cons t us =>
      dsimp only at read
      split at read
      · next comma =>
        simp only [bind_eq_ok, pure_eq_ok, Prod.mk.injEq] at read
        obtain ⟨more, _, others, rfl, rfl⟩ := read
        have shorter' : us.length < n := by simp at shorter len; omega
        obtain ⟨paren, kind, used', rfl, phrases⟩ := ih _ shorter' others rfl
        exact ⟨paren, kind, used ++ t :: used', by simp, .moreFormals phrase comma phrases⟩
      · split at read
        · next kind => cases read; exact ⟨t, kind, used, rfl, .lastFormal phrase⟩
        · cases read

/-! ## Expressions -/

theorem took_selections {used ts rest : List Lexeme} {base e : Exp} (before : Phrase .loc used base)
    (read : forget (selections base ts) = .ok (e, rest)) :
    ∃ used', ts = used' ++ rest ∧ Phrase .loc (used ++ used') e := by
  induction len : ts.length using Nat.strongRecOn generalizing used ts base with
  | ind n ih =>
    cases ts with
    | nil =>
      rw [forget_selections_nil] at read
      cases read
      exact ⟨[], rfl, by simpa using before⟩
    | cons t ts =>
      rw [forget_selections_cons] at read
      split at read
      · next dot =>
        simp only [bind_eq_ok, ident_eq_ok] at read
        obtain ⟨_, us, ⟨u, rfl, kind, rfl⟩, read⟩ := read
        have shorter : us.length < n := by simp at len; omega
        obtain ⟨used', rfl, phrase⟩ := ih us.length shorter (before.select dot kind) read rfl
        exact ⟨t :: u :: used', rfl, by simpa using phrase⟩
      · cases read
        exact ⟨[], rfl, by simpa using before⟩

theorem took_place {ts rest : List Lexeme} {e : Exp}
    (read : forget (place ts) = .ok (e, rest)) : Took .loc ts e rest := by
  rw [forget_place] at read
  simp only [bind_eq_ok, ident_eq_ok] at read
  obtain ⟨_, us, ⟨t, rfl, kind, rfl⟩, read⟩ := read
  obtain ⟨used, rfl, phrase⟩ := took_selections (.ident kind) read
  exact ⟨t :: used, rfl, phrase⟩

/-- An expression whose tree is a place is a place in parentheses. -/
def PlaceIsTarget : (n : Nonterminal) → List Lexeme → n.Tree → Prop
  | .exp, ts, e | .operation _, ts, e | .term, ts, e => e.isPlace → Phrase .target ts e
  | _, _, _ => True

theorem placeIsTarget {n : Nonterminal} {ts : List Lexeme} {v : n.Tree} (phrase : Phrase n ts v) :
    PlaceIsTarget n ts v := by
  induction phrase with
  | exp _ ih => exact ih
  | operand _ ih => exact ih
  | unaryTerm _ ih => exact ih
  | termLoc loc => exact fun _ => .target loc
  | parens left _ right ih => exact fun isPlace => .targetParens left (ih isPlace) right
  | assign | chain | comparison | not | negate | int | string | true | false | termCall =>
    intro isPlace
    cases isPlace
  | _ => trivial

/-- Each level of the list is followed by the level just tighter than it. -/
def Descends : List Level → Prop
  | [] => True
  | level :: tighter => level.tighter = tighter.head? ∧ Descends tighter

theorem descends_all : Descends Level.all := by
  simp [Level.all, Descends, Level.tighter]

/-- Expressions of fewer than `n` lexemes are read as phrases. -/
def ExpBelow (n : Nat) : Prop :=
  ∀ ts e rest, ts.length < n → forget (exp ts) = .ok (e, rest) → Took .exp ts e rest

section Below

variable {n : Nat} (below : ExpBelow n)
include below

theorem took_argumentsFrom {ts rest : List Lexeme} {args : List Exp} (short : ts.length < n)
    (read : forget (argumentsFrom ts) = .ok (args, rest)) :
    ∃ t, kindOf t = .rightParen ∧ Took .args ts args (t :: rest) := by
  induction len : ts.length using Nat.strongRecOn generalizing ts args rest with
  | ind m ih =>
    rw [forget_argumentsFrom] at read
    simp only [bind_eq_ok] at read
    obtain ⟨e, us, first, read⟩ := read
    have shorter := length_of_forget first
    obtain ⟨used, whole, phrase⟩ := below _ _ _ short first
    cases us with
    | nil => cases read
    | cons t us =>
      dsimp only at read
      split at read
      · next comma =>
        simp only [bind_eq_ok, pure_eq_ok, Prod.mk.injEq] at read
        obtain ⟨more, _, others, rfl, rfl⟩ := read
        have shorter' : us.length < m := by simp at shorter; omega
        obtain ⟨paren, kind, used', rfl, phrases⟩ := ih _ shorter' (by omega) others rfl
        exact ⟨paren, kind, used ++ t :: used', by simp [whole], .moreArgs phrase comma phrases⟩
      · split at read
        · next kind => cases read; exact ⟨t, kind, used, whole, .lastArg phrase⟩
        · cases read

theorem took_arguments {t : Lexeme} {ts rest : List Lexeme} {args : List Exp}
    (callee : kindOf t = .identifier) (short : ts.length < n)
    (read : forget (arguments ts) = .ok (args, rest)) :
    Took .call (t :: ts) (identOf t, args) rest := by
  rw [forget_arguments] at read
  simp only [bind_eq_ok, expect_eq_ok] at read
  obtain ⟨u, us, ⟨rfl, left⟩, read⟩ := read
  cases us with
  | nil => cases read
  | cons v us =>
    dsimp only at read
    split at read
    · next right => cases read; exact ⟨[t, u, v], rfl, .callPlain callee left right⟩
    · have shorter : (v :: us).length < n := by simp at short ⊢; omega
      obtain ⟨paren, right, used, whole, phrase⟩ := took_argumentsFrom below shorter read
      exact ⟨[t, u] ++ used ++ [paren], by simp [whole], .call callee left phrase right⟩

theorem took_term {ts rest : List Lexeme} {e : Exp} (short : ts.length ≤ n)
    (read : forget (term ts) = .ok (e, rest)) : Took .term ts e rest := by
  cases ts with
  | nil => rw [forget_term_nil] at read; cases read
  | cons t ts =>
    rw [forget_term_cons] at read
    split at read
    · next kind => cases read; exact ⟨[t], rfl, .int kind⟩
    · next kind => cases read; exact ⟨[t], rfl, .string kind⟩
    · next kind => cases read; exact ⟨[t], rfl, .true kind⟩
    · next kind => cases read; exact ⟨[t], rfl, .false kind⟩
    · next left =>
      simp only [bind_eq_ok, pure_eq_ok, expect_eq_ok, Prod.mk.injEq] at read
      obtain ⟨_, _, inner, u, _, ⟨rfl, right⟩, rfl, rfl⟩ := read
      obtain ⟨used, rfl, phrase⟩ := below _ _ _ (by simp at short; omega) inner
      exact ⟨t :: used ++ [u], by simp, .parens left phrase right⟩
    · next kind =>
      split at read
      · simp only [bind_eq_ok, pure_eq_ok, Prod.mk.injEq] at read
        obtain ⟨args, _, inner, rfl, rfl⟩ := read
        obtain ⟨used, whole, phrase⟩ :=
          took_arguments below kind (by simp at short; omega) inner
        exact ⟨used, whole, .termCall phrase⟩
      · obtain ⟨used, whole, phrase⟩ := took_place read
        exact ⟨used, whole, .termLoc phrase⟩
    · cases read

theorem took_operand {ts rest : List Lexeme} {e : Exp} (short : ts.length ≤ n)
    (read : forget (operand ts) = .ok (e, rest)) : Took (.operation none) ts e rest := by
  induction ts generalizing e with
  | nil => rw [forget_operand_nil] at read; cases read
  | cons t ts ih =>
    rw [forget_operand_cons] at read
    split at read
    · next kind =>
      simp only [bind_eq_ok, pure_eq_ok, Prod.mk.injEq] at read
      obtain ⟨_, _, inner, rfl, rfl⟩ := read
      obtain ⟨used, rfl, phrase⟩ := ih (by simp at short; omega) inner
      exact ⟨t :: used, rfl, .not kind phrase⟩
    · next kind =>
      simp only [bind_eq_ok, pure_eq_ok, Prod.mk.injEq] at read
      obtain ⟨_, _, inner, rfl, rfl⟩ := read
      obtain ⟨used, rfl, phrase⟩ := ih (by simp at short; omega) inner
      exact ⟨t :: used, rfl, .negate kind phrase⟩
    · obtain ⟨used, whole, phrase⟩ := took_term below short read
      exact ⟨used, whole, .unaryTerm phrase⟩

omit below in
/-- Operators that chain extend the phrase of their level to the left of them, one after another. -/
theorem took_chain {level : Level} {tighter : List Level} {used ts rest : List Lexeme}
    {left e : Exp} (chains : level ≠ .comparison)
    (operand : ∀ ts e rest, ts.length ≤ n → forget (operation tighter ts) = .ok (e, rest) →
      Took (.operation level.tighter) ts e rest)
    (before : Phrase (.operation (some level)) used left)
    (short : ts.length ≤ n) (read : forget (operations level tighter left ts) = .ok (e, rest)) :
    ∃ used', ts = used' ++ rest ∧ Phrase (.operation (some level)) (used ++ used') e := by
  induction len : ts.length using Nat.strongRecOn generalizing used ts left with
  | ind m ih =>
    cases ts with
    | nil =>
      rw [forget_operations_nil] at read
      cases read
      exact ⟨[], rfl, by simpa using before⟩
    | cons t ts =>
      rw [forget_operations_cons] at read
      split at read
      · cases read
        exact ⟨[], rfl, by simpa using before⟩
      · next op written =>
        simp only [bind_eq_ok, Level.chains_iff.mpr chains, if_true] at read
        obtain ⟨right, us, inner, read⟩ := read
        have shorter := length_of_forget inner
        have fewer : ts.length < n := by simp at short; omega
        obtain ⟨used', rfl, phrase⟩ := operand _ _ _ (Nat.le_of_lt fewer) inner
        have longer := Phrase.chain chains (Level.operator?_eq_some.mp written) before phrase
        have few : us.length < m := by simp at len; omega
        obtain ⟨used'', rfl, phrase'⟩ := ih us.length few longer (by omega) read rfl
        exact ⟨t :: used' ++ used'', by simp, by simpa using phrase'⟩

omit below in
theorem took_comparison {tighter : List Level} {used ts rest : List Lexeme} {left e : Exp}
    (operand : ∀ ts e rest, ts.length ≤ n → forget (operation tighter ts) = .ok (e, rest) →
      Took (.operation (some .sum)) ts e rest)
    (before : Phrase (.operation (some .sum)) used left) (short : ts.length ≤ n)
    (read : forget (operations .comparison tighter left ts) = .ok (e, rest)) :
    ∃ used', ts = used' ++ rest ∧ Phrase (.operation (some .comparison)) (used ++ used') e := by
  have alone : Phrase (.operation (some .comparison)) used left := Phrase.operand before
  cases ts with
  | nil =>
    rw [forget_operations_nil] at read
    cases read
    exact ⟨[], rfl, by simpa using alone⟩
  | cons t ts =>
    rw [forget_operations_cons] at read
    split at read
    · cases read
      exact ⟨[], rfl, by simpa using alone⟩
    · next op written =>
      have single : ¬ Level.comparison.chains := by decide
      simp only [bind_eq_ok, if_neg single] at read
      obtain ⟨right, us, inner, read⟩ := read
      split at read
      · cases read
      · cases read
        obtain ⟨used', rfl, phrase⟩ := operand _ _ _ (by simp at short; omega) inner
        exact ⟨t :: used', rfl, .comparison (Level.operator?_eq_some.mp written) before phrase⟩

theorem took_operation {levels : List Level} (descends : Descends levels) {ts rest : List Lexeme}
    {e : Exp} (short : ts.length ≤ n) (read : forget (operation levels ts) = .ok (e, rest)) :
    Took (.operation levels.head?) ts e rest := by
  induction levels generalizing ts e rest with
  | nil =>
    rw [forget_operation_nil] at read
    exact took_operand below short read
  | cons level tighter ih =>
    obtain ⟨next, descends⟩ := descends
    have operand : ∀ ts e rest, ts.length ≤ n → forget (operation tighter ts) = .ok (e, rest) →
        Took (.operation level.tighter) ts e rest := by
      intro ts e rest short read
      exact next ▸ ih descends short read
    rw [forget_operation_cons] at read
    simp only [bind_eq_ok] at read
    obtain ⟨left, us, first, read⟩ := read
    have shorter := length_of_forget first
    obtain ⟨used, rfl, phrase⟩ := operand _ _ _ short first
    by_cases single : level = .comparison
    · subst single
      obtain ⟨used', rfl, phrase'⟩ := took_comparison operand phrase (by omega) read
      exact ⟨used ++ used', by simp, phrase'⟩
    · obtain ⟨used', rfl, phrase'⟩ := took_chain single operand phrase.operand (by omega) read
      exact ⟨used ++ used', by simp, phrase'⟩

theorem took_exp_of_below {ts rest : List Lexeme} {e : Exp} (short : ts.length ≤ n)
    (read : forget (exp ts) = .ok (e, rest)) : Took .exp ts e rest := by
  rw [forget_exp] at read
  simp only [bind_eq_ok] at read
  obtain ⟨left, us, first, read⟩ := read
  have shorter := length_of_forget first
  obtain ⟨used, rfl, phrase⟩ := took_operation below descends_all short first
  cases us with
  | nil => cases read; exact ⟨used, rfl, .exp phrase⟩
  | cons t us =>
    dsimp only at read
    split at read
    · next assigns =>
      split at read
      · next isPlace =>
        simp only [bind_eq_ok, pure_eq_ok, Prod.mk.injEq] at read
        obtain ⟨value, _, inner, rfl, rfl⟩ := read
        obtain ⟨used', rfl, phrase'⟩ := below _ _ _ (by simp at shorter short; omega) inner
        exact ⟨used ++ t :: used', by simp, .assign (placeIsTarget phrase isPlace) assigns phrase'⟩
      · cases read
    · cases read
      exact ⟨used, rfl, .exp phrase⟩

end Below

theorem expBelow (n : Nat) : ExpBelow n := by
  induction n with
  | zero =>
    intro ts e rest short
    exact absurd short (Nat.not_lt_zero _)
  | succ n ih =>
    intro ts e rest short read
    exact took_exp_of_below ih (Nat.le_of_lt_succ short) read

theorem took_exp {ts rest : List Lexeme} {e : Exp} (read : forget (exp ts) = .ok (e, rest)) :
    Took .exp ts e rest :=
  expBelow (ts.length + 1) ts e rest (Nat.lt_succ_self _) read

/-! ## Statements -/

theorem took_condition {ts rest : List Lexeme} {e : Exp}
    (read : forget (condition ts) = .ok (e, rest)) :
    ∃ t used u, kindOf t = .leftParen ∧ Phrase .exp used e ∧ kindOf u = .rightParen ∧
      ts = t :: used ++ u :: rest := by
  rw [forget_condition] at read
  simp only [bind_eq_ok, pure_eq_ok, expect_eq_ok, Prod.mk.injEq] at read
  obtain ⟨t, _, ⟨rfl, left⟩, _, _, inner, u, _, ⟨rfl, right⟩, rfl, rfl⟩ := read
  obtain ⟨used, rfl, phrase⟩ := took_exp inner
  exact ⟨t, used, u, left, phrase, right, rfl⟩

theorem took_closedExp {ts rest : List Lexeme} {e : Exp}
    (read : forget (closedExp ts) = .ok (e, rest)) :
    ∃ used u, Phrase .exp used e ∧ kindOf u = .semicolon ∧ ts = used ++ u :: rest := by
  rw [forget_closedExp] at read
  simp only [bind_eq_ok, pure_eq_ok, expect_eq_ok, Prod.mk.injEq] at read
  obtain ⟨_, _, inner, u, _, ⟨rfl, mark⟩, rfl, rfl⟩ := read
  obtain ⟨used, rfl, phrase⟩ := took_exp inner
  exact ⟨used, u, phrase, mark, rfl⟩

theorem took_readStmt {t : Lexeme} {ts rest : List Lexeme} {s : Stmt} (word : kindOf t = .cinWord)
    (read : forget (readStmt ts) = .ok (s, rest)) : Took .stmt (t :: ts) s rest := by
  rw [forget_readStmt] at read
  simp only [bind_eq_ok, pure_eq_ok, expect_eq_ok, Prod.mk.injEq] at read
  obtain ⟨u, _, ⟨rfl, arrow⟩, _, _, inner, v, _, ⟨rfl, mark⟩, rfl, rfl⟩ := read
  obtain ⟨used, rfl, phrase⟩ := took_place inner
  exact ⟨[t, u] ++ used ++ [v], by simp, .read word arrow phrase mark⟩

theorem took_writeStmt {t : Lexeme} {ts rest : List Lexeme} {s : Stmt}
    (word : kindOf t = .coutWord) (read : forget (writeStmt ts) = .ok (s, rest)) :
    Took .stmt (t :: ts) s rest := by
  rw [forget_writeStmt] at read
  simp only [bind_eq_ok, pure_eq_ok, expect_eq_ok, Prod.mk.injEq] at read
  obtain ⟨u, _, ⟨rfl, arrow⟩, _, _, inner, rfl, rfl⟩ := read
  obtain ⟨used, v, phrase, mark, rfl⟩ := took_closedExp inner
  exact ⟨[t, u] ++ used ++ [v], by simp, .write word arrow phrase mark⟩

theorem took_returnStmt {t : Lexeme} {ts rest : List Lexeme} {s : Stmt}
    (word : kindOf t = .returnWord)
    (read : forget (returnStmt t.1.position ts) = .ok (s, rest)) :
    Took .stmt (t :: ts) s rest := by
  cases ts with
  | nil => cases read
  | cons u us =>
    rw [forget_returnStmt_cons] at read
    split at read
    · next mark => cases read; exact ⟨[t, u], rfl, .returnPlain word mark⟩
    · simp only [bind_eq_ok, pure_eq_ok, Prod.mk.injEq] at read
      obtain ⟨e, _, inner, rfl, rfl⟩ := read
      obtain ⟨used, v, phrase, mark, whole⟩ := took_closedExp inner
      exact ⟨t :: used ++ [v], by simp [whole], .returnValue word phrase mark⟩

theorem took_callStmt {t : Lexeme} {ts rest : List Lexeme} {s : Stmt}
    (callee : kindOf t = .identifier) (read : forget (callStmt (identOf t) ts) = .ok (s, rest)) :
    Took .stmt (t :: ts) s rest := by
  rw [forget_callStmt] at read
  simp only [bind_eq_ok, pure_eq_ok, expect_eq_ok, Prod.mk.injEq] at read
  obtain ⟨args, _, inner, u, _, ⟨rfl, mark⟩, rfl, rfl⟩ := read
  obtain ⟨used, whole, phrase⟩ := took_arguments (expBelow _) callee (Nat.lt_succ_self _) inner
  exact ⟨used ++ [u], by simp [whole], .callStmt phrase mark⟩

theorem took_placeStmt {ts rest : List Lexeme} {s : Stmt}
    (read : forget (placeStmt ts) = .ok (s, rest)) : Took .stmt ts s rest := by
  rw [forget_placeStmt] at read
  simp only [bind_eq_ok] at read
  obtain ⟨target, us, first, read⟩ := read
  obtain ⟨used, rfl, phrase⟩ := took_place first
  cases us with
  | nil => cases read
  | cons t us =>
    dsimp only at read
    split at read
    · next assigns =>
      simp only [bind_eq_ok, pure_eq_ok, Prod.mk.injEq] at read
      obtain ⟨e, _, inner, rfl, rfl⟩ := read
      obtain ⟨used', u, phrase', mark, rfl⟩ := took_closedExp inner
      exact ⟨used ++ t :: used' ++ [u], by simp, .assignStmt phrase assigns phrase' mark⟩
    · next counts =>
      simp only [bind_eq_ok, pure_eq_ok, expect_eq_ok, Prod.mk.injEq] at read
      obtain ⟨u, _, ⟨rfl, mark⟩, rfl, rfl⟩ := read
      exact ⟨used ++ [t, u], by simp, .increment phrase counts mark⟩
    · next counts =>
      simp only [bind_eq_ok, pure_eq_ok, expect_eq_ok, Prod.mk.injEq] at read
      obtain ⟨u, _, ⟨rfl, mark⟩, rfl, rfl⟩ := read
      exact ⟨used ++ [t, u], by simp, .decrement phrase counts mark⟩
    · cases read

/-- Blocks of at most `n` lexemes are read as phrases. -/
def BlockWithin (n : Nat) : Prop :=
  ∀ ts b rest, ts.length ≤ n → forget (block ts) = .ok (b, rest) → Took .block ts b rest

section Within

variable {n : Nat} (within : BlockWithin n)
include within

theorem took_governed {ts rest : List Lexeme} {e : Exp} {b : Block} (short : ts.length ≤ n)
    (read : governed ts = .ok ((e, b), rest)) :
    ∃ t used u used', kindOf t = .leftParen ∧ Phrase .exp used e ∧ kindOf u = .rightParen ∧
      Phrase .block used' b ∧ ts = t :: used ++ u :: used' ++ rest := by
  unfold governed at read
  simp only [bind_eq_ok, pure_eq_ok, Prod.mk.injEq] at read
  obtain ⟨_, us, first, _, _, inner, ⟨rfl, rfl⟩, rfl⟩ := read
  have shorter := length_of_forget first
  obtain ⟨t, used, u, left, phrase, right, rfl⟩ := took_condition first
  obtain ⟨used', rfl, phrase'⟩ := within _ _ _ (by omega) inner
  exact ⟨t, used, u, used', left, phrase, right, phrase', by simp⟩

theorem took_ifStmt {t : Lexeme} {ts rest : List Lexeme} {s : Stmt} (word : kindOf t = .ifWord)
    (short : ts.length ≤ n) (read : forget (stmt (t :: ts)) = .ok (s, rest)) :
    Took .stmt (t :: ts) s rest := by
  rw [forget_stmt_cons, word] at read
  simp only [bind_eq_ok] at read
  obtain ⟨⟨e, yes⟩, us, first, read⟩ := read
  obtain ⟨u, used, v, used', left, phrase, right, phrase', rfl⟩ := took_governed within short first
  cases us with
  | nil =>
    cases read
    exact ⟨[t, u] ++ used ++ v :: used', by simp, .ifThen word left phrase right phrase'⟩
  | cons w us =>
    by_cases other : kindOf w = .elseWord
    · simp only [nextIs, other, decide_true, if_true, List.tail_cons, bind_eq_ok, pure_eq_ok,
        Prod.mk.injEq] at read
      obtain ⟨no, _, inner, rfl, rfl⟩ := read
      obtain ⟨used'', rfl, phrase''⟩ := within _ _ _ (by simp at short; omega) inner
      exact ⟨[t, u] ++ used ++ v :: used' ++ w :: used'', by simp,
        .ifElse word left phrase right phrase' other phrase''⟩
    · simp only [nextIs, other, decide_false, Bool.false_eq_true, if_false, pure_eq_ok,
        Prod.mk.injEq] at read
      obtain ⟨rfl, rfl⟩ := read
      exact ⟨[t, u] ++ used ++ v :: used', by simp, .ifThen word left phrase right phrase'⟩

theorem took_stmt {ts rest : List Lexeme} {s : Stmt} (short : ts.length ≤ n + 1)
    (read : forget (stmt ts) = .ok (s, rest)) : Took .stmt ts s rest := by
  cases ts with
  | nil => rw [forget_stmt_nil] at read; cases read
  | cons t ts =>
    have few : ts.length ≤ n := by simpa using short
    by_cases word : kindOf t = .ifWord
    · exact took_ifStmt within word few read
    · rw [forget_stmt_cons] at read
      split at read
      · next word => exact took_readStmt word read
      · next word => exact took_writeStmt word read
      · next other => exact absurd other word
      · next word =>
        simp only [bind_eq_ok, pure_eq_ok, Prod.mk.injEq] at read
        obtain ⟨⟨e, b⟩, _, inner, rfl, rfl⟩ := read
        obtain ⟨u, used, v, used', left, phrase, right, phrase', rfl⟩ :=
          took_governed within few inner
        exact ⟨[t, u] ++ used ++ v :: used', by simp, .whileLoop word left phrase right phrase'⟩
      · next word =>
        simp only [bind_eq_ok, pure_eq_ok, Prod.mk.injEq] at read
        obtain ⟨⟨e, b⟩, _, inner, rfl, rfl⟩ := read
        obtain ⟨u, used, v, used', left, phrase, right, phrase', rfl⟩ :=
          took_governed within few inner
        exact ⟨[t, u] ++ used ++ v :: used', by simp, .repeatLoop word left phrase right phrase'⟩
      · next word => exact took_returnStmt word read
      · next kind =>
        split at read
        · exact took_callStmt kind read
        · exact took_placeStmt read
      · cases read

theorem took_stmts {ts rest : List Lexeme} {ss : List Stmt} (short : ts.length ≤ n + 1)
    (read : forget (stmts ts) = .ok (ss, rest)) : Took .stmts ts ss rest := by
  induction len : ts.length using Nat.strongRecOn generalizing ts ss rest with
  | ind m ih =>
    cases ts with
    | nil =>
      rw [forget_stmts_nil] at read
      cases read
      exact ⟨[], rfl, .noStmts⟩
    | cons t ts =>
      rw [forget_stmts_cons] at read
      split at read
      · cases read
        exact ⟨[], rfl, .noStmts⟩
      · simp only [bind_eq_ok, pure_eq_ok, Prod.mk.injEq] at read
        obtain ⟨s, us, first, more, _, others, rfl, rfl⟩ := read
        have shorter := length_of_forget first
        obtain ⟨used, whole, phrase⟩ := took_stmt within short first
        obtain ⟨used', rfl, phrases⟩ := ih us.length (by omega) (by omega) others rfl
        exact ⟨used ++ used', by rw [whole, List.append_assoc], .moreStmts phrase phrases⟩

theorem took_block_of_within {ts rest : List Lexeme} {b : Block} (short : ts.length ≤ n + 1)
    (read : forget (block ts) = .ok (b, rest)) : Took .block ts b rest := by
  rw [forget_block] at read
  simp only [bind_eq_ok, pure_eq_ok, expect_eq_ok, Prod.mk.injEq] at read
  obtain ⟨t, us, ⟨rfl, left⟩, ds, vs, declared, ss, _, body, u, _, ⟨rfl, right⟩, rfl, rfl⟩ := read
  have shorter := length_of_forget declared
  obtain ⟨used, rfl, phrase⟩ := took_varDecls declared
  obtain ⟨used', rfl, phrase'⟩ := took_stmts within (by simp at short shorter ⊢; omega) body
  exact ⟨t :: used ++ used' ++ [u], by simp, .block left phrase phrase' right⟩

end Within

theorem blockWithin (n : Nat) : BlockWithin n := by
  induction n with
  | zero =>
    intro ts b rest short read
    rw [List.length_eq_zero_iff.mp (Nat.le_zero.mp short), forget_block] at read
    cases read
  | succ n ih => exact fun ts b rest short read => took_block_of_within ih short read

theorem took_block {ts rest : List Lexeme} {b : Block} (read : forget (block ts) = .ok (b, rest)) :
    Took .block ts b rest :=
  blockWithin ts.length ts b rest (Nat.le_refl _) read

/-! ## Declarations -/

theorem took_structDecl {ts rest : List Lexeme} {d : Decl}
    (read : forget (structDecl ts) = .ok (d, rest)) : Took .decl ts d rest := by
  rw [forget_structDecl] at read
  simp only [bind_eq_ok, pure_eq_ok, expect_eq_ok, ident_eq_ok, Prod.mk.injEq] at read
  obtain ⟨t, _, ⟨rfl, word⟩, _, _, ⟨name, rfl, kind, rfl⟩, u, _, ⟨rfl, left⟩, fields, _, inner,
    w, _, ⟨rfl, mark⟩, rfl, rfl⟩ := read
  obtain ⟨v, right, used, rfl, phrase⟩ := took_fieldsFrom inner
  exact ⟨[t, name, u] ++ used ++ [v, w], by simp,
    .declStruct (.structDecl word kind left phrase right mark)⟩

/-- The formals with the parentheses around them, and what makes a function of them. -/
theorem took_formals {ts us rest : List Lexeme} {type : TypeExp} {name : Lexeme}
    {ds : List VarDecl} (typed : Phrase .type us type) (kind : kindOf name = .identifier)
    (read : forget (formals ts) = .ok (ds, rest)) :
    ∃ used, ts = used ++ rest ∧ ∀ vs b, Phrase .block vs b →
      Phrase .fnDecl (us ++ name :: used ++ vs) ⟨type, identOf name, ds, b⟩ := by
  rw [forget_formals] at read
  simp only [bind_eq_ok, expect_eq_ok] at read
  obtain ⟨t, vs, ⟨rfl, left⟩, read⟩ := read
  cases vs with
  | nil => cases read
  | cons u vs =>
    dsimp only at read
    split at read
    · next right =>
      cases read
      refine ⟨[t, u], rfl, fun vs b phrase => ?_⟩
      simpa [identOf] using Phrase.fnDeclPlain typed kind left right phrase
    · obtain ⟨paren, right, used, whole, phrase⟩ := took_formalsFrom read
      refine ⟨t :: used ++ [paren], by simp [whole], fun vs b phrase' => ?_⟩
      simpa [identOf] using Phrase.fnDecl typed kind left phrase right phrase'

theorem took_varOrFnDecl {ts rest : List Lexeme} {d : Decl}
    (read : forget (varOrFnDecl ts) = .ok (d, rest)) : Took .decl ts d rest := by
  rw [forget_varOrFnDecl] at read
  simp only [bind_eq_ok] at read
  obtain ⟨head, us, first, read⟩ := read
  obtain ⟨used, rfl, phrase⟩ := took_formal first
  cases phrase with
  | formal typed kind =>
    split at read
    · rw [forget_fnDecl] at read
      simp only [bind_eq_ok, pure_eq_ok, Prod.mk.injEq] at read
      obtain ⟨ds, _, inner, b, _, body, rfl, rfl⟩ := read
      obtain ⟨used', rfl, complete⟩ := took_formals typed kind inner
      obtain ⟨used'', rfl, phrase'⟩ := took_block body
      exact ⟨_, by simp, .declFn (complete _ _ phrase')⟩
    · simp only [bind_eq_ok, pure_eq_ok, expect_eq_ok, Prod.mk.injEq] at read
      obtain ⟨u, _, ⟨rfl, mark⟩, rfl, rfl⟩ := read
      exact ⟨_, by simp, .declVar (.varDecl typed kind mark)⟩

theorem took_decl {ts rest : List Lexeme} {d : Decl} (read : forget (decl ts) = .ok (d, rest)) :
    Took .decl ts d rest := by
  rw [forget_decl] at read
  split at read
  · exact took_structDecl read
  · exact took_varOrFnDecl read

/-- What is read to the end is a program. -/
theorem phrase_of_decls {ts : List Lexeme} {ds : List Decl} (read : decls ts = .ok ds) :
    Phrase .program ts ds := by
  induction len : ts.length using Nat.strongRecOn generalizing ts ds with
  | ind n ih =>
    cases ts with
    | nil =>
      rw [decls_nil] at read
      cases read
      exact .noDecls
    | cons t ts =>
      rw [decls_cons] at read
      simp only [bind_eq_ok] at read
      obtain ⟨d, us, first, read⟩ := read
      have shorter := length_of_forget first
      obtain ⟨used, whole, phrase⟩ := took_decl first
      cases others : decls us with
      | error stuck => rw [others] at read; cases read
      | ok more =>
        rw [others] at read
        cases read
        rw [whole]
        exact .moreDecls phrase (ih us.length (by omega) others rfl)

end Cinder.Parse
