import Cinder.Proofs.Grammar.Beginning
import Cinder.Proofs.Reading.Sound

/-!
# Reading from left to right

A reader decides from the lexemes up to the one that it stops at. Where it gets stuck, the lexemes
before begin a phrase, and with the next lexeme they do not, whatever comes after it.
-/
namespace Cinder.Parse

open Grammar
open Piece (token phrase)

variable {α β : Type}

abbrev Reader (α : Type) := List Lexeme → Except Stuck (α × List Lexeme)

/-- The lexemes from the one that a reader stopped at. -/
def left : Except Stuck (α × List Lexeme) → List Lexeme
  | .error stuck => stuck.rest
  | .ok (_, rest) => rest

/-- The same outcome with other lexemes left. -/
def leaving (rest : List Lexeme) : Except Stuck (α × List Lexeme) → Except Stuck (α × List Lexeme)
  | .error _ => .error ⟨rest⟩
  | .ok (value, _) => .ok (value, rest)

/-- The reader takes the lexemes `used` and stops at the lexeme after them, with the same outcome
whatever follows that lexeme. Where it gets stuck, `used` satisfies `Q`. -/
def Online (Q : List Lexeme → Prop) (R : Reader α) (ts : List Lexeme) : Prop :=
  ∃ used, ts = used ++ left (R ts) ∧ (∀ stuck, R ts = .error stuck → Q used) ∧
    ∀ us, us.head? = (left (R ts)).head? → R (used ++ us) = leaving us (R ts)

theorem head?_append_congr {us vs : List Lexeme} (same : us.head? = vs.head?) (used : List Lexeme) :
    (used ++ us).head? = (used ++ vs).head? := by
  rw [List.head?_append, List.head?_append, same]

namespace Online

variable {Q Q' : List Lexeme → Prop} {R R' : Reader α} {t : Lexeme} {ts : List Lexeme}

theorem mono (h : Online Q R ts) (weaker : ∀ used, Q used → Q' used) : Online Q' R ts := by
  obtain ⟨used, whole, viable, stable⟩ := h
  exact ⟨used, whole, fun stuck failed => weaker used (viable stuck failed), stable⟩

/-- Readers that agree where the first lexeme is the same. -/
theorem congr (h : Online Q R' ts) (same : ∀ us, us.head? = ts.head? → R us = R' us) :
    Online Q R ts := by
  obtain ⟨used, whole, viable, stable⟩ := h
  rw [← same ts rfl] at whole viable stable
  refine ⟨used, whole, viable, fun us next => ?_⟩
  rw [same, stable us next]
  rw [head?_append_congr next, ← whole]

theorem of_eq (same : ∀ us, R us = R' us) (h : Online Q R' ts) : Online Q R ts :=
  h.congr fun us _ => same us

/-- The first lexeme is taken, perhaps after a look at the next one. -/
theorem cons (h : Online (fun used => Q (t :: used)) R' ts)
    (same : ∀ us, us.head? = ts.head? → R (t :: us) = R' us) : Online Q R (t :: ts) := by
  obtain ⟨used, whole, viable, stable⟩ := h
  rw [← same ts rfl] at whole viable stable
  refine ⟨t :: used, congrArg (t :: ·) whole, viable, fun us next => ?_⟩
  rw [List.cons_append, same, stable us next]
  rw [head?_append_congr next, ← whole]

theorem congr_cons (h : Online Q R' (t :: ts)) (same : ∀ us, R (t :: us) = R' (t :: us)) :
    Online Q R (t :: ts) := by
  refine h.congr fun us next => ?_
  cases us with
  | nil => cases next
  | cons u us =>
    obtain rfl : u = t := Option.some.inj next
    exact same us

theorem stop {value : α} : Online Q (fun us => pure (value, us)) ts :=
  ⟨[], rfl, nofun, fun _ _ => rfl⟩

theorem stop_nil {value : α} (same : R [] = .ok (value, [])) : Online Q R [] := by
  refine (stop : Online Q (fun us => pure (value, us)) []).congr fun us next => ?_
  rw [List.head?_eq_none_iff.mp next]
  exact same

theorem stop_cons {value : α} (same : ∀ us, R (t :: us) = .ok (value, t :: us)) :
    Online Q R (t :: ts) :=
  stop.congr_cons same

/-- One lexeme is taken. -/
theorem one {value : α} (same : ∀ us, R (t :: us) = .ok (value, us)) : Online Q R (t :: ts) :=
  stop.cons fun us _ => same us

theorem stuck (viable : Q []) :
    Online Q (fun us => (.error ⟨us⟩ : Except Stuck (α × List Lexeme))) ts :=
  ⟨[], rfl, fun _ _ => viable, fun _ _ => rfl⟩

theorem stuck_nil (viable : Q []) (same : R [] = .error ⟨[]⟩) : Online Q R [] := by
  refine (stuck viable).congr fun us next => ?_
  rw [List.head?_eq_none_iff.mp next]
  exact same

theorem stuck_cons (viable : Q []) (same : ∀ us, R (t :: us) = .error ⟨t :: us⟩) :
    Online Q R (t :: ts) :=
  (stuck viable).congr_cons same

theorem bind {x : Reader α} {f : α × List Lexeme → Except Stuck (β × List Lexeme)}
    (first : Online Q x ts)
    (next : ∀ used value rest, ts = used ++ rest → x (used ++ rest) = .ok (value, rest) →
      Online (fun us => Q (used ++ us)) (fun us => f (value, us)) rest) :
    Online Q (fun us => x us >>= f) ts := by
  obtain ⟨used, whole, viable, stable⟩ := first
  rcases read : x ts with stuck | ⟨value, rest⟩
  · rw [read] at whole viable stable
    refine ⟨used, ?_, fun _ _ => viable stuck rfl, fun us same => ?_⟩
    · simp only [read, error_bind]
      exact whole
    · simp only [read, error_bind] at same ⊢
      rw [stable us same]
      rfl
  · rw [read] at whole stable
    obtain ⟨used', whole', viable', stable'⟩ := next used value rest whole (whole ▸ read)
    refine ⟨used ++ used', ?_, ?_, fun us same => ?_⟩
    · simp only [read, ok_bind]
      rw [List.append_assoc, ← whole']
      exact whole
    · simpa only [read, ok_bind] using viable'
    · simp only [read, ok_bind] at same ⊢
      have reread : x (used ++ (used' ++ us)) = .ok (value, used' ++ us) := by
        refine stable _ ?_
        rw [head?_append_congr same, ← whole']
        rfl
      rw [List.append_assoc, reread, ok_bind]
      exact stable' us same

/-- What a reader has read is returned in another form. -/
theorem returns {x : Reader α} {g : α → β} (h : Online Q x ts) :
    Online Q (fun us => do
      let (value, rest) ← x us
      return (g value, rest)) ts :=
  h.bind fun _ _ _ _ _ => .stop

theorem bind_cons {x : Reader α} {f : α × List Lexeme → Except Stuck (β × List Lexeme)}
    {R : Reader β} (first : Online Q x (t :: ts)) (step : ∀ us, R (t :: us) = x (t :: us) >>= f)
    (next : ∀ used value rest, t :: ts = used ++ rest → x (used ++ rest) = .ok (value, rest) →
      Online (fun us => Q (used ++ us)) (fun us => f (value, us)) rest) :
    Online Q R (t :: ts) :=
  (first.bind next).congr_cons step

end Online

/-- The phrase that was taken, where what was taken is known. -/
theorem Took.phrase {n : Nonterminal} {used rest : List Lexeme} {v : n.Tree}
    (took : Took n (used ++ rest) v rest) : Phrase n used v := by
  obtain ⟨used', whole, phrase⟩ := took
  rwa [List.append_cancel_right whole]

theorem used_of_expect {kind : Kind} {used rest : List Lexeme} {t : Lexeme}
    (read : forget (expect kind (used ++ rest)) = .ok (t, rest)) :
    used = [t] ∧ kindOf t = kind := by
  obtain ⟨whole, same⟩ := expect_eq_ok.mp read
  exact ⟨List.append_cancel_right (show _ = [t] ++ rest from whole), same⟩

theorem used_of_ident {used rest : List Lexeme} {id : Ident}
    (read : forget (ident (used ++ rest)) = .ok (id, rest)) :
    ∃ t, used = [t] ∧ kindOf t = .identifier ∧ id = identOf t := by
  obtain ⟨t, whole, same⟩ := ident_eq_ok.mp read
  exact ⟨t, List.append_cancel_right (show _ = [t] ++ rest from whole), same⟩

theorem online_expect (kind : Kind) (ts : List Lexeme) :
    Online (Begins [token kind]) (fun us => forget (expect kind us)) ts := by
  cases ts with
  | nil => exact .stuck_nil (Begins.start _) rfl
  | cons t ts =>
    by_cases same : kindOf t = kind
    · exact .one fun us => by rw [forget_expect_cons, if_pos same]
    · exact .stuck_cons (Begins.start _) fun us => by rw [forget_expect_cons, if_neg same]

/-- What is returned when a lexeme of a kind has been read. -/
theorem online_before (kind : Kind) (ts : List Lexeme) {value : α} :
    Online (Begins [token kind]) (fun us => do
      let (_, rest) ← forget (expect kind us)
      return (value, rest)) ts :=
  (online_expect kind ts).bind fun _ _ _ _ _ => .stop

theorem online_ident (ts : List Lexeme) :
    Online (Begins [token .identifier]) (fun us => forget (ident us)) ts := by
  refine .of_eq forget_ident ?_
  exact (online_expect _ ts).returns

theorem forget_ident_cons {t : Lexeme} (kind : kindOf t = .identifier) (ts : List Lexeme) :
    forget (ident (t :: ts)) = .ok (identOf t, ts) := by
  rw [forget_ident, forget_expect_cons, if_pos kind]
  rfl

theorem online_typeExp (ts : List Lexeme) :
    Online (Begins [phrase .type]) (fun us => forget (typeExp us)) ts := by
  cases ts with
  | nil => exact .stuck_nil (Begins.start _) rfl
  | cons t ts =>
    have step := forget_typeExp_cons t
    split at step
    · exact .one step
    · exact .one step
    · exact .one step
    · next word =>
      refine .cons ?_ fun us _ => step us
      refine ((online_ident ts).mono fun _ h => ?_).returns
      exact (h.token word).one (by decide)
    · exact .stuck_cons (Begins.start _) step

theorem online_formal (ts : List Lexeme) :
    Online (Begins [phrase .type, token .identifier]) (fun us => forget (formal us)) ts := by
  refine .of_eq forget_formal ?_
  refine ((online_typeExp ts).mono fun _ h => h.extend _).bind fun used type rest _ read => ?_
  refine ((online_ident rest).mono fun _ h => ?_).returns
  exact h.after (took_typeExp read).phrase

theorem online_varDecl (ts : List Lexeme) :
    Online (Begins [phrase .varDecl]) (fun us => forget (varDecl us)) ts := by
  refine .of_eq forget_varDecl ?_
  refine ((online_formal ts).mono fun _ h => ?_).bind fun used d rest _ read => ?_
  · exact h.opens [token .semicolon] (by decide)
  · refine (online_before .semicolon rest).mono fun us h => ?_
    cases (took_formal read).phrase with
    | formal typed kind =>
      rw [List.append_assoc]
      exact ((h.token kind).after typed).one (by decide)

theorem online_varDecls (ts : List Lexeme) :
    Online (Begins [phrase .varDecls]) (fun us => forget (varDecls us)) ts := by
  cases ts with
  | nil => exact .stop_nil forget_varDecls_nil
  | cons t ts =>
    have step := forget_varDecls_cons t
    split at step
    · refine .bind_cons ((online_varDecl (t :: ts)).mono fun _ h => ?_) step ?_
      · exact h.opens [phrase .varDecls] (by decide)
      · intro used d rest whole read
        have shorter : rest.length < (t :: ts).length := whole ▸ length_of_forget read
        refine ((online_varDecls rest).mono fun _ h => ?_).returns
        exact (h.after (took_varDecl read).phrase).one (by decide)
    · exact .stop_cons step
termination_by ts.length
decreasing_by exact shorter

theorem online_fieldsFrom (ts : List Lexeme) :
    Online (Begins [phrase .fields, token .rightBrace]) (fun us => forget (fieldsFrom us)) ts := by
  refine .of_eq forget_fieldsFrom ?_
  refine ((online_varDecl ts).mono fun _ h => ?_).bind fun used d rest whole read => ?_
  · exact (h.one (by decide)).extend _
  · have shorter : rest.length < ts.length := whole ▸ length_of_forget read
    have field := (took_varDecl read).phrase
    cases rest with
    | nil => exact .stuck_nil ((Begins.start _).after (.lastField field)) rfl
    | cons t rest =>
      by_cases last : kindOf t = .rightBrace
      · exact .one fun us => if_pos last
      · refine .bind_cons ((online_fieldsFrom (t :: rest)).mono fun _ h => ?_)
          (fun us => if_neg last) fun _ _ _ _ _ => .stop
        exact (h.after field).expand [phrase .varDecl, phrase .fields] (by decide)
termination_by ts.length

theorem online_formalsFrom (ts : List Lexeme) :
    Online (Begins [phrase .formals, token .rightParen])
      (fun us => forget (formalsFrom us)) ts := by
  refine .of_eq forget_formalsFrom ?_
  refine ((online_formal ts).mono fun _ h => ?_).bind fun used d rest whole read => ?_
  · have formal : Begins [phrase .formal] _ := h.one (by decide)
    exact (formal.one (by decide)).extend _
  · have shorter : rest.length < ts.length := whole ▸ length_of_forget read
    have decl := (took_formal read).phrase
    have viable := (Begins.start [token .rightParen]).after (.lastFormal decl)
    cases rest with
    | nil => exact .stuck_nil viable rfl
    | cons t rest =>
      by_cases comma : kindOf t = .comma
      · have fewer : rest.length < ts.length := Nat.lt_of_succ_lt shorter
        refine .cons ?_ fun us _ => if_pos comma
        refine ((online_formalsFrom rest).mono fun _ h => ?_).returns
        exact ((h.token comma).after decl).expand [phrase .formal, token .comma, phrase .formals]
          (by decide)
      · by_cases last : kindOf t = .rightParen
        · exact .one fun us => (if_neg comma).trans (if_pos last)
        · exact .stuck_cons viable fun us => (if_neg comma).trans (if_neg last)
termination_by ts.length

theorem online_formals (ts : List Lexeme) :
    Online (Begins [token .leftParen, phrase .formals, token .rightParen])
      (fun us => forget (formals us)) ts := by
  refine .of_eq forget_formals ?_
  refine ((online_expect .leftParen ts).mono fun _ h => h.extend _).bind
    fun used paren rest whole read => ?_
  obtain ⟨rfl, left⟩ := used_of_expect read
  cases rest with
  | nil => exact .stuck_nil ((Begins.start _).token left) rfl
  | cons t rest =>
    by_cases right : kindOf t = .rightParen
    · exact .one fun us => if_pos right
    · refine .congr_cons ((online_formalsFrom (t :: rest)).mono fun _ h => ?_)
        fun us => if_neg right
      exact h.token left

/-! ## Expressions -/

/-- Selections extend the place before them. -/
theorem online_selections {used : List Lexeme} {base : Exp} (before : Phrase .loc used base)
    (ts : List Lexeme) :
    Online (fun us => Begins [phrase .loc] (used ++ us))
      (fun us => forget (selections base us)) ts := by
  cases ts with
  | nil => exact .stop_nil (forget_selections_nil base)
  | cons t ts =>
    have step := forget_selections_cons base t
    split at step
    · next dot =>
      refine .cons ?_ fun us _ => step us
      refine ((online_ident ts).mono fun _ h => ?_).bind fun used' field rest whole read => ?_
      · exact ((h.token dot).after before).one (by decide)
      · have shorter : rest.length < ts.length := whole ▸ length_of_forget read
        obtain ⟨u, rfl, kind, rfl⟩ := used_of_ident read
        refine (online_selections (before.select dot kind) rest).mono fun _ h => ?_
        simpa using h
    · exact .stop_cons step
termination_by ts.length
decreasing_by simp; omega

/-- A place whose identifier has been seen. -/
theorem online_place_cons {t : Lexeme} (kind : kindOf t = .identifier) (ts : List Lexeme) :
    Online (fun us => Begins [phrase .loc] (t :: us)) (fun us => forget (place (t :: us))) ts := by
  refine .of_eq (fun us => ?_) (online_selections (.ident kind) ts)
  rw [forget_place, forget_ident_cons kind]
  rfl

theorem online_place (ts : List Lexeme) :
    Online (Begins [phrase .loc]) (fun us => forget (place us)) ts := by
  cases ts with
  | nil => exact .stuck_nil (Begins.start _) rfl
  | cons t ts =>
    by_cases kind : kindOf t = .identifier
    · exact .cons (online_place_cons kind ts) fun us _ => rfl
    · refine .stuck_cons (Begins.start _) fun us => ?_
      rw [forget_place, forget_ident, forget_expect_cons, if_neg kind]
      rfl

theorem nextIs_congr {us ts : List Lexeme} (same : us.head? = ts.head?) (kind : Kind) :
    nextIs kind us = nextIs kind ts := by
  cases us <;> cases ts <;> cases same <;> rfl

theorem took_operation_all {levels : List Level} (descends : Descends levels)
    {ts rest : List Lexeme} {e : Exp} (read : forget (operation levels ts) = .ok (e, rest)) :
    Took (.operation levels.head?) ts e rest :=
  took_operation (expBelow _) descends (Nat.le_refl _) read

mutual

theorem online_exp (ts : List Lexeme) :
    Online (Begins [phrase .exp]) (fun us => forget (exp us)) ts := by
  refine .of_eq forget_exp ?_
  refine ((online_operation descends_all ts).mono fun _ h => ?_).bind
    fun used e rest whole read => ?_
  · exact h.one (by decide)
  · have shorter : rest.length < ts.length := whole ▸ length_of_forget read
    have left := (took_operation_all descends_all read).phrase
    cases rest with
    | nil => exact .stop_nil rfl
    | cons t rest =>
      have fewer : rest.length < ts.length := Nat.lt_of_succ_lt shorter
      by_cases assigns : kindOf t = .assign
      · by_cases isPlace : e.isPlace
        · refine .cons ?_ fun us _ => (if_pos assigns).trans (if_pos isPlace)
          refine ((online_exp rest).mono fun _ h => ?_).returns
          exact ((h.token assigns).after (placeIsTarget left isPlace)).one (by decide)
        · refine .stuck_cons ?_ fun us => (if_pos assigns).trans (if_neg isPlace)
          exact ((Begins.start []).after left).one (by decide)
      · exact .stop_cons fun us => if_neg assigns
termination_by (ts.length, 10)
decreasing_by
  · exact Prod.Lex.right _ (by simp [Level.all])
  · exact Prod.Lex.left _ _ (by omega)

theorem online_operation {levels : List Level} (descends : Descends levels) (ts : List Lexeme) :
    Online (Begins [phrase (.operation levels.head?)])
      (fun us => forget (operation levels us)) ts := by
  cases levels with
  | nil => exact .of_eq forget_operation_nil (online_operand ts)
  | cons level tighter =>
    refine .of_eq (forget_operation_cons level tighter) ?_
    refine ((online_operation descends.2 ts).mono fun _ h => ?_).bind
      fun used e rest whole read => ?_
    · rw [← descends.1] at h
      exact h.one List.mem_cons_self
    · have shorter : rest.length < ts.length := whole ▸ length_of_forget read
      have left := (took_operation_all descends.2 read).phrase
      rw [← descends.1] at left
      have before :
          Phrase (.operation (if level = .comparison then level.tighter else some level))
            used e := by
        by_cases single : level = .comparison
        · rw [if_pos single]
          exact left
        · rw [if_neg single]
          exact left.operand
      exact online_operations descends before rest
termination_by (ts.length, levels.length + 3)
decreasing_by
  · exact Prod.Lex.right _ (by simp)
  · exact Prod.Lex.right _ (by subst_vars; simp)
  · exact Prod.Lex.left _ _ (by omega)

/-- Operators of a level extend the operation before them. -/
theorem online_operations {level : Level} {tighter : List Level}
    (descends : Descends (level :: tighter)) {used : List Lexeme} {left : Exp}
    (before : Phrase (.operation (if level = .comparison then level.tighter else some level))
      used left) (ts : List Lexeme) :
    Online (fun us => Begins [phrase (.operation (some level))] (used ++ us))
      (fun us => forget (operations level tighter left us)) ts := by
  cases ts with
  | nil => exact .stop_nil (forget_operations_nil level tighter left)
  | cons t ts =>
    have step := forget_operations_cons level tighter left t
    split at step
    · exact .stop_cons step
    · next op written =>
      have written := Level.operator?_eq_some.mp written
      refine .cons ?_ fun us _ => step us
      refine ((online_operation descends.2 ts).mono fun _ h => ?_).bind
        fun used' right rest whole read => ?_
      · rw [← descends.1] at h
        exact ((h.token rfl).after before).one (mem_operations written)
      · have shorter : rest.length < ts.length := whole ▸ length_of_forget read
        have operand := (took_operation_all descends.2 read).phrase
        rw [← descends.1] at operand
        by_cases single : level = .comparison
        · subst single
          have phrase := Phrase.comparison written before operand
          refine .of_eq (fun us => if_neg (by decide)) ?_
          cases rest with
          | nil => exact .stop_nil rfl
          | cons u rest =>
            by_cases more : (Level.comparison.operator? (kindOf u)).isSome
            · refine .stuck_cons ?_ fun us => if_pos more
              simpa using (Begins.start []).after phrase
            · exact .stop_cons fun us => if_neg more
        · have longer :
              Phrase (.operation (if level = .comparison then level.tighter else some level))
                (used ++ t :: used') (.binary op left right) := by
            rw [if_neg single] at before ⊢
            exact before.chain single written operand
          refine .of_eq (fun us => if_pos (Level.chains_iff.mpr single)) ?_
          refine (online_operations descends longer rest).mono fun _ h => ?_
          simpa using h
termination_by (ts.length, 0)
decreasing_by
  · exact Prod.Lex.left _ _ (by simp)
  · exact Prod.Lex.left _ _ (by simp; omega)

theorem online_operand (ts : List Lexeme) :
    Online (Begins [phrase (.operation none)]) (fun us => forget (operand us)) ts := by
  cases ts with
  | nil => exact .stuck_nil (Begins.start _) forget_operand_nil
  | cons t ts =>
    have step := forget_operand_cons t
    split at step
    · next kind =>
      refine .cons ?_ fun us _ => step us
      refine ((online_operand ts).mono fun _ h => ?_).returns
      exact (h.token kind).one (by decide)
    · next kind =>
      refine .cons ?_ fun us _ => step us
      refine ((online_operand ts).mono fun _ h => ?_).returns
      exact (h.token kind).one (by decide)
    · exact .congr_cons ((online_term (t :: ts)).mono fun _ h => h.one (by decide)) step
termination_by (ts.length, 2)
decreasing_by
  · exact Prod.Lex.left _ _ (by simp)
  · exact Prod.Lex.left _ _ (by simp)
  · exact Prod.Lex.right _ (by simp)

theorem online_term (ts : List Lexeme) :
    Online (Begins [phrase .term]) (fun us => forget (term us)) ts := by
  cases ts with
  | nil => exact .stuck_nil (Begins.start _) forget_term_nil
  | cons t ts =>
    have step := forget_term_cons t
    split at step
    · exact .one step
    · exact .one step
    · exact .one step
    · exact .one step
    · next left =>
      refine .cons ?_ fun us _ => step us
      refine ((online_exp ts).mono fun _ h => ?_).bind fun used e rest _ read => ?_
      · exact ((h.extend [token .rightParen]).token left).one (by decide)
      · refine (online_before .rightParen rest).mono fun _ h => ?_
        exact ((h.after (took_exp read).phrase).token left).one (by decide)
    · next kind =>
      by_cases opens : nextIs .leftParen ts
      · refine .cons ?_ fun us same => (step us).trans (if_pos (nextIs_congr same _ ▸ opens))
        refine ((online_arguments kind ts).mono fun _ h => ?_).returns
        exact h.one (by decide)
      · refine .cons ((online_place_cons kind ts).mono fun _ h => ?_)
          fun us same => (step us).trans (if_neg (nextIs_congr same _ ▸ opens))
        exact h.one (by decide)
    · exact .stuck_cons (Begins.start _) step
termination_by (ts.length, 1)
decreasing_by
  · exact Prod.Lex.left _ _ (by simp)
  · exact Prod.Lex.left _ _ (by simp)

/-- The arguments of a call whose callee has been seen. -/
theorem online_arguments {t : Lexeme} (callee : kindOf t = .identifier) (ts : List Lexeme) :
    Online (fun us => Begins [phrase .call] (t :: us)) (fun us => forget (arguments us)) ts := by
  refine .of_eq forget_arguments ?_
  refine ((online_expect .leftParen ts).mono fun _ h => ?_).bind
    fun used paren rest whole read => ?_
  · exact ((h.extend [phrase .args, token .rightParen]).token callee).one (by decide)
  · have shorter : rest.length < ts.length := whole ▸ length_of_forget read
    obtain ⟨rfl, left⟩ := used_of_expect read
    have within : ∀ us, Begins [phrase .args, token .rightParen] us →
        Begins [phrase .call] (t :: paren :: us) := fun us h =>
      ((h.token left).token callee).one (by decide)
    cases rest with
    | nil => exact .stuck_nil (within _ (Begins.start _)) rfl
    | cons u rest =>
      by_cases right : kindOf u = .rightParen
      · exact .one fun us => if_pos right
      · exact .congr_cons ((online_argumentsFrom (u :: rest)).mono within) fun us => if_neg right
termination_by (ts.length, 0)
decreasing_by exact Prod.Lex.left _ _ (by omega)

theorem online_argumentsFrom (ts : List Lexeme) :
    Online (Begins [phrase .args, token .rightParen]) (fun us => forget (argumentsFrom us)) ts := by
  refine .of_eq forget_argumentsFrom ?_
  refine ((online_exp ts).mono fun _ h => ?_).bind fun used e rest whole read => ?_
  · exact (h.one (by decide)).extend _
  · have shorter : rest.length < ts.length := whole ▸ length_of_forget read
    have value := (took_exp read).phrase
    have viable := (Begins.start [token .rightParen]).after (.lastArg value)
    cases rest with
    | nil => exact .stuck_nil viable rfl
    | cons t rest =>
      have fewer : rest.length < ts.length := Nat.lt_of_succ_lt shorter
      by_cases comma : kindOf t = .comma
      · refine .cons ?_ fun us _ => if_pos comma
        refine ((online_argumentsFrom rest).mono fun _ h => ?_).returns
        exact ((h.token comma).after value).expand [phrase .exp, token .comma, phrase .args]
          (by decide)
      · by_cases last : kindOf t = .rightParen
        · exact .one fun us => (if_neg comma).trans (if_pos last)
        · exact .stuck_cons viable fun us => (if_neg comma).trans (if_neg last)
termination_by (ts.length, 11)
decreasing_by
  · exact Prod.Lex.right _ (by simp)
  · exact Prod.Lex.left _ _ (by omega)

end

/-! ## Statements -/

theorem online_condition (ts : List Lexeme) :
    Online (Begins [token .leftParen, phrase .exp, token .rightParen])
      (fun us => forget (condition us)) ts := by
  refine .of_eq forget_condition ?_
  refine ((online_expect .leftParen ts).mono fun _ h => h.extend _).bind
    fun used paren rest _ opened => ?_
  obtain ⟨rfl, left⟩ := used_of_expect opened
  refine ((online_exp rest).mono fun _ h => ?_).bind fun used e rest _ read => ?_
  · exact (h.extend _).token left
  · refine (online_before .rightParen rest).mono fun _ h => ?_
    exact (h.after (took_exp read).phrase).token left

theorem online_closedExp (ts : List Lexeme) :
    Online (Begins [phrase .exp, token .semicolon]) (fun us => forget (closedExp us)) ts := by
  refine .of_eq forget_closedExp ?_
  refine ((online_exp ts).mono fun _ h => h.extend _).bind fun used e rest _ read => ?_
  exact (online_before .semicolon rest).mono fun _ h => h.after (took_exp read).phrase

theorem online_readStmt (ts : List Lexeme) :
    Online (Begins [token .read, phrase .loc, token .semicolon])
      (fun us => forget (readStmt us)) ts := by
  refine .of_eq forget_readStmt ?_
  refine ((online_expect .read ts).mono fun _ h => h.extend _).bind
    fun used arrow rest _ first => ?_
  obtain ⟨rfl, kind⟩ := used_of_expect first
  refine ((online_place rest).mono fun _ h => ?_).bind fun used target rest _ read => ?_
  · exact (h.extend _).token kind
  · refine (online_before .semicolon rest).mono fun _ h => ?_
    exact (h.after (took_place read).phrase).token kind

theorem online_writeStmt (ts : List Lexeme) :
    Online (Begins [token .write, phrase .exp, token .semicolon])
      (fun us => forget (writeStmt us)) ts := by
  refine .of_eq forget_writeStmt ?_
  refine ((online_expect .write ts).mono fun _ h => h.extend _).bind
    fun used arrow rest _ first => ?_
  obtain ⟨rfl, kind⟩ := used_of_expect first
  exact ((online_closedExp rest).mono fun _ h => h.token kind).returns

theorem online_returnStmt (position : Position) (ts : List Lexeme) :
    Online (Begins [phrase .exp, token .semicolon])
      (fun us => forget (returnStmt position us)) ts := by
  cases ts with
  | nil => exact .stuck_nil (Begins.start _) rfl
  | cons t ts =>
    have step := forget_returnStmt_cons position t
    split at step
    · exact .one step
    · exact .bind_cons (online_closedExp (t :: ts)) step fun _ _ _ _ _ => .stop

theorem online_callStmt {t : Lexeme} (callee : kindOf t = .identifier) (ts : List Lexeme) :
    Online (fun us => Begins [phrase .stmt] (t :: us))
      (fun us => forget (callStmt (identOf t) us)) ts := by
  refine .of_eq (forget_callStmt (identOf t)) ?_
  refine ((online_arguments callee ts).mono fun _ h => ?_).bind fun used args rest _ read => ?_
  · exact h.opens [token .semicolon] (by decide)
  · refine (online_before .semicolon rest).mono fun _ h => ?_
    have took := took_arguments (expBelow _) callee (Nat.lt_succ_self _) read
    have call : Phrase .call (t :: used) (identOf t, args) := Took.phrase took
    exact (h.after call).one (by decide)

theorem online_placeStmt {t : Lexeme} (kind : kindOf t = .identifier) (ts : List Lexeme) :
    Online (fun us => Begins [phrase .stmt] (t :: us))
      (fun us => forget (placeStmt (t :: us))) ts := by
  refine .of_eq (fun us => forget_placeStmt (t :: us)) ?_
  refine ((online_place_cons kind ts).mono fun _ h => ?_).bind fun used target rest _ read => ?_
  · exact h.opens [token .increment, token .semicolon] (by decide)
  · have place : Phrase .loc (t :: used) target := Took.phrase (took_place read)
    have viable : Begins [phrase .stmt] (t :: (used ++ [])) :=
      ((Begins.start [token .increment, token .semicolon]).after place).one (by decide)
    cases rest with
    | nil => exact .stuck_nil viable rfl
    | cons u rest =>
      by_cases assigns : kindOf u = .assign
      · refine .cons ?_ fun us _ => rfl
        simp only [assigns]
        refine ((online_closedExp rest).mono fun _ h => ?_).returns
        exact ((h.token assigns).after place).one (by decide)
      by_cases up : kindOf u = .increment
      · refine .cons ?_ fun us _ => rfl
        simp only [up]
        refine (online_before .semicolon rest).mono fun _ h => ?_
        exact ((h.token up).after place).one (by decide)
      by_cases down : kindOf u = .decrement
      · refine .cons ?_ fun us _ => rfl
        simp only [down]
        refine (online_before .semicolon rest).mono fun _ h => ?_
        exact ((h.token down).after place).one (by decide)
      · refine .stuck_cons viable fun us => ?_
        dsimp only
        split
        · contradiction
        · contradiction
        · contradiction
        · rfl

mutual

theorem online_block (ts : List Lexeme) :
    Online (Begins [phrase .block]) (fun us => forget (block us)) ts := by
  refine .of_eq forget_block ?_
  refine ((online_expect .leftBrace ts).mono fun _ h => ?_).bind
    fun used brace rest whole opened => ?_
  · exact h.opens [phrase .varDecls, phrase .stmts, token .rightBrace] (by decide)
  · have shorter : rest.length < ts.length := whole ▸ length_of_forget opened
    obtain ⟨rfl, left⟩ := used_of_expect opened
    refine ((online_varDecls rest).mono fun _ h => ?_).bind
      fun used decls rest' whole' declared => ?_
    · exact ((h.extend [phrase .stmts, token .rightBrace]).token left).one (by decide)
    · have still : rest'.length < rest.length + 1 := whole' ▸ length_of_forget declared
      have vars := (took_varDecls declared).phrase
      refine ((online_stmts rest').mono fun _ h => ?_).bind fun used body rest'' _ read => ?_
      · exact (((h.extend [token .rightBrace]).after vars).token left).one (by decide)
      · refine (online_before .rightBrace rest'').mono fun _ h => ?_
        have stmts := (took_stmts (blockWithin _) (Nat.le_succ _) read)
        exact (((h.after stmts.phrase).after vars).token left).one (by decide)
termination_by (ts.length, 0)
decreasing_by exact Prod.Lex.left _ _ (by omega)

theorem online_stmts (ts : List Lexeme) :
    Online (Begins [phrase .stmts]) (fun us => forget (stmts us)) ts := by
  cases ts with
  | nil => exact .stop_nil forget_stmts_nil
  | cons t ts =>
    have step := forget_stmts_cons t
    split at step
    · exact .stop_cons step
    · refine .bind_cons ((online_stmt (t :: ts)).mono fun _ h => ?_) step ?_
      · exact h.opens [phrase .stmts] (by decide)
      · intro used s rest whole read
        have shorter : rest.length < (t :: ts).length := whole ▸ length_of_forget read
        refine ((online_stmts rest).mono fun _ h => ?_).returns
        have stmt := took_stmt (blockWithin _) (Nat.le_succ _) read
        exact (h.after stmt.phrase).one (by decide)
termination_by (ts.length, 2)
decreasing_by
  · exact Prod.Lex.right _ (by simp)
  · exact Prod.Lex.left _ _ (by omega)

/-- A condition and the block that it governs. -/
theorem online_governed (ts : List Lexeme) :
    Online (Begins [token .leftParen, phrase .exp, token .rightParen, phrase .block])
      governed ts := by
  refine ((online_condition ts).mono fun _ h => h.extend _).bind fun used e rest whole read => ?_
  have shorter : rest.length < ts.length := whole ▸ length_of_forget read
  obtain ⟨t, used', u, left, value, right, same⟩ := took_condition read
  obtain rfl : used = t :: used' ++ [u] := List.append_cancel_right (by simpa using same)
  refine ((online_block rest).mono fun _ h => ?_).returns
  simpa using ((h.token right).after value).token left
termination_by (ts.length, 0)
decreasing_by exact Prod.Lex.left _ _ (by omega)

theorem online_stmt (ts : List Lexeme) :
    Online (Begins [phrase .stmt]) (fun us => forget (stmt us)) ts := by
  cases ts with
  | nil => exact .stuck_nil (Begins.start _) forget_stmt_nil
  | cons t ts =>
    have step := forget_stmt_cons t
    split at step
    · next word =>
      refine .cons ((online_readStmt ts).mono fun _ h => ?_) fun us _ => step us
      exact (h.token word).one (by decide)
    · next word =>
      refine .cons ((online_writeStmt ts).mono fun _ h => ?_) fun us _ => step us
      exact (h.token word).one (by decide)
    · next word =>
      refine .cons ?_ fun us _ => step us
      refine ((online_governed ts).mono fun _ h => ?_).bind fun used value rest whole read => ?_
      · exact (h.token word).one (by decide)
      · have shorter : rest.length ≤ ts.length := by simp [whole]
        obtain ⟨e, yes⟩ := value
        obtain ⟨u, used₁, v, used₂, left, value, right, body, same⟩ :=
          took_governed (blockWithin _) (Nat.le_refl _) read
        obtain rfl : used = u :: used₁ ++ v :: used₂ := List.append_cancel_right same
        cases rest with
        | nil => exact .stop_nil rfl
        | cons w rest =>
          by_cases other : kindOf w = .elseWord
          · refine .cons ?_ fun us _ => if_pos (decide_eq_true other)
            refine ((online_block rest).mono fun _ h => ?_).returns
            have whole := ((((h.token other).after body).token right).after value).token left
            simpa using (whole.token word).one (by decide)
          · exact .stop_cons fun us => if_neg fun same => other (of_decide_eq_true same)
    · next word =>
      refine .cons ?_ fun us _ => step us
      refine ((online_governed ts).mono fun _ h => ?_).bind fun _ _ _ _ _ => .stop
      exact (h.token word).one (by decide)
    · next word =>
      refine .cons ?_ fun us _ => step us
      refine ((online_governed ts).mono fun _ h => ?_).bind fun _ _ _ _ _ => .stop
      exact (h.token word).one (by decide)
    · next word =>
      refine .cons ((online_returnStmt _ ts).mono fun _ h => ?_) fun us _ => step us
      exact (h.token word).one (by decide)
    · next kind =>
      by_cases opens : nextIs .leftParen ts
      · exact .cons (online_callStmt kind ts)
          fun us same => (step us).trans (if_pos (nextIs_congr same _ ▸ opens))
      · exact .cons (online_placeStmt kind ts)
          fun us same => (step us).trans (if_neg (nextIs_congr same _ ▸ opens))
    · exact .stuck_cons (Begins.start _) step
termination_by (ts.length, 1)
decreasing_by
  all_goals
    exact Prod.Lex.left _ _ (by simp only [List.length_cons] at *; omega)

end

/-! ## Declarations -/

theorem forget_structDecl_cons {t name : Lexeme} (word : kindOf t = .structWord)
    (kind : kindOf name = .identifier) (ts : List Lexeme) :
    forget (structDecl (t :: name :: ts)) = (do
      let (_, rest) ← forget (expect .leftBrace ts)
      let (fields, rest) ← forget (fieldsFrom rest)
      let (_, rest) ← forget (expect .semicolon rest)
      return (.struct ⟨identOf name, fields⟩, rest)) := by
  rw [forget_structDecl, forget_expect_cons, if_pos word, ok_bind]
  dsimp only
  rw [forget_ident_cons kind, ok_bind]

/-- A struct whose name has been seen. -/
theorem online_structDecl {t name : Lexeme} (word : kindOf t = .structWord)
    (kind : kindOf name = .identifier) (ts : List Lexeme) :
    Online (fun us => Begins [phrase .decl] (t :: name :: us))
      (fun us => forget (structDecl (t :: name :: us))) ts := by
  have inside : ∀ us,
      Begins [token .leftBrace, phrase .fields, token .rightBrace, token .semicolon] us →
      Begins [phrase .decl] (t :: name :: us) := by
    intro us h
    have struct : Begins [phrase .structDecl] _ := ((h.token kind).token word).one (by decide)
    exact struct.one (by decide)
  refine .of_eq (forget_structDecl_cons word kind) ?_
  refine ((online_expect .leftBrace ts).mono fun _ h => ?_).bind fun used brace rest _ opened => ?_
  · exact inside _ (h.extend _)
  · obtain ⟨rfl, left⟩ := used_of_expect opened
    refine ((online_fieldsFrom rest).mono fun _ h => ?_).bind fun used fields rest _ read => ?_
    · exact inside _ ((h.extend _).token left)
    · obtain ⟨v, right, used', whole, phrase⟩ := took_fieldsFrom read
      obtain rfl : used = used' ++ [v] := List.append_cancel_right (by simpa using whole)
      refine (online_before .semicolon rest).mono fun _ h => inside _ ?_
      simpa using ((h.token right).after phrase).token left

/-- A function whose result type and name have been read. -/
theorem online_fnDecl {front : List Lexeme} {type : TypeExp} {name : Lexeme}
    (typed : Phrase .type front type) (kind : kindOf name = .identifier) (ts : List Lexeme) :
    Online (fun us => Begins [phrase .decl] (front ++ name :: us))
      (fun us => forget (fnDecl type (identOf name) us)) ts := by
  refine .of_eq (forget_fnDecl type (identOf name)) ?_
  refine ((online_formals ts).mono fun _ h => ?_).bind fun used formals rest _ read => ?_
  · have fn : Begins [phrase .fnDecl] _ :=
      (((h.extend [phrase .block]).token kind).after typed).one (by decide)
    exact fn.one (by decide)
  · obtain ⟨used', whole, complete⟩ := took_formals typed kind read
    obtain rfl : used = used' := List.append_cancel_right whole
    refine ((online_block rest).mono fun _ h => ?_).bind fun _ _ _ _ _ => .stop
    have decl := h.within fun us b body => ⟨_, Phrase.declFn (complete us b body)⟩
    simpa using decl

theorem formal_inv {used : List Lexeme} {d : VarDecl} (phrase : Phrase .formal used d) :
    ∃ front name, used = front ++ [name] ∧ Phrase .type front d.type ∧
      kindOf name = .identifier ∧ d.name = identOf name := by
  cases phrase with
  | formal typed kind => exact ⟨_, _, rfl, typed, kind, rfl⟩

/-- A variable or a function, where some lexemes of its type may have been seen already. -/
theorem online_varOrFnDecl (seen : List Lexeme) {ts : List Lexeme}
    (first : Online (fun us => Begins [phrase .type, token .identifier] (seen ++ us))
      (fun us => forget (formal (seen ++ us))) ts) :
    Online (fun us => Begins [phrase .decl] (seen ++ us))
      (fun us => forget (varOrFnDecl (seen ++ us))) ts := by
  refine .of_eq (fun us => forget_varOrFnDecl (seen ++ us)) ?_
  refine (first.mono fun _ h => ?_).bind fun used d rest _ read => ?_
  · have var : Begins [phrase .varDecl] _ := h.opens [token .semicolon] (by decide)
    exact var.one (by decide)
  · rw [← List.append_assoc] at read
    obtain ⟨front, name, whole, typed, kind, named⟩ := formal_inv (took_formal read).phrase
    simp only [← List.append_assoc, whole, named]
    simp only [List.append_assoc, List.singleton_append]
    by_cases opens : nextIs .leftParen rest
    · exact (online_fnDecl typed kind rest).congr
        fun us same => if_pos (nextIs_congr same _ ▸ opens)
    · refine ((online_before .semicolon rest).mono fun _ h => ?_).congr
        fun us same => if_neg (nextIs_congr same _ ▸ opens)
      have var : Begins [phrase .varDecl] _ := ((h.token kind).after typed).one (by decide)
      exact var.one (by decide)

theorem forget_formal_struct {t name : Lexeme} (word : kindOf t = .structWord)
    (kind : kindOf name = .identifier) (ts : List Lexeme) :
    forget (formal (t :: name :: ts)) = (do
      let (id, rest) ← forget (ident ts)
      return (⟨.struct (identOf name), id⟩, rest)) := by
  rw [forget_formal, forget_typeExp_cons, word]
  dsimp only
  rw [forget_ident_cons kind, ok_bind]
  rfl

theorem forget_decl_unnamed {t : Lexeme} (word : kindOf t = .structWord) {ts : List Lexeme}
    (unnamed : ¬ nextIs .identifier ts) : forget (decl (t :: ts)) = .error ⟨ts⟩ := by
  cases ts with
  | nil =>
    rw [forget_decl, if_neg (by simp [startsStruct, word]), forget_varOrFnDecl, forget_formal,
      forget_typeExp_cons, word]
    rfl
  | cons u ts =>
    have other : kindOf u ≠ .identifier := by simpa [nextIs] using unnamed
    rw [forget_decl, if_neg (by simp [startsStruct, other]), forget_varOrFnDecl, forget_formal,
      forget_typeExp_cons, word]
    dsimp only
    rw [forget_ident, forget_expect_cons, if_neg other]
    rfl

/-- A struct, or a variable or function of a struct type: which it is shows after the name of the
struct, and up to there both read the same. -/
theorem online_decl_struct {t : Lexeme} (word : kindOf t = .structWord) (ts : List Lexeme) :
    Online (fun us => Begins [phrase .decl] (t :: us)) (fun us => forget (decl (t :: us))) ts := by
  have typed : ∀ us, Begins [token .identifier] us → Begins [phrase .type] (t :: us) :=
    fun us h => (h.token word).one (by decide)
  by_cases named : nextIs .identifier ts
  · obtain ⟨name, ts, rfl, kind⟩ : ∃ name us, ts = name :: us ∧ kindOf name = .identifier := by
      cases ts with
      | nil => cases named
      | cons name ts => exact ⟨name, ts, rfl, of_decide_eq_true named⟩
    refine .cons ?_ fun us _ => rfl
    have starts : ∀ us, startsStruct (t :: name :: us) = nextIs .leftBrace us := fun us => by
      simp [startsStruct_cons, nextIs, word, kind]
    by_cases brace : nextIs .leftBrace ts
    · refine (online_structDecl word kind ts).congr fun us same => ?_
      rw [forget_decl, starts us, nextIs_congr same, if_pos brace]
    · have first : Online (fun us => Begins [phrase .type, token .identifier] ([t, name] ++ us))
          (fun us => forget (formal ([t, name] ++ us))) ts := by
        refine .of_eq (forget_formal_struct word kind) ?_
        refine ((online_ident ts).mono fun _ h => ?_).returns
        exact h.after (.typeStruct word kind)
      refine (online_varOrFnDecl [t, name] first).congr fun us same => ?_
      rw [forget_decl, starts us, nextIs_congr same, if_neg brace]
      rfl
  · refine (Online.stuck ?_).congr fun us same => ?_
    · have var : Begins [phrase .varDecl] [t] :=
        (typed _ (Begins.start _)).opens [token .identifier, token .semicolon] (by decide)
      exact var.one (by decide)
    · exact forget_decl_unnamed word (nextIs_congr same _ ▸ named)

theorem online_decl (t : Lexeme) (ts : List Lexeme) :
    Online (Begins [phrase .decl]) (fun us => forget (decl us)) (t :: ts) := by
  by_cases word : kindOf t = .structWord
  · exact .cons (online_decl_struct word ts) fun us _ => rfl
  · refine .congr_cons (online_varOrFnDecl [] (online_formal (t :: ts))) fun us => ?_
    rw [forget_decl, if_neg (by simp [startsStruct, word])]
    rfl

/-- Declarations to the end, of which nothing is left. -/
def declsToEnd : Reader (List Decl) := fun ts => do return (← decls ts, [])

theorem declsToEnd_cons (t : Lexeme) (ts : List Lexeme) :
    declsToEnd (t :: ts) = (do
      let (d, rest) ← forget (decl (t :: ts))
      let (ds, rest) ← declsToEnd rest
      return (d :: ds, rest)) := by
  rw [declsToEnd, decls_cons]
  simp only [bind_assoc, pure_bind, declsToEnd]

theorem online_declsToEnd (ts : List Lexeme) :
    Online (Begins [phrase .program]) declsToEnd ts := by
  cases ts with
  | nil => exact .stop_nil (by rw [declsToEnd, decls_nil]; rfl)
  | cons t ts =>
    refine .bind_cons ((online_decl t ts).mono fun _ h => ?_) (declsToEnd_cons t) ?_
    · exact h.opens [phrase .program] (by decide)
    · intro used d rest whole read
      have shorter : rest.length < (t :: ts).length := whole ▸ length_of_forget read
      refine ((online_declsToEnd rest).mono fun _ h => ?_).returns
      exact (h.after (took_decl read).phrase).one (by decide)
termination_by ts.length
decreasing_by exact shorter

/-- Where declarations get stuck, the lexemes before begin a program, and with the next one they do
not: whatever follows it, the declarations get stuck there again. -/
theorem stuck_decls {ts : List Lexeme} {stuck : Stuck} (failed : decls ts = .error stuck) :
    ∃ used, ts = used ++ stuck.rest ∧ Begins [phrase .program] used ∧
      ∀ us, us.head? = stuck.rest.head? → decls (used ++ us) = .error ⟨us⟩ := by
  obtain ⟨used, whole, viable, stable⟩ := online_declsToEnd ts
  have failed' : declsToEnd ts = .error stuck := by rw [declsToEnd, failed]; rfl
  rw [failed'] at whole viable stable
  refine ⟨used, whole, viable stuck rfl, fun us same => ?_⟩
  have again := stable us same
  rw [declsToEnd] at again
  cases read : decls (used ++ us) with
  | ok ds =>
    rw [read] at again
    cases again
  | error stuck' =>
    rw [read] at again
    cases again
    rfl

/-- The lexemes from the one that does not fit are a tail of the input. -/
theorem tail_of_decls (ts : List Lexeme) {stuck : Stuck} (failed : decls ts = .error stuck) :
    stuck.rest <:+ ts := by
  obtain ⟨used, whole, -⟩ := stuck_decls failed
  exact ⟨used, whole.symm⟩

end Cinder.Parse
