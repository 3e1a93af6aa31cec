import Cinder.Proofs.Reading
import Cinder.Proofs.Tape

/-!
# Runs that follow a reader

A reader takes lexemes off a list and a run moves a head over the tokens. A run follows a reader if,
from wherever the head has the lexemes of the reader before it, the run comes to an end, its outcome
is that of the reader, and what it noted on the way is harmless. Following is closed under the ways
in which procedures are put together.
-/
namespace Cinder.Tape

open Parse (Lexeme Stuck kindOf forget)

/-- The index of the first end of the input. -/
def stop (tape : Tape) : Nat := tape.tokens.findIdx (·.kind = .endOfInput)

namespace Event

/-- Nothing outside the tape is looked at, the head is not moved past the end of the input, and a
round takes a token at least. -/
def Within (tape : Tape) : Event → Prop
  | look index => index < tape.tokens.length
  | move index => index ≤ tape.stop
  | begins _ _ => True
  | ends _ start stop => start < stop

/-- The open rounds after an event, from the outermost to the innermost. -/
def update (rounds : List (Loop × Nat)) : Event → List (Loop × Nat)
  | begins loop start => rounds ++ [(loop, start)]
  | ends _ _ _ => rounds.dropLast
  | _ => rounds

end Event

/-- The rounds that are open where the events stop. -/
def openRounds (events : List Event) : List (Loop × Nat) := events.foldl Event.update []

/-- Every round that began is over, and what was noted in between is that round's. -/
inductive Settled : List Event → Prop
  | nil : Settled []
  | look {events : List Event} (index : Nat) (after : Settled events) :
    Settled (.look index :: events)
  | move {events : List Event} (index : Nat) (after : Settled events) :
    Settled (.move index :: events)
  | round {inner events : List Event} (loop : Loop) (start stop : Nat) (inside : Settled inner)
    (after : Settled events) :
    Settled (.begins loop start :: inner ++ .ends loop start stop :: events)

theorem Settled.append {events more : List Event} (h : Settled events) (h' : Settled more) :
    Settled (events ++ more) := by
  induction h with
  | nil => exact h'
  | look index _ ih => exact .look index ih
  | move index _ ih => exact .move index ih
  | round loop start stop inside _ _ ih =>
    rw [List.append_assoc, List.cons_append]
    exact .round loop start stop inside ih

/-- The rounds in the list, each inside the one before it, began and are not over. All other rounds
are. -/
inductive Unfinished : List (Loop × Nat) → List Event → Prop
  | none {events : List Event} (settled : Settled events) : Unfinished [] events
  | inside {before events : List Event} {rounds : List (Loop × Nat)} (loop : Loop) (start : Nat)
    (settled : Settled before) (unfinished : Unfinished rounds events) :
    Unfinished ((loop, start) :: rounds) (before ++ .begins loop start :: events)

theorem Settled.foldl_update {events : List Event} (h : Settled events)
    (rounds : List (Loop × Nat)) : events.foldl Event.update rounds = rounds := by
  induction h generalizing rounds with
  | nil => rfl
  | look index _ ih => exact ih rounds
  | move index _ ih => exact ih rounds
  | @round inner events loop start stop _ _ inside after =>
    rw [List.foldl_append, List.foldl_cons, List.foldl_cons, Event.update, inside, Event.update,
      List.dropLast_concat, after]

theorem Unfinished.openRounds_eq {events : List Event} {rounds : List (Loop × Nat)}
    (h : Unfinished rounds events) : openRounds events = rounds := by
  have opened : ∀ outer, events.foldl Event.update outer = outer ++ rounds := by
    induction h with
    | none settled =>
      intro outer
      rw [settled.foldl_update, List.append_nil]
    | inside loop start settled _ ih =>
      intro outer
      rw [List.foldl_append, settled.foldl_update, List.foldl_cons, Event.update, ih,
        ← List.append_cons]
  exact opened []

theorem Unfinished.later {events more : List Event} {rounds : List (Loop × Nat)}
    (h : Unfinished rounds more) (settled : Settled events) :
    Unfinished rounds (events ++ more) := by
  cases h with
  | none settled' => exact .none (settled.append settled')
  | inside loop start settled' unfinished =>
    rw [← List.append_assoc]
    exact .inside loop start (settled.append settled') unfinished

variable {tape : Tape} {α β : Type}

/-- The lexemes from the head to the first end of the input. -/
inductive Stands (tape : Tape) : Nat → List Lexeme → Prop
  | last {t : Token} (found : tape.tokens[tape.stop]? = some t) (kind : t.kind = .endOfInput) :
    Stands tape tape.stop []
  | next {head : Nat} {t : Token} {ts : List Lexeme} (found : tape.tokens[head]? = some t)
    (kind : t.kind ≠ .endOfInput) (rest : Stands tape (head + 1) ts) :
    Stands tape head ((t, tape.first + head) :: ts)

namespace Stands

variable {head : Nat} {ts : List Lexeme}

theorem add_length (h : tape.Stands head ts) : head + ts.length = tape.stop := by
  induction h with
  | last => rfl
  | next _ _ _ ih =>
    rw [← ih, List.length_cons]
    omega

theorem le_stop (h : tape.Stands head ts) : head ≤ tape.stop := h.add_length ▸ Nat.le_add_right ..

theorem drop (h : tape.Stands head ts) {n : Nat} (within : n ≤ ts.length) :
    tape.Stands (head + n) (ts.drop n) := by
  induction n generalizing head ts with
  | zero => exact h
  | succ n ih =>
    cases h with
    | last => cases within
    | next _ _ rest =>
      have later := ih rest (Nat.le_of_succ_le_succ within)
      rwa [Nat.add_right_comm] at later

/-- The token under the head is the first lexeme, or the end of the input. -/
theorem exists_token (h : tape.Stands head ts) :
    ∃ t, tape.tokens[head]? = some t ∧
      ((ts = [] ∧ t.kind = .endOfInput) ∨ ∃ number rest, ts = (t, number) :: rest) := by
  cases h with
  | last found kind => exact ⟨_, found, .inl ⟨rfl, kind⟩⟩
  | next found kind rest => exact ⟨_, found, .inr ⟨_, _, rfl⟩⟩

theorem lt_length (h : tape.Stands head ts) : head < tape.tokens.length := by
  obtain ⟨t, found, -⟩ := h.exists_token
  exact (List.getElem?_eq_some_iff.mp found).1

end Stands

/-! ## Outcomes -/

/-- What a run comes to that starts with the head at `start` and has noted `events` before, where a
reader comes to `read`. -/
inductive Leads (tape : Tape) (start : Nat) (events : List Event) :
    Except Stuck (α × List Lexeme) → Option (Except Halt α × State) → Prop
  | value {v : α} {rest : List Lexeme} {head : Nat} {more : List Event} (forward : start ≤ head)
    (stands : tape.Stands head rest) (within : ∀ e ∈ more, e.Within tape) (settled : Settled more) :
    Leads tape start events (.ok (v, rest)) (some (.ok v, ⟨head, events ++ more⟩))
  | halt {rest : List Lexeme} {head : Nat} {t : Token} {more : List Event}
    {rounds : List (Loop × Nat)} (forward : start ≤ head) (stands : tape.Stands head rest)
    (found : tape.tokens[head]? = some t) (within : ∀ e ∈ more, e.Within tape)
    (unfinished : Unfinished rounds more) (reached : ∀ r ∈ rounds, r.2 ≤ head) :
    Leads tape start events (.error ⟨rest⟩)
      (some (.error (.misfit t.position), ⟨head, events ++ more⟩))

/-- The run does what a reader does that comes to `read` from `ts`. -/
def Follows (tape : Tape) (m : Run α) (ts : List Lexeme) (read : Except Stuck (α × List Lexeme)) :
    Prop :=
  ∀ head events, tape.Stands head ts → tape.Leads head events read (m.run.run ⟨head, events⟩)

theorem Leads.earlier {start head : Nat} {events more : List Event}
    {read : Except Stuck (α × List Lexeme)} {o : Option (Except Halt α × State)}
    (h : tape.Leads head (events ++ more) read o) (forward : start ≤ head)
    (within : ∀ e ∈ more, e.Within tape) (settled : Settled more) :
    tape.Leads start events read o := by
  cases h with
  | value forward' stands within' settled' =>
    rw [List.append_assoc]
    have all := List.forall_mem_append.mpr ⟨within, within'⟩
    exact .value (Nat.le_trans forward forward') stands all (settled.append settled')
  | halt forward' stands found within' unfinished reached =>
    rw [List.append_assoc]
    have all := List.forall_mem_append.mpr ⟨within, within'⟩
    exact .halt (Nat.le_trans forward forward') stands found all (unfinished.later settled) reached

theorem run_round (loop : Loop) (body : Run α) (head : Nat) (events : List Event) :
    (round loop body).run.run ⟨head, events⟩ =
      (do
        let value ← body
        note (.ends loop head (← get).head)
        return value : Run α).run.run ⟨head, events ++ [.begins loop head]⟩ := rfl

theorem run_look {index : Nat} {t : Token} (found : tape.tokens[index]? = some t) (s : State) :
    (tape.look index).run.run s = some (.ok t, ⟨s.head, s.events ++ [.look index]⟩) := by
  unfold look
  rw [found]
  rfl

theorem run_current {s : State} {t : Token} (found : tape.tokens[s.head]? = some t) :
    tape.current.run.run s = some (.ok t, ⟨s.head, s.events ++ [.look s.head]⟩) :=
  run_look found s

theorem run_advance {s : State} {t : Token} (found : tape.tokens[s.head]? = some t)
    (kind : t.kind ≠ .endOfInput) :
    tape.advance.run.run s =
      some (.ok t, ⟨s.head + 1, s.events ++ [.look s.head] ++ [.move (s.head + 1)]⟩) := by
  rw [advance, run_bind_ok (run_current found), if_pos kind]
  rfl

namespace Follows

variable {m : Run α} {f : α → Run β} {t : Lexeme} {ts rest : List Lexeme} {v : α}
  {read : Except Stuck (α × List Lexeme)}

theorem ret : tape.Follows (pure v) ts (.ok (v, ts)) := by
  intro head events stands
  have run : (pure v : Run α).run.run ⟨head, events⟩ = some (.ok v, ⟨head, events ++ []⟩) := by
    rw [List.append_nil]
    rfl
  rw [run]
  exact .value (Nat.le_refl _) stands (List.forall_mem_nil _) .nil

theorem bind {g : α × List Lexeme → Except Stuck (β × List Lexeme)} (first : tape.Follows m ts read)
    (next : ∀ v rest, read = .ok (v, rest) → tape.Follows (f v) rest (g (v, rest))) :
    tape.Follows (m >>= f) ts (read >>= g) := by
  intro head events stands
  have leads := first head events stands
  generalize run : m.run.run ⟨head, events⟩ = o at leads
  cases leads with
  | value forward stands within settled =>
    rw [run_bind_ok run]
    exact (next _ _ rfl _ _ stands).earlier forward within settled
  | halt forward stands found within unfinished reached =>
    rw [run_bind_error run]
    exact .halt forward stands found within unfinished reached

/-- A value is taken first and the outcome is that of what comes after. -/
theorem step {read : Except Stuck (β × List Lexeme)} (first : tape.Follows m ts (.ok (v, rest)))
    (next : tape.Follows (f v) rest read) : tape.Follows (m >>= f) ts read := by
  refine first.bind (g := fun _ => read) ?_
  rintro _ _ ⟨⟩
  exact next

theorem stops {stuck : Stuck} (first : tape.Follows m ts (.error stuck)) :
    tape.Follows (m >>= f) ts (.error stuck) :=
  first.bind (g := fun _ => .error stuck) nofun

theorem returns {g : α → β} (h : tape.Follows m ts read) :
    tape.Follows (do return g (← m)) ts (do
      let (v, rest) ← read
      return (g v, rest)) := by
  apply h.bind
  intro v rest _
  exact ret

theorem of_eq {read' : Except Stuck (α × List Lexeme)} (h : tape.Follows m ts read')
    (same : read = read') : tape.Follows m ts read :=
  same ▸ h

theorem assoc {γ : Type} {k : β → Run γ} {read : Except Stuck (γ × List Lexeme)}
    (h : tape.Follows (m >>= fun v => f v >>= k) ts read) :
    tape.Follows (m >>= f >>= k) ts read := by
  rwa [bind_assoc]

/-- A round that takes a lexeme at least. -/
theorem round (loop : Loop) (h : tape.Follows m ts read)
    (shorter : ∀ v rest, read = .ok (v, rest) → rest.length < ts.length) :
    tape.Follows (Tape.round loop m) ts read := by
  intro head events stands
  have leads := h head (events ++ [.begins loop head]) stands
  generalize run : m.run.run ⟨head, events ++ [.begins loop head]⟩ = o at leads
  cases leads with
  | @value v rest stop more forward stands' within settled =>
    -- fewer lexemes are before the head now, and they end where those before the round end
    have moved : head < stop := by
      have fewer := shorter v rest rfl
      have before := stands.add_length
      have after := stands'.add_length
      omega
    rw [run_round, run_bind_ok run, ← List.append_cons]
    change tape.Leads head events _
      (some (.ok v, ⟨stop, events ++ (.begins loop head :: more) ++ [.ends loop head stop]⟩))
    rw [List.append_assoc]
    refine .value forward stands' ?_ (.round loop head stop settled .nil)
    exact List.forall_mem_append.mpr
      ⟨List.forall_mem_cons.mpr ⟨trivial, within⟩, List.forall_mem_singleton.mpr moved⟩
  | @halt rest stop t more rounds forward stands' found within unfinished reached =>
    -- the round that fails is open around those that were open inside it
    rw [run_round, run_bind_error run, ← List.append_cons]
    refine .halt forward stands' found ?_ (.inside loop head .nil unfinished) ?_
    · exact List.forall_mem_cons.mpr ⟨trivial, within⟩
    · exact List.forall_mem_cons.mpr ⟨forward, reached⟩

/-- What is done may depend on where the head is. -/
theorem ofHead {f : Nat → Run α} (h : ∀ head, tape.Stands head ts → tape.Follows (f head) ts read) :
    tape.Follows (do f (← get).head) ts read :=
  fun head events stands => h head stands head events stands

/-! ### Looking -/

theorem look {index : Nat} {t : Token} (found : tape.tokens[index]? = some t) :
    tape.Follows (tape.look index) ts (.ok (t, ts)) := by
  intro head events stands
  rw [run_look found]
  have inside : index < tape.tokens.length := (List.getElem?_eq_some_iff.mp found).1
  exact .value (Nat.le_refl _) stands (List.forall_mem_singleton.mpr inside) (.look index .nil)

theorem nextIs_eq {kind : Kind} {yes no : Run α} :
    (do if ← tape.nextIs kind then yes else no) =
      (do if (← tape.current).kind = kind then yes else no) := by
  simp [nextIs]

theorem nextIs_bind {kind : Kind} {yes no : Run α} {f : α → Run β} :
    ((do if ← tape.nextIs kind then yes else no) >>= f) =
      (do if ← tape.nextIs kind then yes >>= f else no >>= f) := by
  rw [bind_assoc]
  congr 1
  funext next
  cases next <;> rfl

theorem current_nil {f : Token → Run α}
    (h : ∀ t : Token, t.kind = .endOfInput → tape.Follows (f t) [] read) :
    tape.Follows (tape.current >>= f) [] read := by
  intro head events stands
  cases stands with
  | last found kind => exact (look found).step (h _ kind) _ events (.last found kind)

theorem current_cons {f : Token → Run α}
    (h : kindOf t ≠ .endOfInput → tape.Follows (f t.1) (t :: ts) read) :
    tape.Follows (tape.current >>= f) (t :: ts) read := by
  intro head events stands
  cases stands with
  | next found kind rest => exact (look found).step (h kind) _ events (.next found kind rest)

section Branches

variable {kind : Kind} {yes no : Run α}

theorem nextIs_nil (h : tape.Follows no [] read) (other : kind ≠ .endOfInput := by decide) :
    tape.Follows (do if ← tape.nextIs kind then yes else no) [] read := by
  rw [nextIs_eq]
  refine current_nil fun t last => ?_
  rw [last, if_neg other.symm]
  exact h

theorem nextIs_end (h : tape.Follows yes [] read) :
    tape.Follows (do if ← tape.nextIs .endOfInput then yes else no) [] read := by
  rw [nextIs_eq]
  refine current_nil fun t last => ?_
  rw [if_pos last]
  exact h

theorem nextIs_yes (same : kindOf t = kind) (h : tape.Follows yes (t :: ts) read) :
    tape.Follows (do if ← tape.nextIs kind then yes else no) (t :: ts) read := by
  rw [nextIs_eq]
  refine current_cons fun _ => ?_
  rw [← kindOf, if_pos same]
  exact h

theorem nextIs_no (other : kindOf t ≠ kind) (h : tape.Follows no (t :: ts) read) :
    tape.Follows (do if ← tape.nextIs kind then yes else no) (t :: ts) read := by
  rw [nextIs_eq]
  refine current_cons fun _ => ?_
  rw [← kindOf, if_neg other]
  exact h

theorem nextIs_more (h : tape.Follows no (t :: ts) read) :
    tape.Follows (do if ← tape.nextIs .endOfInput then yes else no) (t :: ts) read := by
  rw [nextIs_eq]
  refine current_cons fun inner => ?_
  rw [← kindOf, if_neg inner]
  exact h

theorem nextIs_ite {read' : Except Stuck (α × List Lexeme)} (h : tape.Follows yes ts read)
    (h' : tape.Follows no ts read') (other : kind ≠ .endOfInput := by decide) :
    tape.Follows (do if ← tape.nextIs kind then yes else no) ts
      (if Parse.nextIs kind ts then read else read') := by
  cases ts with
  | nil => exact nextIs_nil h' other
  | cons t ts =>
    by_cases same : kindOf t = kind
    · rw [if_pos (show Parse.nextIs kind (t :: ts) = true from decide_eq_true same)]
      exact nextIs_yes same h
    · rw [if_neg (show ¬ Parse.nextIs kind (t :: ts) = true by simpa [Parse.nextIs] using same)]
      exact nextIs_no same h'

/-- A look ahead, but not past the end of the input. -/
theorem kindAhead {n : Nat} (within : n ≤ ts.length) :
    tape.Follows (tape.kindAhead n) ts
      (.ok (((ts.drop n).head?.map kindOf).getD .endOfInput, ts)) := by
  intro head events stands
  have later := stands.drop within
  have inside := later.lt_length
  have index : min (head + n) (tape.tokens.length - 1) = head + n := by omega
  obtain ⟨t, found, kind⟩ := later.exists_token
  have run : (tape.kindAhead n).run.run ⟨head, events⟩ =
      some (.ok t.kind, ⟨head, events ++ [.look (head + n)]⟩) := by
    change (tape.look (min (head + n) (tape.tokens.length - 1)) >>= fun t => pure t.kind).run.run
      ⟨head, events⟩ = _
    rw [index]
    exact run_bind_ok (run_look found _)
  have same : ((ts.drop n).head?.map kindOf).getD .endOfInput = t.kind := by
    rcases kind with ⟨nothing, kind⟩ | ⟨number, rest, split⟩
    · rw [nothing]
      exact kind.symm
    · rw [split]
      rfl
  rw [run, same]
  exact .value (Nat.le_refl _) stands (List.forall_mem_singleton.mpr inside) (.look (head + n) .nil)

theorem ahead {n : Nat} (within : n ≤ ts.length)
    (here : Parse.nextIs kind (ts.drop n) = true → tape.Follows yes ts read)
    (there : Parse.nextIs kind (ts.drop n) = false → tape.Follows no ts read)
    (other : kind ≠ .endOfInput := by decide) :
    tape.Follows (do if (← tape.kindAhead n) = kind then yes else no) ts read := by
  refine (kindAhead within).step ?_
  cases left : ts.drop n with
  | nil =>
    rw [left] at there
    change tape.Follows (if Kind.endOfInput = kind then yes else no) ts read
    rw [if_neg other.symm]
    exact there rfl
  | cons u rest =>
    rw [left] at here there
    change tape.Follows (if kindOf u = kind then yes else no) ts read
    by_cases same : kindOf u = kind
    · rw [if_pos same]
      exact here (decide_eq_true same)
    · rw [if_neg same]
      exact there (decide_eq_false same)

end Branches

theorem advance : tape.Follows tape.advance (t :: ts) (.ok (t.1, ts)) := by
  intro head events stands
  cases stands with
  | @next _ t _ found kind rest =>
    rw [@run_advance tape ⟨head, events⟩ t found kind, List.append_assoc]
    refine .value (Nat.le_succ head) rest ?_ (.look head (.move (head + 1) .nil))
    exact List.forall_mem_cons.mpr
      ⟨Stands.lt_length (.next found kind rest), List.forall_mem_singleton.mpr rest.le_stop⟩

theorem misfit : tape.Follows tape.misfit ts (.error ⟨ts⟩ : Except Stuck (α × List Lexeme)) := by
  intro head events stands
  obtain ⟨t, found, -⟩ := stands.exists_token
  have run : (tape.misfit : Run α).run.run ⟨head, events⟩ =
      some (.error (.misfit t.position), ⟨head, events ++ [.look head]⟩) := by
    rw [Tape.misfit, run_bind_ok (run_current found)]
    rfl
  rw [run]
  refine .halt (Nat.le_refl _) stands found ?_ (.none (.look head .nil)) (List.forall_mem_nil _)
  exact List.forall_mem_singleton.mpr stands.lt_length

theorem expect_nil {kind : Kind} (other : kind ≠ .endOfInput := by decide) :
    tape.Follows (tape.expect kind) [] (.error ⟨[]⟩) :=
  nextIs_nil misfit other

theorem expect_yes {kind : Kind} (same : kindOf t = kind) :
    tape.Follows (tape.expect kind) (t :: ts) (.ok (t.1, ts)) :=
  nextIs_yes same advance

theorem expect_no {kind : Kind} (other : kindOf t ≠ kind) :
    tape.Follows (tape.expect kind) (t :: ts) (.error ⟨t :: ts⟩) :=
  nextIs_no other misfit

theorem expect {kind : Kind} {f : Token → Run α}
    {g : Lexeme × List Lexeme → Except Stuck (α × List Lexeme)}
    (next : ∀ t rest, ts = t :: rest → kindOf t = kind → tape.Follows (f t.1) rest (g (t, rest)))
    (other : kind ≠ .endOfInput := by decide) :
    tape.Follows (tape.expect kind >>= f) ts (forget (Parse.expect kind ts) >>= g) := by
  cases ts with
  | nil => exact (expect_nil other).stops
  | cons t rest =>
    rw [Parse.forget_expect_cons]
    split
    · next same => exact (expect_yes same).step (next t rest rfl same)
    · next differs => exact (expect_no differs).stops

/-- A token that is expected before a value is given. -/
theorem closes {kind : Kind} (other : kind ≠ .endOfInput := by decide) :
    tape.Follows (do
      let _ ← tape.expect kind
      return v) ts (do
      let (_, rest) ← forget (Parse.expect kind ts)
      return (v, rest)) := by
  refine .expect ?_ other
  intro _ rest _ _
  exact .ret

/-- One more item before a list that is closed. -/
theorem collect {kind : Kind} {item : α} {items : Run (List α)}
    {read : Except Stuck (List α × List Lexeme)}
    (h : tape.Follows (do
      let more ← items
      let _ ← tape.expect kind
      return more) ts read) :
    tape.Follows (do
      let all ← (do return item :: (← items))
      let _ ← tape.expect kind
      return all) ts (do
      let (more, rest) ← read
      return (item :: more, rest)) := by
  have collected := h.returns (g := (item :: ·))
  simpa only [bind_assoc, pure_bind] using collected

end Follows

end Cinder.Tape
