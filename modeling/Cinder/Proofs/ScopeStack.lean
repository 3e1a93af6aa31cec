import Cinder.Proofs.Table
import Cinder.Scopes

/-!
# Scopes are a stack

The operations on scopes one by one, as they are done to a stack in place, and what each of them
answers. An operation that ends in a fault has not changed anything. Main result: whatever was done
to a new stack, each frame has each of its names once and in the order in which they came in, every
operation answers as its rule says, and between an `enter` and the `leave` that belongs to it
nothing happens to the frames that were there before.
-/
namespace Cinder.Scopes

/-! ## Operations in place -/

/-- What is done to scopes in place. A fault keeps all that was done before it. -/
abbrev InPlace := EStateM Fault Scopes

namespace InPlace

/-- The innermost frame. -/
def top : InPlace Frame := do
  match (← get).frames with
  | [] => throw .noScope
  | frame :: _ => return frame

def push (frame : Frame) : InPlace Unit := modify fun s => ⟨frame :: s.frames⟩

def pop : InPlace Unit := modify fun s => ⟨s.frames.tail⟩

/-- Puts a frame with a new name in the place of the innermost one. -/
def amendTop (frame : Frame) (name : Text) (symbol : Symbol) : InPlace Unit :=
  if frame.contains name then throw (.duplicate name)
  else do
    pop
    push (frame.insert name symbol)

def declare (name : Text) (symbol? : Option Symbol) : InPlace Unit :=
  match symbol? with
  | none => throw .incompleteDeclaration
  | some symbol =>
    if name = [] then throw .incompleteDeclaration
    else do amendTop (← top) name symbol

end InPlace

inductive Call where
  | enter
  | leave
  | declare (name : Text) (symbol? : Option Symbol)
  | findLocal (name : Text)
  | find (name : Text)
  | localNames

inductive Answer where
  | done
  | symbol (symbol? : Option Symbol)
  | names (names : List Text)

open InPlace in
def Call.run : Call → InPlace Answer
  | enter => do
    push .empty
    return .done
  | leave => do
    let _ ← top
    pop
    return .done
  | declare name symbol? => do
    InPlace.declare name symbol?
    return .done
  | findLocal name => do
    return .symbol ((← top).find? name)
  | find name => do
    let _ ← top
    return .symbol ((← get).frames.findSome? (·.find? name))
  | localNames => do
    return .names (← top).keys

/-- The answer to a call and the scopes after it. -/
def answer (s : Scopes) : Call → Except Fault (Answer × Scopes)
  | .enter => .ok (.done, s.enter)
  | .leave => s.leave.map (.done, ·)
  | .declare name symbol? => (s.declare name symbol?).map (.done, ·)
  | .findLocal name => (s.findLocal name).map (.symbol ·, s)
  | .find name => (s.find name).map (.symbol ·, s)
  | .localNames => s.localNames.map (.names ·, s)

/-- The scopes after a call, whether it was answered or ended in a fault. -/
def afterCall (s : Scopes) (call : Call) : Scopes :=
  match call.run s with
  | .ok _ t => t
  | .error _ t => t

/-- The scopes after some calls. -/
def after (s : Scopes) (calls : List Call) : Scopes := calls.foldl afterCall s

namespace Call

def isEnter : Call → Bool
  | enter => true
  | _ => false

def isLeave : Call → Bool
  | leave => true
  | _ => false

end Call

/-- As many frames are left as are entered, and never more up to any point. -/
def Paired (calls : List Call) : Prop :=
  calls.countP Call.isLeave = calls.countP Call.isEnter ∧
    ∀ part, part <+: calls → part.countP Call.isLeave ≤ part.countP Call.isEnter

/-! ## The rules -/

/-- A declaration has a name and a symbol. -/
def Call.IsComplete : Call → Prop
  | declare name symbol? => name ≠ [] ∧ symbol? ≠ none
  | _ => True

/-- How scopes respond to a call. -/
inductive Responds (s : Scopes) : Call → EStateM.Result Fault Scopes Answer → Prop where
  | enter : Responds s .enter (.ok .done ⟨.empty :: s.frames⟩)
  | leave {top : Frame} {rest : List Frame} (frames : s.frames = top :: rest) :
      Responds s .leave (.ok .done ⟨rest⟩)
  /-- A new name goes behind the others. -/
  | declare {name : Text} {symbol : Symbol} {top : Frame} {rest : List Frame} (named : name ≠ [])
      (frames : s.frames = top :: rest) (free : name ∉ top.keys) :
      Responds s (.declare name (some symbol))
        (.ok .done ⟨⟨top.entries ++ [(name, symbol)]⟩ :: rest⟩)
  | foundLocal {name : Text} {symbol : Symbol} {top : Frame} {rest : List Frame}
      (frames : s.frames = top :: rest) (found : (name, symbol) ∈ top.entries) :
      Responds s (.findLocal name) (.ok (.symbol (some symbol)) s)
  | notLocal {name : Text} {top : Frame} {rest : List Frame} (frames : s.frames = top :: rest)
      (absent : name ∉ top.keys) : Responds s (.findLocal name) (.ok (.symbol none) s)
  /-- The frame that was pushed last of those that have the name. -/
  | found {name : Text} {symbol : Symbol} {inner outer : List Frame} {frame : Frame}
      (frames : s.frames = inner ++ frame :: outer) (hidden : ∀ f ∈ inner, name ∉ f.keys)
      (found : (name, symbol) ∈ frame.entries) :
      Responds s (.find name) (.ok (.symbol (some symbol)) s)
  | notFound {name : Text} (inside : s.frames ≠ []) (absent : ∀ f ∈ s.frames, name ∉ f.keys) :
      Responds s (.find name) (.ok (.symbol none) s)
  | localNames {top : Frame} {rest : List Frame} (frames : s.frames = top :: rest) :
      Responds s .localNames (.ok (.names top.keys) s)
  | incomplete {name : Text} {symbol? : Option Symbol} (missing : name = [] ∨ symbol? = none) :
      Responds s (.declare name symbol?) (.error .incompleteDeclaration s)
  | duplicate {name : Text} {symbol : Symbol} {top : Frame} {rest : List Frame} (named : name ≠ [])
      (frames : s.frames = top :: rest) (taken : name ∈ top.keys) :
      Responds s (.declare name (some symbol)) (.error (.duplicate name) s)
  | noScope {call : Call} (complete : call.IsComplete) (needed : call ≠ .enter)
      (empty : s.frames = []) : Responds s call (.error .noScope s)

/-! ## What the operations do -/

/-- An operation in place gives the answer of the operation, and a fault leaves the scopes alone. -/
theorem run_eq_answer (s : Scopes) (call : Call) :
    call.run s = match s.answer call with
      | .ok (a, t) => .ok a t
      | .error fault => .error fault s := by
  obtain ⟨frames⟩ := s
  cases call with
  | enter => rfl
  | declare name symbol? =>
    cases symbol? with
    | none => rfl
    | some symbol =>
      by_cases named : name = []
      · subst named
        rfl
      · cases frames with
        | nil =>
          simp only [Call.run, InPlace.declare, answer, declare, named, if_false]
          rfl
        | cons top rest =>
          simp only [Call.run, InPlace.declare, answer, declare, named, if_false]
          -- the name is looked for before the frame is taken away
          change (InPlace.amendTop top name symbol >>= fun _ => pure Answer.done) ⟨top :: rest⟩ = _
          cases taken : top.contains name with
          | true =>
            simp only [InPlace.amendTop, taken, if_true]
            rfl
          | false =>
            simp only [InPlace.amendTop, taken, Bool.false_eq_true, if_false]
            rfl
  | _ => cases frames <;> rfl

variable {s : Scopes} {call : Call} {result : EStateM.Result Fault Scopes Answer}

theorem contains_eq_true {frame : Frame} {name : Text} :
    frame.contains name = true ↔ name ∈ frame.keys := by
  rw [← not_iff_not, Bool.not_eq_true, Table.contains_eq_false]

/-- Every call is answered by one of the rules. -/
theorem responds_run (s : Scopes) (call : Call) : s.Responds call (call.run s) := by
  rw [run_eq_answer]
  obtain ⟨frames⟩ := s
  cases call with
  | enter => exact .enter
  | leave =>
    cases frames with
    | nil => exact .noScope trivial (by simp) rfl
    | cons top rest => exact .leave rfl
  | declare name symbol? =>
    cases symbol? with
    | none => exact .incomplete (.inr rfl)
    | some symbol =>
      by_cases named : name = []
      · simp only [answer, declare, named, if_true]
        exact .incomplete (.inl rfl)
      · cases frames with
        | nil =>
          simp only [answer, declare, named, if_false]
          exact .noScope ⟨named, by simp⟩ (by simp) rfl
        | cons top rest =>
          cases taken : top.contains name with
          | true =>
            simp only [answer, declare, named, if_false, taken, if_true]
            exact .duplicate named rfl (contains_eq_true.mp taken)
          | false =>
            have free := Table.contains_eq_false.mp taken
            simp only [answer, declare, named, if_false, taken, Bool.false_eq_true, Table.insert,
              Table.put_of_not_mem free]
            exact .declare named rfl free
  | findLocal name =>
    cases frames with
    | nil => exact .noScope trivial (by simp) rfl
    | cons top rest =>
      cases found : top.find? name with
      | none =>
        simp only [answer, findLocal, found]
        exact .notLocal rfl (Table.lookup_eq_none.mp found)
      | some symbol =>
        simp only [answer, findLocal, found]
        exact .foundLocal rfl (Table.mem_of_find? found)
  | find name =>
    cases frames with
    | nil => exact .noScope trivial (by simp) rfl
    | cons top rest =>
      cases found : (top :: rest).findSome? (·.find? name) with
      | none =>
        simp only [answer, find, found]
        refine .notFound (List.cons_ne_nil _ _) fun f mem => ?_
        exact Table.lookup_eq_none.mp (List.findSome?_eq_none_iff.mp found f mem)
      | some symbol =>
        simp only [answer, find, found]
        obtain ⟨inner, frame, outer, frames, here, hidden⟩ := List.findSome?_eq_some_iff.mp found
        refine .found frames (fun f mem => ?_) (Table.mem_of_find? here)
        exact Table.lookup_eq_none.mp (hidden f mem)
  | localNames =>
    cases frames with
    | nil => exact .noScope trivial (by simp) rfl
    | cons top rest => exact .localNames rfl

/-- Each frame has each of its names once. -/
def Distinct (s : Scopes) : Prop := ∀ frame ∈ s.frames, frame.keys.Nodup

theorem find_of_ne_nil {frames : List Frame} (inside : frames ≠ []) (name : Text) :
    (⟨frames⟩ : Scopes).find name = .ok (frames.findSome? (·.find? name)) := by
  cases frames with
  | nil => exact absurd rfl inside
  | cons top rest => rfl

/-- The rules leave no choice. -/
theorem run_of_responds (distinct : s.Distinct) (responds : s.Responds call result) :
    call.run s = result := by
  rw [run_eq_answer]
  obtain ⟨frames⟩ := s
  cases responds with
  | enter => rfl
  | leave frames | localNames frames =>
    subst frames
    rfl
  | @declare name symbol top rest named frames free =>
    subst frames
    simp [answer, declare, named, Table.contains_eq_false.mpr free, Table.insert,
      Table.put_of_not_mem free, Except.map]
  | foundLocal frames found =>
    subst frames
    have here := Table.find?_of_mem (distinct _ List.mem_cons_self) found
    simp [answer, findLocal, here, Except.map]
  | notLocal frames absent =>
    subst frames
    have here := Table.lookup_eq_none.mpr absent
    simp [answer, findLocal, Table.find?, here, Except.map]
  | @found name symbol inner outer frame frames hidden found =>
    subst frames
    have here := Table.find?_of_mem (distinct frame (by simp)) found
    have first : (inner ++ frame :: outer).findSome? (·.find? name) = some symbol :=
      List.findSome?_eq_some_iff.mpr
        ⟨inner, frame, outer, rfl, here, fun f mem => Table.lookup_eq_none.mpr (hidden f mem)⟩
    rw [answer, find_of_ne_nil (by simp), first]
    rfl
  | notFound inside absent =>
    have never := List.findSome?_eq_none_iff.mpr fun f mem =>
      Table.lookup_eq_none.mpr (absent f mem)
    rw [answer, find_of_ne_nil inside]
    exact congrArg (fun symbol? => EStateM.Result.ok (Answer.symbol symbol?) _) never
  | @incomplete name symbol? missing =>
    rcases missing with rfl | rfl
    · cases symbol? <;> rfl
    · rfl
  | @duplicate name symbol top rest named frames taken =>
    subst frames
    simp [answer, declare, named, contains_eq_true.mpr taken, Except.map]
  | noScope complete needed empty =>
    subst empty
    cases call with
    | enter => exact absurd rfl needed
    | declare name symbol? =>
      obtain ⟨named, given⟩ := complete
      obtain ⟨symbol, rfl⟩ := Option.ne_none_iff_exists'.mp given
      simp [answer, declare, named, Except.map]
    | _ => rfl

/-! ## Runs -/

/-- A call leaves the scopes alone, or it is one of the three that change them. -/
theorem afterCall_cases (s : Scopes) (call : Call) :
    (s.afterCall call = s ∧ call ≠ .enter ∧ (call = .leave → s.frames = [])) ∨
      (call = .enter ∧ s.afterCall call = ⟨.empty :: s.frames⟩) ∨
      (call = .leave ∧ ∃ top rest, s.frames = top :: rest ∧ s.afterCall call = ⟨rest⟩) ∨
      ∃ name symbol top rest, call = .declare name (some symbol) ∧ s.frames = top :: rest ∧
        name ∉ top.keys ∧ s.afterCall call = ⟨⟨top.entries ++ [(name, symbol)]⟩ :: rest⟩ := by
  have responds := responds_run s call
  rw [afterCall]
  generalize call.run s = result at responds
  cases responds with
  | enter => exact .inr (.inl ⟨rfl, rfl⟩)
  | leave frames => exact .inr (.inr (.inl ⟨rfl, _, _, frames, rfl⟩))
  | declare named frames free => exact .inr (.inr (.inr ⟨_, _, _, _, rfl, frames, free, rfl⟩))
  | noScope complete needed empty => exact .inl ⟨rfl, needed, fun _ => empty⟩
  | _ => exact .inl ⟨rfl, nofun, nofun⟩

theorem distinct_afterCall (distinct : s.Distinct) (call : Call) : (s.afterCall call).Distinct := by
  rcases afterCall_cases s call with ⟨same, -, -⟩ | ⟨-, same⟩ | ⟨-, top, rest, frames, same⟩ |
    ⟨name, symbol, top, rest, -, frames, free, same⟩
  · rwa [same]
  · rw [same]
    exact List.forall_mem_cons.mpr ⟨List.nodup_nil, distinct⟩
  · rw [same]
    rw [Distinct, frames] at distinct
    exact (List.forall_mem_cons.mp distinct).2
  · rw [same]
    rw [Distinct, frames] at distinct
    obtain ⟨here, others⟩ := List.forall_mem_cons.mp distinct
    refine List.forall_mem_cons.mpr ⟨?_, others⟩
    rw [Table.keys, List.map_append]
    exact List.nodup_append.mpr ⟨here, List.nodup_singleton name, by
      rintro k mem _ mem' rfl
      obtain rfl := List.mem_singleton.mp mem'
      exact free mem⟩

theorem distinct_after (distinct : s.Distinct) (calls : List Call) : (s.after calls).Distinct := by
  induction calls generalizing s with
  | nil => exact distinct
  | cons call calls ih => exact ih (distinct_afterCall distinct call)

/-- A call above a frame keeps the frames below it, and what the frame has stays in its place. -/
theorem afterCall_above {pushed rest : List Frame} {top : Frame} {call : Call}
    (enough : call = .leave → pushed ≠ []) :
    ∃ pushed' top', (⟨pushed ++ top :: rest⟩ : Scopes).afterCall call = ⟨pushed' ++ top' :: rest⟩ ∧
      top.entries <+: top'.entries ∧
      pushed'.length + [call].countP Call.isLeave = pushed.length + [call].countP Call.isEnter := by
  rcases afterCall_cases ⟨pushed ++ top :: rest⟩ call with ⟨same, other, empty⟩ | ⟨rfl, same⟩ |
    ⟨rfl, frame, below, frames, same⟩ | ⟨name, symbol, frame, below, rfl, frames, -, same⟩
  · refine ⟨pushed, top, same, List.prefix_rfl, ?_⟩
    cases call with
    | enter => exact absurd rfl other
    | leave => simpa using empty rfl
    | _ => rfl
  · exact ⟨.empty :: pushed, top, same, List.prefix_rfl, rfl⟩
  · cases pushed with
    | nil => exact absurd rfl (enough rfl)
    | cons _ pushed =>
      obtain ⟨-, rfl⟩ := List.cons.inj frames
      exact ⟨pushed, top, same, List.prefix_rfl, rfl⟩
  · cases pushed with
    | nil =>
      obtain ⟨rfl, rfl⟩ := List.cons.inj frames
      exact ⟨[], _, same, List.prefix_append _ _, rfl⟩
    | cons _ pushed =>
      obtain ⟨-, rfl⟩ := List.cons.inj frames
      exact ⟨_ :: pushed, top, same, List.prefix_rfl, rfl⟩

/-- Calls that leave no more frames than were pushed keep the frames below, and what the frame that
they began in has stays in its place. -/
theorem after_above {pushed rest : List Frame} {top : Frame} {calls : List Call}
    (enough : ∀ part, part <+: calls →
      part.countP Call.isLeave ≤ pushed.length + part.countP Call.isEnter) :
    ∃ pushed' top', (⟨pushed ++ top :: rest⟩ : Scopes).after calls = ⟨pushed' ++ top' :: rest⟩ ∧
      top.entries <+: top'.entries ∧
      pushed'.length + calls.countP Call.isLeave = pushed.length + calls.countP Call.isEnter := by
  induction calls generalizing pushed top with
  | nil => exact ⟨pushed, top, rfl, List.prefix_rfl, rfl⟩
  | cons call calls ih =>
    have split : ∀ (p : Call → Bool) (part : List Call),
        (call :: part).countP p = [call].countP p + part.countP p := by
      intro p part
      rw [← List.countP_append, List.singleton_append]
    have first : call = .leave → pushed ≠ [] := by
      rintro rfl rfl
      simpa [Call.isLeave, Call.isEnter] using enough [.leave] ⟨calls, rfl⟩
    obtain ⟨pushed', top', same, kept, length⟩ := @afterCall_above pushed rest top call first
    have enough' : ∀ part, part <+: calls →
        part.countP Call.isLeave ≤ pushed'.length + part.countP Call.isEnter := by
      intro part begins
      have bound := enough (call :: part) (List.cons_prefix_cons.mpr ⟨rfl, begins⟩)
      rw [split _ part, split _ part] at bound
      omega
    obtain ⟨pushed'', top'', same', kept', length'⟩ := @ih pushed' top' enough'
    refine ⟨pushed'', top'', ?_, kept.trans kept', ?_⟩
    · rw [after, List.foldl_cons, same]
      exact same'
    · rw [split _ calls, split _ calls]
      omega

/-- A frame that is not left keeps what it has, with what is new behind. -/
theorem after_frame {s : Scopes} {top : Frame} {rest : List Frame} {calls : List Call}
    (frames : s.frames = top :: rest)
    (enough : ∀ part, part <+: calls → part.countP Call.isLeave ≤ part.countP Call.isEnter) :
    ∃ pushed top', (s.after calls).frames = pushed ++ top' :: rest ∧
      top.entries <+: top'.entries ∧
      pushed.length + calls.countP Call.isLeave = calls.countP Call.isEnter := by
  obtain ⟨_⟩ := s
  subst frames
  obtain ⟨pushed, top', same, kept, length⟩ :=
    @after_above [] rest top calls (by simpa using enough)
  refine ⟨pushed, top', congrArg Scopes.frames same, kept, ?_⟩
  rwa [List.length_nil, Nat.zero_add] at length

/-- What is done between an `enter` and the `leave` that belongs to it is gone. -/
theorem after_segment {calls : List Call} (paired : Paired calls) (s : Scopes) :
    s.after (.enter :: calls ++ [.leave]) = s := by
  obtain ⟨pushed, top, frames, -, length⟩ := @after_frame s.enter .empty s.frames calls rfl paired.2
  have alone : pushed = [] := List.length_eq_zero_iff.mp (by have := paired.1; omega)
  rw [alone, List.nil_append] at frames
  have left : (s.enter.after calls).afterCall .leave = s := by
    rw [show s.enter.after calls = ⟨top :: s.frames⟩ from congrArg Scopes.mk frames]
    rfl
  rw [after, List.cons_append, List.foldl_cons, List.foldl_append]
  exact left

/-- After any calls to new scopes, each frame has each name once. A call is then answered by the
rule that fits, which is the answer of the operation itself, and a fault leaves the scopes as they
were. As long as the innermost frame is not left, it keeps its entries, and new ones come behind
them. Calls from an `enter` to the `leave` that belongs to it end where they began. -/
theorem stack_is_faithful (calls : List Call) :
    let s := initial.after calls
    (∀ frame ∈ s.frames, frame.keys.Nodup) ∧
      (∀ (call : Call) result, call.run s = result ↔ s.Responds call result) ∧
      (∀ (call : Call) fault t, call.run s = .error fault t → t = s) ∧
      (∀ call : Call, call.run s = match s.answer call with
        | .ok (a, t) => .ok a t
        | .error fault => .error fault s) ∧
      (∀ more top rest, s.frames = top :: rest →
        (∀ part, part <+: more → part.countP Call.isLeave ≤ part.countP Call.isEnter) →
        ∃ pushed top', (initial.after (calls ++ more)).frames = pushed ++ top' :: rest ∧
          top.entries <+: top'.entries) ∧
      ∀ inner, Paired inner → initial.after (calls ++ .enter :: inner ++ [.leave]) = s := by
  intro s
  have new : initial.Distinct := List.forall_mem_singleton.mpr List.nodup_nil
  have distinct : s.Distinct := distinct_after new calls
  have further : ∀ more, initial.after (calls ++ more) = s.after more :=
    fun more => List.foldl_append
  refine ⟨distinct, ?_, ?_, run_eq_answer s, ?_, ?_⟩
  · intro call result
    refine ⟨?_, run_of_responds distinct⟩
    rintro rfl
    exact responds_run s call
  · intro call fault t failed
    have responds := responds_run s call
    rw [failed] at responds
    cases responds <;> rfl
  · intro more top rest frames enough
    obtain ⟨pushed, top', same, kept, -⟩ := after_frame frames enough
    exact ⟨pushed, top', by rw [further, same], kept⟩
  · intro inner paired
    rw [List.append_assoc, further]
    exact after_segment paired s

/-- A name is declared, declared again, and declared once more in a frame of its own; then the
outermost scope is left too, and nothing can be looked up any more. -/
theorem stack_is_faithful_emptied :
    let x : Call := .declare [120] (some (.plain [120] .int))
    let shadow : Call := .declare [120] (some (.plain [120] .bool))
    let calls := [x, shadow, .leave, x]
    Paired [shadow, .find [120]] ∧
      initial.after [x, shadow, .enter, shadow, .find [120], .leave] = initial.after [x, shadow] ∧
      (Call.find [120]).run (initial.after [x, shadow])
        = .ok (.symbol (some (.plain [120] .int))) (initial.after [x, shadow]) ∧
      (Call.find [120]).run (initial.after calls) = .error .noScope (initial.after calls) := by
  intro x shadow calls
  have paired : Paired [shadow, .find [120]] := by
    refine ⟨rfl, fun part begins => ?_⟩
    have none : part.countP Call.isLeave ≤ 0 := begins.sublist.countP_le
    exact Nat.le_trans none (Nat.zero_le _)
  refine ⟨paired, (stack_is_faithful [x, shadow]).2.2.2.2.2 _ paired, ?_, ?_⟩
  · refine ((stack_is_faithful [x, shadow]).2.1 _ _).mpr ?_
    exact @Responds.found _ _ _ [] _ _ rfl nofun List.mem_cons_self
  · exact ((stack_is_faithful calls).2.1 _ _).mpr (.noScope trivial nofun rfl)

end Cinder.Scopes
