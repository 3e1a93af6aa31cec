import Cinder.Editor.Session
import Cinder.Proofs.Cursor
import Cinder.Proofs.Table

/-!
# Sessions follow their documents

The text of a document after some events is told by the events about that document alone. Whatever
keeps the documents, as long as it gives notice of each new text and of each closing, a session
holds the analysis of just these texts, after any events in any order, and so all it answers and
publishes about a document follows from the document's own events.
-/
namespace Cinder.Editor

/-! ## Keepers -/

namespace Keeper

/-- The documents stay as they were, but that one has this text, or is not open. -/
def Sets (keeper : Keeper) (s s' : keeper.State) (uri : Text) (text : Option Text) : Prop :=
  ∀ other, keeper.text? s' other = if other = uri then text else keeper.text? s other

/-- What is assumed of a keeper of documents. -/
structure Faithful (keeper : Keeper) : Prop where
  initial : ∀ uri, keeper.text? keeper.initial uri = none
  /-- There is notice of an opening once, with the whole text. -/
  opened : ∀ s uri text, ∃ s', keeper.receive s uri (.opened text) = .ok ([.content text], s') ∧
    keeper.Sets s s' uri (some text)
  /-- There is notice of a change of an open document once, with the last of its new texts. -/
  changed : ∀ s uri version texts text, (keeper.text? s uri).isSome → texts.getLast? = some text →
    ∃ s', keeper.receive s uri (.changed (some version) texts) = .ok ([.content text], s') ∧
      keeper.Sets s s' uri (some text)
  closed : ∀ s uri, (keeper.text? s uri).isSome →
    ∃ s', keeper.receive s uri .closed = .ok ([.closed], s') ∧ keeper.Sets s s' uri none
  /-- A change of a document that is not open is ignored, and so is its closing. -/
  changed_unknown : ∀ s uri version texts, keeper.text? s uri = none → texts ≠ [] →
    ∃ s', keeper.receive s uri (.changed (some version) texts) = .ok ([], s') ∧
      keeper.Sets s s' uri none
  closed_unknown : ∀ s uri, keeper.text? s uri = none →
    ∃ s', keeper.receive s uri .closed = .ok ([], s') ∧ keeper.Sets s s' uri none
  /-- A change without a new text is ignored, and one without a version is refused. -/
  changed_nothing : ∀ s uri version, ∃ s', keeper.receive s uri (.changed version []) = .ok ([], s') ∧
    keeper.Sets s s' uri (keeper.text? s uri)
  unversioned : ∀ s uri texts, texts ≠ [] →
    keeper.receive s uri (.changed none texts) = .error ⟨uri⟩

theorem sets_self (keeper : Keeper) (s : keeper.State) (uri : Text) :
    keeper.Sets s s uri (keeper.text? s uri) := by
  intro other
  by_cases same : other = uri <;> simp [same]

theorem sets_insert (documents : Table Text Text) (uri text : Text) :
    table.Sets documents (documents.insert uri text) uri (some text) :=
  fun _ => Table.find?_insert ..

theorem sets_erase (documents : Table Text Text) (uri : Text) :
    table.Sets documents (documents.erase uri) uri none :=
  fun _ => Table.find?_erase ..

theorem table_faithful : table.Faithful where
  initial _ := rfl
  opened documents uri text := ⟨_, rfl, sets_insert documents uri text⟩
  changed documents uri version texts text isOpen last := by
    refine ⟨_, ?_, sets_insert documents uri text⟩
    simp only [table, last]
    exact if_pos isOpen
  closed documents uri isOpen := ⟨_, if_pos isOpen, sets_erase documents uri⟩
  changed_unknown (documents : Table Text Text) uri version texts unknown some := by
    refine ⟨documents, ?_, unknown ▸ sets_self table documents uri⟩
    have absent : documents.contains uri = false := by
      rw [Table.contains, show documents.find? uri = none from unknown, Option.isSome_none]
    obtain ⟨text, last⟩ := Option.ne_none_iff_exists'.mp (mt List.getLast?_eq_none_iff.mp some)
    simp [table, last, absent]
  closed_unknown (documents : Table Text Text) uri unknown := by
    refine ⟨documents, if_neg ?_, unknown ▸ sets_self table documents uri⟩
    rw [Table.contains, show documents.find? uri = none from unknown, Option.isSome_none]
    exact Bool.false_ne_true
  changed_nothing documents uri version := ⟨documents, rfl, sets_self table documents uri⟩
  unversioned documents uri texts some := by
    obtain ⟨text, last⟩ := Option.ne_none_iff_exists'.mp (mt List.getLast?_eq_none_iff.mp some)
    simp only [table, last]

end Keeper

/-! ## Texts -/

namespace Event

/-- The document that an event is about. -/
def uri? : Event → Option Text
  | greet | ready => none
  | opened uri _ | changed uri _ _ | closed uri | hover uri _ _ => some uri

/-- What an event about a document makes of its text. There is a text as long as the document is
open. -/
def edit : Event → Option Text → Option Text
  | opened _ text, _ => some text
  | changed _ (some _) texts, some old => some (texts.getLast?.getD old)
  | closed _, _ => none
  | _, text => text

end Event

/-- The events about a document. -/
def about (uri : Text) (events : List Event) : List Event :=
  events.filter fun e => e.uri? = some uri

/-- The text of a document after some events, if it is open. -/
def current (uri : Text) (events : List Event) : Option Text :=
  (about uri events).foldl (fun text e => e.edit text) none

variable {uri : Text} {events : List Event} {e : Event}

theorem about_append_own (own : e.uri? = some uri) (events : List Event) :
    about uri (events ++ [e]) = about uri events ++ [e] := by
  simp [about, own]

theorem about_append_other (other : e.uri? ≠ some uri) (events : List Event) :
    about uri (events ++ [e]) = about uri events := by
  simp [about, other]

theorem current_append_own (own : e.uri? = some uri) (events : List Event) :
    current uri (events ++ [e]) = e.edit (current uri events) := by
  rw [current, about_append_own own, List.foldl_append]
  rfl

theorem current_append_other (other : e.uri? ≠ some uri) (events : List Event) :
    current uri (events ++ [e]) = current uri events := by
  rw [current, about_append_other other, current]

@[simp] theorem current_about : current uri (about uri events) = current uri events := by
  simp only [current, about, List.filter_filter, Bool.and_self]

/-! ## Documents -/

/-- The analysis of a text, which is always there. -/
def document? (text : Text) : Option Document := (Document.ofText text).toOption

theorem exists_ofText (text : Text) : ∃ d, Document.ofText text = .ok d := by
  obtain ⟨-, d, -, analysed, -⟩ := exists_document text
  exact ⟨d, analysed⟩

theorem document?_of_ofText {text : Text} {d : Document} (made : Document.ofText text = .ok d) :
    document? text = some d := by
  rw [document?, made]
  rfl

namespace SessionWith

variable {keeper : Keeper}

/-- Handles an event. One that is refused has no effect. -/
def handle (s : SessionWith keeper) (e : Event) : Reply × SessionWith keeper :=
  match s.step e with
  | .ok result => result
  | .error _ => (Reply.silent, s)

/-- What handling an event about a document publishes and makes of the analyses, where the document
had the text `before`. -/
inductive Effect (held : Table Text Document) (uri : Text) (before : Option Text) (e : Event) :
    List (Text × List Mark) → Table Text Document → Prop where
  | quiet (same : e.edit before = before) (old : ∀ text, e ≠ .opened uri text) :
    Effect held uri before e [] held
  | analysed {text : Text} {d : Document} (was : before.isSome ∨ ∃ text, e = .opened uri text)
    (new : e.edit before = some text) (made : Document.ofText text = .ok d) :
    Effect held uri before e [(uri, d.marks)] (held.insert uri d)
  | dropped (was : before.isSome) (new : e.edit before = none) :
    Effect held uri before e [(uri, [])] (held.erase uri)

/-! ## Notices -/

/-- A text is always analysed, and the reply does not depend on the session. -/
theorem validate_eq (uri text : Text) :
    ∃ d logs, Document.ofText text = .ok d ∧ ∀ s : SessionWith keeper, s.validate uri text =
      .ok (⟨.nothing, logs, [(uri, d.marks)]⟩, { s with analyses := s.analyses.insert uri d }) := by
  obtain ⟨d, made⟩ := exists_ofText text
  simp only [validate, made]
  exact ⟨d, _, rfl, fun _ => rfl⟩

theorem heedAll_singleton {s s' : SessionWith keeper} {notice : Notice} {logs : List Text}
    {out : List (Text × List Mark)} (heeded : s.heed uri notice = .ok (⟨.nothing, logs, out⟩, s')) :
    s.heedAll uri [notice] = .ok (⟨.nothing, logs, out⟩, s') := by
  rw [heedAll, heeded]
  change Except.ok (Reply.mk .nothing (logs ++ []) (out ++ []), s') = _
  rw [List.append_nil, List.append_nil]

variable {before : Option Text} {held : Option Document} {change : Edit}

/-- How an event about a document is handled follows from its text and its analysis. -/
def Handled (keeper : Keeper) (uri : Text) (before : Option Text) (held : Option Document)
    (e : Event) : Prop :=
  ∃ reply : Reply, ∀ s : SessionWith keeper, keeper.text? s.documents uri = before →
    s.analyses.find? uri = held → (s.handle e).1 = reply ∧
      keeper.Sets s.documents (s.handle e).2.documents uri (e.edit before) ∧
      Effect s.analyses uri before e reply.published (s.handle e).2.analyses

theorem handled_of_content {text : Text}
    (steps : ∀ s : SessionWith keeper, s.step e = s.edit uri change)
    (received : ∀ s, keeper.text? s uri = before → ∃ s',
      keeper.receive s uri change = .ok ([.content text], s') ∧ keeper.Sets s s' uri (some text))
    (new : e.edit before = some text) (was : before.isSome ∨ ∃ text, e = .opened uri text) :
    Handled keeper uri before held e := by
  obtain ⟨d, logs, made, ran⟩ := @validate_eq keeper uri text
  refine ⟨⟨.nothing, logs, [(uri, d.marks)]⟩, fun s now _ => ?_⟩
  obtain ⟨documents, taken, sets⟩ := received s.documents now
  have handled : s.handle e =
      (⟨.nothing, logs, [(uri, d.marks)]⟩, ⟨documents, s.analyses.insert uri d⟩) := by
    have heeded : heed ⟨documents, s.analyses⟩ uri (.content text) = _ := ran _
    simp only [handle, steps, edit, taken, heedAll_singleton heeded]
  rw [handled, new]
  exact ⟨rfl, sets, .analysed was new made⟩

theorem handled_of_closed (steps : ∀ s : SessionWith keeper, s.step e = s.edit uri change)
    (received : ∀ s, keeper.text? s uri = before → ∃ s',
      keeper.receive s uri change = .ok ([.closed], s') ∧ keeper.Sets s s' uri none)
    (new : e.edit before = none) (was : before.isSome) :
    Handled keeper uri before held e := by
  refine ⟨⟨.nothing, [], [(uri, [])]⟩, fun s now _ => ?_⟩
  obtain ⟨documents, taken, sets⟩ := received s.documents now
  have handled : s.handle e =
      (⟨.nothing, [], [(uri, [])]⟩, ⟨documents, s.analyses.erase uri⟩) := by
    simp only [handle, steps, edit, taken]
    rfl
  rw [handled, new]
  exact ⟨rfl, sets, .dropped was new⟩

theorem handled_of_silent (steps : ∀ s : SessionWith keeper, s.step e = s.edit uri change)
    (received : ∀ s, keeper.text? s uri = before → ∃ s',
      keeper.receive s uri change = .ok ([], s') ∧ keeper.Sets s s' uri before)
    (same : e.edit before = before) (old : ∀ text, e ≠ .opened uri text) :
    Handled keeper uri before held e := by
  refine ⟨Reply.silent, fun s now _ => ?_⟩
  obtain ⟨documents, taken, sets⟩ := received s.documents now
  have handled : s.handle e = (Reply.silent, ⟨documents, s.analyses⟩) := by
    simp only [handle, steps, edit, taken]
    rfl
  rw [handled, same]
  exact ⟨rfl, sets, .quiet same old⟩

/-- One law of the keeper for each kind of event. -/
theorem handled_of_faithful (faithful : keeper.Faithful) (own : e.uri? = some uri)
    (before : Option Text) (held : Option Document) : Handled keeper uri before held e := by
  cases e with
  | greet => cases own
  | ready => cases own
  | hover uri' line character =>
    obtain rfl : uri' = uri := Option.some.inj own
    refine ⟨⟨.ofHover (held.bind (·.hoverAt line character)), [], []⟩, fun s now found => ?_⟩
    have handled : s.handle (.hover uri' line character) =
        (⟨.ofHover (held.bind (·.hoverAt line character)), [], []⟩, s) := by
      rw [← found]
      rfl
    rw [handled]
    exact ⟨rfl, now ▸ keeper.sets_self s.documents uri', .quiet rfl nofun⟩
  | opened uri' text =>
    obtain rfl : uri' = uri := Option.some.inj own
    exact handled_of_content (fun _ => rfl) (fun s _ => faithful.opened s uri' text) rfl
      (.inr ⟨text, rfl⟩)
  | closed uri' =>
    obtain rfl : uri' = uri := Option.some.inj own
    cases before with
    | none => exact handled_of_silent (fun _ => rfl) (faithful.closed_unknown · uri') rfl nofun
    | some text =>
      refine handled_of_closed (fun _ => rfl) (fun s now => ?_) rfl rfl
      exact faithful.closed s uri' (now ▸ rfl)
  | changed uri' version texts =>
    obtain rfl : uri' = uri := Option.some.inj own
    cases last : texts.getLast? with
    | none =>
      obtain rfl := List.getLast?_eq_none_iff.mp last
      refine handled_of_silent (fun _ => rfl) (fun s now => ?_) ?_ nofun
      · exact now ▸ faithful.changed_nothing s uri' version
      · cases version <;> cases before <;> rfl
    | some text =>
      have more : texts ≠ [] := by
        rintro rfl
        cases last
      cases version with
      | none =>
        -- refused, so that nothing at all happens
        refine ⟨Reply.silent, fun s now _ => ?_⟩
        have handled : s.handle (.changed uri' none texts) = (Reply.silent, s) := by
          simp only [handle, step, edit, faithful.unversioned s.documents uri' texts more]
        rw [handled]
        have same : Event.edit (.changed uri' none texts) before = before := by
          cases before <;> rfl
        exact ⟨rfl, same ▸ now ▸ keeper.sets_self s.documents uri', .quiet same nofun⟩
      | some v =>
        cases before with
        | none =>
          refine handled_of_silent (fun _ => rfl) (fun s now => ?_) rfl nofun
          exact faithful.changed_unknown s uri' v texts now more
        | some old =>
          have new : Event.edit (.changed uri' (some v) texts) (some old) = some text := by
            rw [Event.edit, last, Option.getD_some]
          refine handled_of_content (fun _ => rfl) (fun s now => ?_) new (.inl rfl)
          exact faithful.changed s uri' v texts text (now ▸ rfl) last

theorem effect_handle (faithful : keeper.Faithful) (own : e.uri? = some uri)
    (s : SessionWith keeper) :
    Effect s.analyses uri (keeper.text? s.documents uri) e (s.handle e).1.published
      (s.handle e).2.analyses := by
  obtain ⟨reply, handled⟩ := handled_of_faithful faithful own _ _
  obtain ⟨same, -, effect⟩ := handled s rfl rfl
  rwa [same]

theorem sets_handle (faithful : keeper.Faithful) (own : e.uri? = some uri)
    (s : SessionWith keeper) :
    keeper.Sets s.documents (s.handle e).2.documents uri
      (e.edit (keeper.text? s.documents uri)) := by
  obtain ⟨reply, handled⟩ := handled_of_faithful faithful own _ _
  exact (handled s rfl rfl).2.1

/-- The reply to an event about a document follows from what is held of that document. -/
theorem reply_congr (faithful : keeper.Faithful) (own : e.uri? = some uri)
    {s s' : SessionWith keeper}
    (texts : keeper.text? s.documents uri = keeper.text? s'.documents uri)
    (analyses : s.analyses.find? uri = s'.analyses.find? uri) :
    (s.handle e).1 = (s'.handle e).1 := by
  obtain ⟨reply, handled⟩ := handled_of_faithful faithful own _ _
  rw [(handled s texts analyses).1, (handled s' rfl rfl).1]

/-- An event about no document. -/
theorem handle_of_uri?_none (s : SessionWith keeper) (apart : e.uri? = none) :
    (s.handle e).1.published = [] ∧ (s.handle e).2 = s := by
  cases e with
  | greet => exact ⟨rfl, rfl⟩
  | ready => exact ⟨rfl, rfl⟩
  | opened | changed | closed | hover => cases apart

namespace Effect

variable {table table' : Table Text Document} {out : List (Text × List Mark)}

theorem find?_own (h : Effect table uri before e out table')
    (holds : table.find? uri = before.bind document?) :
    table'.find? uri = (e.edit before).bind document? := by
  cases h with
  | quiet same => rw [same, holds]
  | analysed was new made =>
    rw [new, Option.bind_some, document?_of_ofText made, Table.find?_insert, if_pos rfl]
  | dropped was new => rw [new, Table.find?_erase, if_pos rfl, Option.bind_none]

theorem find?_other {uri' : Text} (h : Effect table uri before e out table')
    (other : uri' ≠ uri) : table'.find? uri' = table.find? uri' := by
  cases h with
  | quiet => rfl
  | analysed => rw [Table.find?_insert, if_neg other]
  | dropped => rw [Table.find?_erase, if_neg other]

theorem uri_of_mem (h : Effect table uri before e out table') {x : Text × List Mark}
    (mem : x ∈ out) : x.1 = uri := by
  cases h with
  | quiet => cases mem
  | analysed | dropped => rw [List.mem_singleton.mp mem]

end Effect

/-! ## Runs -/

/-- The events so far, each with its reply, and the session after them. -/
def run (keeper : Keeper) (events : List Event) : List (Event × Reply) × SessionWith keeper :=
  events.foldl (fun (past, s) e => (past ++ [(e, (s.handle e).1)], (s.handle e).2)) ([], initial)

theorem run_append (keeper : Keeper) (events : List Event) (e : Event) :
    run keeper (events ++ [e]) =
      ((run keeper events).1 ++ [(e, ((run keeper events).2.handle e).1)],
        ((run keeper events).2.handle e).2) := by
  rw [run, List.foldl_append]
  rfl

/-- What was last published about a document. -/
def lastMarks (keeper : Keeper) (uri : Text) (events : List Event) : Option (List Mark) :=
  ((run keeper events).1.flatMap fun x => x.2.published).reverse.lookup uri

theorem lastMarks_append (keeper : Keeper) (uri : Text) (events : List Event) (e : Event) :
    lastMarks keeper uri (events ++ [e]) =
      (((run keeper events).2.handle e).1.published.reverse.lookup uri).or
        (lastMarks keeper uri events) := by
  simp [lastMarks, run_append, List.lookup_append]

section

variable (faithful : keeper.Faithful)

include faithful

/-- The keeper has the current text of each document. -/
theorem text?_run (events : List Event) (uri : Text) :
    keeper.text? (run keeper events).2.documents uri = current uri events := by
  induction events using List.reverseRecOn generalizing uri with
  | nil => exact faithful.initial uri
  | append_singleton events e ih =>
    rw [run_append]
    cases on : e.uri? with
    | none => rw [(handle_of_uri?_none _ on).2, ih, current_append_other (by simp [on])]
    | some uri' =>
      rw [sets_handle faithful on _ uri, ih, ih]
      by_cases same : uri = uri'
      · subst same
        rw [if_pos rfl, current_append_own on]
      · rw [if_neg same, current_append_other (by simpa [on] using Ne.symm same)]

/-- The session holds the analysis of the current text of each open document. -/
theorem find?_run (events : List Event) (uri : Text) :
    (run keeper events).2.analyses.find? uri = (current uri events).bind document? := by
  induction events using List.reverseRecOn generalizing uri with
  | nil => rfl
  | append_singleton events e ih =>
    rw [run_append]
    cases on : e.uri? with
    | none =>
      rw [(handle_of_uri?_none _ on).2, ih, current_append_other (by simp [on])]
    | some uri' =>
      have effect := effect_handle faithful on (run keeper events).2
      rw [text?_run faithful] at effect
      by_cases same : uri = uri'
      · subst same
        rw [effect.find?_own (ih uri), current_append_own on]
      · rw [effect.find?_other same, ih, current_append_other (by simpa [on] using Ne.symm same)]

theorem mem_keys_run (events : List Event) (uri : Text) :
    uri ∈ (run keeper events).2.analyses.keys ↔ (current uri events).isSome := by
  rw [← not_iff_not, ← Table.contains_eq_false, Table.contains, find?_run faithful]
  cases current uri events with
  | none => simp
  | some text =>
    obtain ⟨d, made⟩ := exists_ofText text
    simp [document?_of_ofText made]

end

/-! ## Marks -/

/-- What was last published about a document with this text. -/
inductive Told (uri : Text) (events : List Event) : Option Text → Option (List Mark) → Prop where
  | shown {text : Text} {d : Document} (was : ∃ text, .opened uri text ∈ events)
    (made : Document.ofText text = .ok d) : Told uri events (some text) (some d.marks)
  | cleared (was : ∃ text, .opened uri text ∈ events) : Told uri events none (some [])
  | never (fresh : ∀ text, .opened uri text ∉ events) : Told uri events none none

namespace Told

variable {text : Option Text} {marks : Option (List Mark)}

theorem opened_append (was : ∃ text, .opened uri text ∈ events) (e : Event) :
    ∃ text, .opened uri text ∈ events ++ [e] :=
  was.imp fun _ mem => List.mem_append_left _ mem

theorem append (h : Told uri events text marks) (old : ∀ text, e ≠ .opened uri text) :
    Told uri (events ++ [e]) text marks := by
  cases h with
  | shown was made => exact .shown (opened_append was e) made
  | cleared was => exact .cleared (opened_append was e)
  | never fresh =>
    refine .never fun text mem => ?_
    rcases List.mem_append.mp mem with earlier | here
    · exact fresh text earlier
    · exact old text (List.mem_singleton.mp here).symm

theorem was (h : Told uri events text marks) (isOpen : text.isSome) :
    ∃ text, .opened uri text ∈ events := by
  cases h with
  | shown was => exact was
  | cleared | never => cases isOpen

end Told

theorem lookup_reverse_self (uri : Text) (marks : List Mark) :
    [(uri, marks)].reverse.lookup uri = some marks := by
  simp

theorem lookup_reverse_of_apart {uri uri' : Text} {out : List (Text × List Mark)}
    (only : ∀ x ∈ out, x.1 = uri') (apart : uri ≠ uri') : out.reverse.lookup uri = none := by
  rw [List.lookup_eq_none_iff]
  intro x mem
  rw [bne_iff_ne, only x (List.mem_reverse.mp mem)]
  exact apart

theorem told_run (faithful : keeper.Faithful) (events : List Event) (uri : Text) :
    Told uri events (current uri events) (lastMarks keeper uri events) := by
  induction events using List.reverseRecOn with
  | nil => exact .never nofun
  | append_singleton events e ih =>
    rw [lastMarks_append]
    cases on : e.uri? with
    | none =>
      rw [(handle_of_uri?_none _ on).1, current_append_other (by simp [on])]
      exact ih.append fun text same => by simp [same, Event.uri?] at on
    | some uri' =>
      have effect := effect_handle faithful on (run keeper events).2
      rw [text?_run faithful] at effect
      by_cases same : uri = uri'
      · subst same
        rw [current_append_own on]
        generalize ((run keeper events).2.handle e).1.published = out at effect ⊢
        generalize ((run keeper events).2.handle e).2.analyses = held at effect
        cases effect with
        | quiet same old =>
          rw [same]
          exact ih.append old
        | analysed was new made =>
          rw [new, lookup_reverse_self, Option.some_or]
          refine .shown ?_ made
          rcases was with isOpen | ⟨text, opens⟩
          · exact Told.opened_append (ih.was isOpen) e
          · exact ⟨text, by simp [opens]⟩
        | dropped was new =>
          rw [new, lookup_reverse_self, Option.some_or]
          exact .cleared (Told.opened_append (ih.was was) e)
      · have silent := lookup_reverse_of_apart (fun x mem => effect.uri_of_mem mem) same
        rw [silent, Option.none_or, current_append_other (by simpa [on] using Ne.symm same)]
        refine ih.append fun text opened => same ?_
        subst opened
        exact (Option.some.inj on)

/-! ## Independence -/

/-- A document's own events get the replies that they get without all other events. -/
theorem filter_run (faithful : keeper.Faithful) (events : List Event) (uri : Text) :
    ((run keeper events).1.filter fun x => x.1.uri? = some uri) =
      (run keeper (about uri events)).1 := by
  induction events using List.reverseRecOn with
  | nil => rfl
  | append_singleton events e ih =>
    by_cases own : e.uri? = some uri
    · have texts : keeper.text? (run keeper events).2.documents uri =
          keeper.text? (run keeper (about uri events)).2.documents uri := by
        rw [text?_run faithful, text?_run faithful, current_about]
      have analyses : (run keeper events).2.analyses.find? uri =
          (run keeper (about uri events)).2.analyses.find? uri := by
        rw [find?_run faithful, find?_run faithful, current_about]
      rw [about_append_own own, run_append, run_append, List.filter_append, ih,
        reply_congr faithful own texts analyses]
      simp [own]
    · rw [about_append_other own, run_append, List.filter_append, ih]
      simp [own]

/-- Marks are published for a document only by its own events. -/
theorem uri_of_published (faithful : keeper.Faithful) (events : List Event) :
    ∀ x ∈ (run keeper events).1, ∀ y ∈ x.2.published, x.1.uri? = some y.1 := by
  induction events using List.reverseRecOn with
  | nil => nofun
  | append_singleton events e ih =>
    rw [run_append, List.forall_mem_append]
    refine ⟨ih, ?_⟩
    rw [List.forall_mem_singleton]
    intro y mem
    cases on : e.uri? with
    | none => simp [(handle_of_uri?_none (run keeper events).2 on).1] at mem
    | some uri => rw [(effect_handle faithful on (run keeper events).2).uri_of_mem mem]

/-! ## Hovers -/

theorem content_ofText {text : Text} {d : Document} (made : Document.ofText text = .ok d) :
    (text.parse.program = none ∧ d.content = none) ∨
      ∃ p analysis, text.parse.program = some p ∧ p.analyze = .ok analysis ∧
        d.content = some (p, analysis.bindings) := by
  simp only [Document.ofText] at made
  cases parsed : text.parse.program with
  | none =>
    rw [parsed] at made
    cases made
    exact .inl ⟨rfl, rfl⟩
  | some p =>
    rw [parsed] at made
    cases analysed : p.analyze with
    | error f =>
      simp only [analysed] at made
      cases made
    | ok analysis =>
      simp only [analysed] at made
      cases made
      exact .inr ⟨p, analysis, rfl, analysed, rfl⟩

/-- An identifier token of a text that covers a character, and what the token is bound to. -/
structure Names (text : Text) (line character : Int) (t : Token) (symbol : Symbol) : Prop where
  exists_program : ∃ p analysis i, text.parse.program = some p ∧ p.analyze = .ok analysis ∧
    text.scan.tokens[i]? = some t ∧ analysis.bindings.symbolOf (Parse.identOf (t, i)) = some symbol
  kind : t.kind = .identifier
  covers : t.Covers line character

theorem hoverAt_eq_some_iff {text : Text} {d : Document} (made : Document.ofText text = .ok d)
    {line character : Int} {shown : Text} :
    d.hoverAt line character = some shown ↔ ∃ t symbol, Names text line character t symbol ∧
      shown = t.text ++ ": " ++ symbol.render := by
  rcases content_ofText made with ⟨failed, content⟩ | ⟨p, analysis, parsed, analysed, content⟩
  · simp only [Document.hoverAt, Document.identAt, content]
    constructor
    · nofun
    · rintro ⟨t, symbol, ⟨⟨p, -, -, parsed, -⟩, -, -⟩, -⟩
      rw [failed] at parsed
      cases parsed
  · simp only [Document.hoverAt, Document.identAt, Document.hover, content, bind,
      Option.bind_eq_some_iff, Program.identAt_eq_some_iff parsed, Bindings.hover,
      Option.map_eq_some_iff]
    constructor
    · rintro ⟨id, ⟨i, t, place, kind, covers, rfl⟩, symbol, bound, rfl⟩
      exact ⟨t, symbol, ⟨⟨p, analysis, i, parsed, analysed, place, bound⟩, kind, covers⟩, rfl⟩
    · rintro ⟨t, symbol, ⟨⟨p', analysis', i, parsed', analysed', place, bound⟩, kind, covers⟩, rfl⟩
      cases parsed.symm.trans parsed'
      cases analysed.symm.trans analysed'
      exact ⟨_, ⟨i, t, place, kind, covers, rfl⟩, symbol, bound, rfl⟩

theorem ofHover_eq_markdown_iff {inner? : Option Text} {shown : Text} :
    Answer.ofHover inner? = .markdown shown ↔
      ∃ inner, inner? = some inner ∧ shown = "\x60" ++ inner ++ "\x60" := by
  cases inner? with
  | none => simp [Answer.ofHover]
  | some inner => simp [Answer.ofHover, eq_comm]

theorem ofHover_eq_nothing {inner? : Option Text}
    (empty : ∀ shown, Answer.ofHover inner? ≠ .markdown shown) :
    Answer.ofHover inner? = .nothing := by
  cases inner? with
  | none => rfl
  | some inner => exact absurd rfl (empty _)

/-- A hover is answered from the current text of its document. -/
theorem hover_run (faithful : keeper.Faithful) (events : List Event) (uri : Text)
    (line character : Int) (shown : Text) :
    (run keeper events).2.hover uri line character = .markdown shown ↔
      ∃ text t symbol, current uri events = some text ∧ Names text line character t symbol ∧
        shown = "\x60" ++ (t.text ++ ": " ++ symbol.render) ++ "\x60" := by
  rw [hover, ofHover_eq_markdown_iff, find?_run faithful]
  constructor
  · rintro ⟨inner, found, rfl⟩
    obtain ⟨d, kept, answer⟩ := Option.bind_eq_some_iff.mp found
    obtain ⟨text, now, kept⟩ := Option.bind_eq_some_iff.mp kept
    obtain ⟨d', made⟩ := exists_ofText text
    cases (document?_of_ofText made).symm.trans kept
    obtain ⟨t, symbol, names, rfl⟩ := (hoverAt_eq_some_iff made).mp answer
    exact ⟨text, t, symbol, now, names, rfl⟩
  · rintro ⟨text, t, symbol, now, names, rfl⟩
    obtain ⟨d, made⟩ := exists_ofText text
    refine ⟨_, ?_, rfl⟩
    rw [now, Option.bind_some, document?_of_ofText made, Option.bind_some]
    exact (hoverAt_eq_some_iff made).mpr ⟨t, symbol, names, rfl⟩

/-- A session follows the current texts of its documents, whatever keeps the documents, as long as it
gives notice of each new text and of each closing; a table does so. After any events, the keeper has
the current texts, and the session holds the analyses of just those. The marks last published about
a document are those of its current text, or an empty list once it was closed, and nothing is
published about a document that was never opened. A hover names the identifier token under the
cursor with its type, if that token is bound, and is empty otherwise. All of this follows from the
document's own events: they get the same replies without the other events, which publish nothing
about it. -/
theorem session_follows_texts :
    Keeper.table.Faithful ∧ ∀ keeper : Keeper, keeper.Faithful →
    ∀ (events : List Event) (uri : Text),
    let s := (run keeper events).2
    keeper.text? s.documents uri = current uri events ∧
    (uri ∈ s.analyses.keys ↔ (current uri events).isSome) ∧
    (∀ text, current uri events = some text → ∃ d, Document.ofText text = .ok d ∧
      s.analyses.find? uri = some d ∧ lastMarks keeper uri events = some d.marks) ∧
    (current uri events = none → (∃ text, .opened uri text ∈ events) →
      lastMarks keeper uri events = some []) ∧
    ((∀ text, .opened uri text ∉ events) →
      current uri events = none ∧ lastMarks keeper uri events = none) ∧
    (∀ line character, ∃ answer,
      s.step (.hover uri line character) = .ok (⟨answer, [], []⟩, s) ∧
      (∀ shown, answer = .markdown shown ↔
        ∃ text t symbol, current uri events = some text ∧ Names text line character t symbol ∧
          shown = "\x60" ++ (t.text ++ ": " ++ symbol.render) ++ "\x60") ∧
      ((∀ shown, answer ≠ .markdown shown) → answer = .nothing)) ∧
    (((run keeper events).1.filter fun x => x.1.uri? = some uri) =
      (run keeper (about uri events)).1) ∧
    ∀ x ∈ (run keeper events).1, ∀ y ∈ x.2.published, y.1 = uri → x.1.uri? = some uri := by
  refine ⟨Keeper.table_faithful, fun keeper faithful events uri => ?_⟩
  intro s
  have held : s.analyses.find? uri = _ := find?_run faithful events uri
  have told := told_run faithful events uri
  refine ⟨text?_run faithful events uri, mem_keys_run faithful events uri, ?_, ?_, ?_, ?_,
    filter_run faithful events uri, ?_⟩
  · intro text now
    rw [now] at told held
    obtain ⟨d, made⟩ := exists_ofText text
    refine ⟨d, made, ?_, ?_⟩
    · rw [held, Option.bind_some, document?_of_ofText made]
    · generalize lastMarks keeper uri events = marks at told
      cases told with
      | shown was made' => rw [Except.ok.inj (made.symm.trans made')]
  · rintro now ⟨text, mem⟩
    rw [now] at told
    generalize lastMarks keeper uri events = marks at told
    cases told with
    | cleared => rfl
    | never fresh => exact absurd mem (fresh text)
  · intro fresh
    generalize current uri events = now, lastMarks keeper uri events = marks at told
    cases told with
    | shown was | cleared was =>
      obtain ⟨text, mem⟩ := was
      exact absurd mem (fresh text)
    | never => exact ⟨rfl, rfl⟩
  · intro line character
    exact ⟨_, rfl, hover_run faithful events uri line character, ofHover_eq_nothing⟩
  · rintro x mem y sent rfl
    exact uri_of_published faithful events x mem y sent

/-- One document is changed, with two texts at once. The other is changed without a version, closed,
and changed once more. -/
theorem session_follows_texts_closed :
    let events : List Event := [.opened "a" "int x;", .opened "b" "int y",
      .changed "a" (some 2) ["x", "bool x;"], .changed "b" none ["int y;"], .closed "b",
      .changed "b" (some 2) ["int z;"]]
    let s := (run .table events).2
    (∃ d, Document.ofText "bool x;" = .ok d ∧ s.analyses.find? "a" = some d ∧
      lastMarks .table "a" events = some d.marks) ∧
    Text.ofString "b" ∉ s.analyses.keys ∧ lastMarks .table "b" events = some [] ∧
    s.step (.hover "a" 0 5) = .ok (⟨.markdown "\x60x: bool\x60", [], []⟩, s) := by
  intro events s
  obtain ⟨faithful, follows⟩ := session_follows_texts
  obtain ⟨-, -, held, -, -, hovers, -, -⟩ := follows _ faithful events "a"
  obtain ⟨-, keys, -, cleared, -, -, -, -⟩ := follows _ faithful events "b"
  have at_a : current "a" events = some (Text.ofString "bool x;") := rfl
  have at_b : current "b" events = none := rfl
  refine ⟨held _ at_a, ?_, cleared at_b ⟨"int y", by simp [events]⟩, ?_⟩
  · rw [keys, at_b]
    exact Bool.false_ne_true
  · obtain ⟨d, made, -⟩ := held _ at_a
    have seen : (Document.ofText "bool x;").toOption.bind (fun d => d.hoverAt 0 5) =
        some (Text.ofString "x: bool") := by
      rw [Document.ofText, Text.parse_eq_parseOnTape]
      decide +kernel
    rw [made] at seen
    obtain ⟨t, symbol, names, text⟩ := (hoverAt_eq_some_iff made).mp seen
    obtain ⟨answer, stepped, shown, -⟩ := hovers 0 5
    have answered := (shown _).mpr ⟨_, t, symbol, at_a, names, rfl⟩
    rw [stepped, answered, ← text]
    rfl

end SessionWith

end Cinder.Editor
