import Cinder.Proofs.Scoping.Walk

/-!
# What the resolver can do to its state

Wherever a walk of the resolver ends, in a result or in a fault, the bindings have only grown, and
so has the frame that was innermost when the walk began. The frames below that one are untouched, and
those pushed on top of it are gone if there is a result. The only fault is that something is bound
for the second time. None of this asks that the identifiers of the walk are new to the resolver.
-/
namespace Cinder

/-! ## Growth -/

namespace Table

variable {κ α : Type}

/-- Entries under new keys have been added behind those of a table. -/
def Grows (t u : Table κ α) : Prop :=
  ∃ added, u.entries = t.entries ++ added ∧ ∀ k ∈ added.map Prod.fst, k ∉ t.keys

namespace Grows

variable {t u v : Table κ α}

theorem refl (t : Table κ α) : t.Grows t := by
  refine ⟨[], by simp, ?_⟩
  intro k mem
  cases mem

theorem trans (first : t.Grows u) (second : u.Grows v) : t.Grows v := by
  obtain ⟨added, entries, fresh⟩ := first
  obtain ⟨more, entries', fresh'⟩ := second
  refine ⟨added ++ more, by rw [entries', entries, List.append_assoc], ?_⟩
  intro k mem known
  rw [List.map_append, List.mem_append] at mem
  rcases mem with early | late
  · exact fresh k early known
  · apply fresh' k late
    rw [keys, entries, List.map_append]
    exact List.mem_append_left _ known

theorem size_le (grown : t.Grows u) : t.size ≤ u.size := by
  obtain ⟨added, entries, -⟩ := grown
  rw [size, size, entries, List.length_append]
  omega

variable [DecidableEq κ] {k : κ} {a : α}

/-- What is found in a table is found in it later. -/
theorem find? (grown : t.Grows u) (found : t.find? k = some a) : u.find? k = some a := by
  obtain ⟨added, entries, -⟩ := grown
  rw [Table.find?, entries, List.lookup_append]
  exact Option.or_eq_some_iff.mpr (.inl found)

theorem put_append {before after : List (κ × α)} (absent : k ∉ before.map Prod.fst) :
    put k a (before ++ after) = before ++ put k a after := by
  induction before with
  | nil => rfl
  | cons entry rest ih =>
    simp only [List.map_cons, List.mem_cons, not_or] at absent
    rw [List.cons_append, put, if_neg (Ne.symm absent.1), ih absent.2, List.cons_append]

/-- A key that the table did not have at first can be given any value since. -/
theorem insert (grown : t.Grows u) (absent : k ∉ t.keys) (a : α) : t.Grows (u.insert k a) := by
  obtain ⟨added, entries, fresh⟩ := grown
  refine ⟨put k a added, by rw [Table.insert, entries, put_append absent], ?_⟩
  intro key mem
  obtain ⟨entry, inside, rfl⟩ := List.mem_map.mp mem
  rcases mem_put inside with rfl | old
  · exact absent
  · exact fresh entry.1 (List.mem_map_of_mem old)

end Grows

end Table

namespace Scopes

/-- Names have been added to the innermost frame, and then this many frames on top of it. -/
def Grows (s : Scopes) (n : Nat) (t : Scopes) : Prop :=
  ∃ pushed top top' rest, pushed.length = n ∧ s.frames = top :: rest ∧
    t.frames = pushed ++ top' :: rest ∧ top.Grows top'

namespace Grows

variable {s t u : Scopes} {n m : Nat} {name : Text}

theorem refl (inside : s.frames ≠ []) : s.Grows 0 s := by
  obtain ⟨top, rest, frames⟩ := List.exists_cons_of_ne_nil inside
  exact ⟨[], top, top, rest, rfl, frames, frames, .refl top⟩

theorem inside (grown : s.Grows n t) : t.frames ≠ [] := by
  obtain ⟨pushed, _, top', rest, -, -, frames, -⟩ := grown
  rw [frames]
  simp

theorem depth_eq (grown : s.Grows n t) : t.depth = s.depth + n := by
  obtain ⟨pushed, top, top', rest, rfl, frames, frames', -⟩ := grown
  rw [depth, depth, frames, frames', List.length_append, List.length_cons, List.length_cons]
  omega

theorem trans (first : s.Grows n t) (second : t.Grows m u) : s.Grows (m + n) u := by
  obtain ⟨pushed, top, top', rest, rfl, start, mid, grown⟩ := first
  obtain ⟨more, inner, inner', below, rfl, mid', stop, grown'⟩ := second
  rw [mid'] at mid
  -- the second step has grown the frame of the first one only if nothing was pushed on it
  cases pushed with
  | nil =>
    obtain ⟨rfl, rfl⟩ := List.cons.inj mid
    exact ⟨more, top, inner', _, rfl, start, stop, grown.trans grown'⟩
  | cons frame pushed =>
    rw [List.cons_append] at mid
    obtain ⟨rfl, rfl⟩ := List.cons.inj mid
    refine ⟨more ++ inner' :: pushed, top, top', rest, by simp, start, ?_, grown⟩
    rw [stop, List.append_assoc, List.cons_append]

theorem enter (inside : s.frames ≠ []) : s.Grows 1 s.enter := by
  obtain ⟨top, rest, frames⟩ := List.exists_cons_of_ne_nil inside
  exact ⟨[.empty], top, top, rest, rfl, frames, by rw [Scopes.enter, frames]; rfl, .refl top⟩

/-- The frame on top can be dropped. -/
theorem leave (grown : s.Grows 1 t) : ∃ u, t.leave = .ok u ∧ s.Grows 0 u := by
  obtain ⟨pushed, top, top', rest, one, frames, frames', grown⟩ := grown
  obtain ⟨frame, rfl⟩ := List.length_eq_one_iff.mp one
  exact ⟨⟨top' :: rest⟩, by rw [Scopes.leave, frames']; rfl, [], top, top', rest, rfl, frames, rfl,
    grown⟩

/-- A name that is free in the innermost frame can be declared there. -/
theorem declare (named : name ≠ []) (free : s.findLocal name = .ok none) (symbol : Symbol) :
    ∃ t, s.declare name (some symbol) = .ok t ∧ s.Grows 0 t := by
  obtain ⟨frames⟩ := s
  cases frames with
  | nil => cases free
  | cons top rest =>
    have unknown : top.find? name = none := Except.ok.inj free
    have absent : name ∉ top.keys := Table.lookup_eq_none.mp unknown
    refine ⟨⟨top.insert name symbol :: rest⟩, ?_, [], top, _, rest, rfl, rfl, rfl,
      (Table.Grows.refl top).insert absent symbol⟩
    simp [Scopes.declare, named, Table.contains, unknown]

/-- A name that was free in the innermost frame can be given another symbol from the frame above. -/
theorem amendOuter (grown : s.Grows 1 t) (free : s.findLocal name = .ok none) (symbol : Symbol) :
    s.Grows 1 (t.amendOuter name symbol) := by
  obtain ⟨pushed, top, top', rest, one, frames, frames', grown⟩ := grown
  obtain ⟨frame, rfl⟩ := List.length_eq_one_iff.mp one
  have unknown : top.find? name = none := by
    rw [findLocal, frames] at free
    exact Except.ok.inj free
  refine ⟨[frame], top, top'.insert name symbol, rest, rfl, frames, ?_,
    grown.insert (Table.lookup_eq_none.mp unknown) symbol⟩
  rw [Scopes.amendOuter, frames']
  rfl

end Grows

end Scopes

/-- Something was bound for the second time. -/
def Fault.isRebinding : Fault → Bool
  | identRebound _ => true
  | dotRebound _ => true
  | _ => false

namespace Resolver

/-- The bindings and the innermost frame have grown, and this many frames were pushed. -/
structure Grows (r : Resolver) (n : Nat) (s : Resolver) : Prop where
  scopes : r.scopes.Grows n s.scopes
  idents : r.bindings.idents.Grows s.bindings.idents
  dots : r.bindings.dots.Grows s.bindings.dots

theorem Grows.refl {r : Resolver} (inside : r.scopes.frames ≠ []) : r.Grows 0 r :=
  ⟨.refl inside, .refl _, .refl _⟩

theorem Grows.trans {r s t : Resolver} {n m : Nat} (first : r.Grows n s) (second : s.Grows m t) :
    r.Grows (m + n) t := by
  constructor
  · exact first.scopes.trans second.scopes
  · exact first.idents.trans second.idents
  · exact first.dots.trans second.dots

/-- A result with this many frames pushed, or else a rebinding with any number of them. -/
def Allows {α : Type} (r : Resolver) (n : Nat) : EStateM.Result Fault Resolver α → Prop
  | .ok _ s => r.Grows n s
  | .error fault s => fault.isRebinding = true ∧ ∃ m, r.Grows m s

theorem Allows.bind {α β : Type} {step : Resolve α} {next : α → Resolve β} {r s : Resolver}
    {n m : Nat} (first : r.Allows n (step s))
    (second : ∀ a t, step s = .ok a t → r.Grows n t → r.Allows m (next a t)) :
    r.Allows m ((step >>= next) s) := by
  change r.Allows m (EStateM.bind step next s)
  rw [EStateM.bind]
  cases result : step s with
  | ok a t =>
    rw [result] at first
    exact second a t result first
  | error fault t =>
    rw [result] at first
    exact first

end Resolver

namespace Resolve

/-! ## Steady steps -/

/-- A step that pushes nothing in the end, whatever the resolver knows. -/
def Steady {α : Type} (step : Resolve α) : Prop :=
  ∀ r : Resolver, r.scopes.frames ≠ [] → r.Allows 0 (step r)

section

variable {α β : Type}

namespace Steady

theorem after {step : Resolve α} (steady : Steady step) {r s : Resolver} {n : Nat}
    (grown : r.Grows n s) : r.Allows n (step s) := by
  have taken := steady s grown.scopes.inside
  cases result : step s with
  | ok a t =>
    rw [result] at taken
    have all := grown.trans taken
    rwa [Nat.zero_add] at all
  | error fault t =>
    rw [result] at taken
    obtain ⟨rebinding, m, more⟩ := taken
    exact ⟨rebinding, m + n, grown.trans more⟩

theorem bind {step : Resolve α} {next : α → Resolve β} (first : Steady step)
    (second : ∀ a, Steady (next a)) : Steady (step >>= next) := by
  intro r inside
  refine (first r inside).bind ?_
  intro a t _ grown
  exact (second a).after grown

/-- Scopes and bindings are left as they are. -/
theorem quiet {step : Resolve α} (still : ∀ r, ∃ a s, step r = .ok a s ∧
    s.scopes = r.scopes ∧ s.bindings = r.bindings) : Steady step := by
  intro r inside
  obtain ⟨a, s, done, scopes, bindings⟩ := still r
  rw [done]
  constructor
  · rw [scopes]
    exact .refl inside
  · rw [bindings]
    exact .refl _
  · rw [bindings]
    exact .refl _

theorem pure (a : α) : Steady (Pure.pure a) := quiet fun r => ⟨a, r, rfl, rfl, rfl⟩

theorem report (position : Position) (problem : Problem) : Steady (report position problem) :=
  quiet fun _ => ⟨(), _, rfl, rfl, rfl⟩

/-- A problem is reported and then something returned. -/
theorem reject (position : Position) (problem : Problem) (a : α) :
    Steady (do
      Resolve.report position problem
      return a) :=
  (report position problem).bind fun _ => pure a

theorem markBad (field : Ident) : Steady (markBad field) := quiet fun _ => ⟨(), _, rfl, rfl, rfl⟩

end Steady

theorem steady_find (name : Text) : Steady (query (·.find name)) := by
  intro r inside
  obtain ⟨top, rest, frames⟩ := List.exists_cons_of_ne_nil inside
  have answer : r.scopes.find name = .ok ((top :: rest).findSome? (·.find? name)) := by
    rw [Scopes.find, frames]
  rw [run_query, answer]
  exact .refl inside

/-- Each table of the bindings has grown, or else something was there already. -/
theorem steady_updateBindings {f : Bindings → Except Fault Bindings}
    (either : ∀ b, (∃ fault, f b = .error fault ∧ fault.isRebinding = true) ∨
      ∃ c, f b = .ok c ∧ b.idents.Grows c.idents ∧ b.dots.Grows c.dots) :
    Steady (updateBindings f) := by
  intro r inside
  rw [run_updateBindings]
  rcases either r.bindings with ⟨fault, failed, rebinding⟩ | ⟨c, done, idents, dots⟩
  · rw [failed]
    exact ⟨rebinding, 0, .refl inside⟩
  · rw [done]
    exact ⟨.refl inside, idents, dots⟩

theorem steady_bind (id : Ident) (symbol : Symbol) : Steady (bind id symbol) := by
  apply steady_updateBindings
  intro b
  rw [Bindings.bind]
  cases taken : b.idents.contains id.node with
  | true => exact .inl ⟨_, rfl, rfl⟩
  | false =>
    have absent := Table.contains_eq_false.mp taken
    exact .inr ⟨_, rfl, (Table.Grows.refl b.idents).insert absent symbol, .refl b.dots⟩

theorem steady_bindStruct (field : Ident) (d : StructDef) :
    Steady (updateBindings (·.bindStruct field d)) := by
  apply steady_updateBindings
  intro b
  rw [Bindings.bindStruct]
  cases taken : b.dots.contains field.node with
  | true => exact .inl ⟨_, rfl, rfl⟩
  | false =>
    have absent := Table.contains_eq_false.mp taken
    exact .inr ⟨_, rfl, .refl b.idents, (Table.Grows.refl b.dots).insert absent d⟩

end

/-! ## Expressions -/

theorem steady_useIdent (id : Ident) : Steady (useIdent id) := by
  refine (steady_find id.name).bind ?_
  intro found
  cases found with
  | none => exact .report id.position .undeclared
  | some symbol => exact steady_bind id symbol

theorem steady_structOfBase (base : Exp) : Steady (structOfBase base) := by
  refine Steady.bind (.quiet fun r => ⟨r, r, rfl, rfl, rfl⟩) ?_
  intro r
  cases base with
  | ident id =>
    dsimp only
    split
    · exact .pure none
    · exact .pure _
    · exact .reject _ .notStruct none
  | dot inner field =>
    dsimp only
    split
    · exact .pure none
    · split
      · exact .pure _
      · exact .reject _ .notStruct none
  | _ => exact .reject _ .notStruct none

theorem steady_select (base : Exp) (field : Ident) : Steady (select base field) := by
  refine (steady_structOfBase base).bind ?_
  intro definition?
  cases definition? with
  | none => exact .markBad field
  | some definition =>
    dsimp only
    cases definition.field? field.name with
    | none => exact (Steady.report field.position .unknownField).bind fun _ => .markBad field
    | some symbol =>
      refine (steady_bind field symbol).bind ?_
      intro _
      cases symbol with
      | structVar name typeName inner => exact steady_bindStruct field inner
      | _ => exact .pure ()

mutual

theorem steady_exp : (e : Exp) → Steady (exp e)
  | .int _ _ _ => .pure ()
  | .string _ _ => .pure ()
  | .bool _ _ => .pure ()
  | .ident id => steady_useIdent id
  | .dot base field => (steady_exp base).bind fun _ => steady_select base field
  | .assign target value => (steady_exp target).bind fun _ => steady_exp value
  | .call callee args => (steady_useIdent callee).bind fun _ => steady_exps args
  | .unary _ operand => steady_exp operand
  | .binary _ left right => (steady_exp left).bind fun _ => steady_exp right

theorem steady_exps : (es : List Exp) → Steady (exps es)
  | [] => .pure ()
  | e :: es => (steady_exp e).bind fun _ => steady_exps es

end

end Resolve

end Cinder
