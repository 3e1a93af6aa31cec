import Cinder.Table
import Mathlib.Data.List.Nodup

/-!
# Tables as lists

What the entries of a table are after something was put in, and when looking up a key tells that it
is among the entries.
-/
namespace Cinder.Table

variable {κ α : Type} [DecidableEq κ]

theorem put_of_not_mem {k : κ} {a : α} {entries : List (κ × α)} (absent : k ∉ entries.map Prod.fst) :
    put k a entries = entries ++ [(k, a)] := by
  induction entries with
  | nil => rfl
  | cons entry rest ih =>
    simp only [List.map_cons, List.mem_cons, not_or] at absent
    rw [put, if_neg (Ne.symm absent.1), ih absent.2, List.cons_append]

/-- A key that is there keeps its place. -/
theorem put_of_mem {k : κ} {a b : α} {before after : List (κ × α)}
    (absent : k ∉ before.map Prod.fst) :
    put k a (before ++ (k, b) :: after) = before ++ (k, a) :: after := by
  induction before with
  | nil => simp [put]
  | cons entry rest ih =>
    simp only [List.map_cons, List.mem_cons, not_or] at absent
    rw [List.cons_append, put, if_neg (Ne.symm absent.1), ih absent.2, List.cons_append]

theorem lookup_eq_none {k : κ} {entries : List (κ × α)} :
    entries.lookup k = none ↔ k ∉ entries.map Prod.fst := by
  rw [List.lookup_eq_none_iff]
  simp only [List.mem_map, not_exists, not_and, bne_iff_ne]
  exact forall₂_congr fun _ _ => ne_comm

theorem contains_eq_false {t : Table κ α} {k : κ} : t.contains k = false ↔ k ∉ t.keys := by
  rw [contains, Option.isSome_eq_false_iff, Option.isNone_iff_eq_none]
  exact lookup_eq_none

theorem mem_of_find? {t : Table κ α} {k : κ} {a : α} (found : t.find? k = some a) :
    (k, a) ∈ t.entries := by
  obtain ⟨before, after, entries, -⟩ := List.lookup_eq_some_iff.mp found
  rw [entries]
  exact List.mem_append_right before List.mem_cons_self

theorem find?_of_mem {t : Table κ α} {k : κ} {a : α} (once : t.keys.Nodup)
    (mem : (k, a) ∈ t.entries) : t.find? k = some a := by
  obtain ⟨before, after, entries⟩ := List.append_of_mem mem
  refine List.lookup_eq_some_iff.mpr ⟨before, after, entries, fun entry earlier => ?_⟩
  -- the key stands once, so no entry before has it
  rw [keys, entries, List.map_append, List.map_cons] at once
  have apart := List.disjoint_of_nodup_append once (List.mem_map_of_mem earlier)
  rw [bne_iff_ne]
  rintro rfl
  exact apart List.mem_cons_self

theorem keys_insert {t : Table κ α} {k : κ} (absent : k ∉ t.keys) (a : α) :
    (t.insert k a).keys = t.keys ++ [k] := by
  rw [insert, put_of_not_mem absent]
  simp [keys]

theorem mem_put {k : κ} {a : α} {entries : List (κ × α)} {entry : κ × α}
    (mem : entry ∈ put k a entries) : entry = (k, a) ∨ entry ∈ entries := by
  induction entries with
  | nil => exact .inl (List.mem_singleton.mp mem)
  | cons first rest ih =>
    rw [put] at mem
    split at mem
    · rcases List.mem_cons.mp mem with new | old
      · exact .inl new
      · exact .inr (List.mem_cons_of_mem _ old)
    · rcases List.mem_cons.mp mem with rfl | later
      · exact .inr (by simp)
      · exact (ih later).imp id (List.mem_cons_of_mem _)

/-! ## Other keys and values -/

section

variable {κ' β : Type} [DecidableEq κ'] {f : κ → κ'} {g : α → β}

/-- The same entries under other keys and with other values. -/
def rekey (f : κ → κ') (g : α → β) (t : Table κ α) : Table κ' β := ⟨t.entries.map (Prod.map f g)⟩

theorem lookup_map {k : κ} {entries : List (κ × α)}
    (apart : ∀ j ∈ entries.map Prod.fst, f j = f k → j = k) :
    (entries.map (Prod.map f g)).lookup (f k) = (entries.lookup k).map g := by
  induction entries with
  | nil => rfl
  | cons entry rest ih =>
    rw [List.map_cons, List.forall_mem_cons] at apart
    rw [List.map_cons, lookup_cons_eq, lookup_cons_eq]
    by_cases here : k = entry.1
    · simp [here]
    · have moved : f k ≠ f entry.1 := fun same => here (apart.1 same.symm).symm
      simp [here, moved, ih apart.2]

/-- What can be found under a key is found under the new key, unless the new key was given twice. -/
theorem find?_rekey {t : Table κ α} {k : κ} (apart : ∀ j ∈ t.keys, f j = f k → j = k) :
    (t.rekey f g).find? (f k) = (t.find? k).map g :=
  lookup_map apart

theorem insert_rekey (injective : Function.Injective f) (t : Table κ α) (k : κ) (a : α) :
    (t.rekey f g).insert (f k) (g a) = (t.insert k a).rekey f g := by
  have entries : ∀ entries : List (κ × α),
      put (f k) (g a) (entries.map (Prod.map f g)) = (put k a entries).map (Prod.map f g) := by
    intro entries
    induction entries with
    | nil => rfl
    | cons entry rest ih =>
      by_cases here : entry.1 = k
      · simp [put, here]
      · have moved : f entry.1 ≠ f k := fun same => here (injective same)
        simp [put, here, moved, ih, Prod.map]
  exact congrArg Table.mk (entries t.entries)

end

end Cinder.Table
