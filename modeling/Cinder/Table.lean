/-!
Tables: finite maps that keep their keys in the order in which they were first put in. A table is
seen through `find?`; each operation has a lemma that says what can be found afterwards.
-/
namespace Cinder

structure Table (κ α : Type) where
  entries : List (κ × α)

namespace Table

variable {κ α : Type}

def empty : Table κ α := ⟨[]⟩

def keys (t : Table κ α) : List κ := t.entries.map Prod.fst

def values (t : Table κ α) : List α := t.entries.map Prod.snd

def size (t : Table κ α) : Nat := t.entries.length

variable [DecidableEq κ]

def find? (t : Table κ α) (k : κ) : Option α := t.entries.lookup k

def contains (t : Table κ α) (k : κ) : Bool := (t.find? k).isSome

/-- The entries with `k` mapped to `a`: in place if `k` is a key, at the end otherwise. -/
def put (k : κ) (a : α) : List (κ × α) → List (κ × α)
  | [] => [(k, a)]
  | (k', a') :: rest => if k' = k then (k, a) :: rest else (k', a') :: put k a rest

def insert (t : Table κ α) (k : κ) (a : α) : Table κ α := ⟨put k a t.entries⟩

def erase (t : Table κ α) (k : κ) : Table κ α := ⟨t.entries.filter (fun entry => entry.1 ≠ k)⟩

@[simp] theorem find?_empty (k : κ) : (empty : Table κ α).find? k = none := rfl

theorem lookup_cons_eq (j : κ) (entry : κ × α) (entries : List (κ × α)) :
    (entry :: entries).lookup j = if j = entry.1 then some entry.2 else entries.lookup j := by
  obtain ⟨k, a⟩ := entry
  by_cases same : j = k
  · simp [same]
  · simp [List.lookup_cons, same, beq_false_of_ne same]

theorem lookup_put (k j : κ) (a : α) (entries : List (κ × α)) :
    (put k a entries).lookup j = if j = k then some a else entries.lookup j := by
  induction entries with
  | nil => rw [put, lookup_cons_eq]
  | cons entry rest ih =>
    by_cases found : entry.1 = k
    · simp only [put, found, if_true, lookup_cons_eq]
      by_cases here : j = k <;> simp [here]
    · simp only [put, found, if_false, lookup_cons_eq, ih]
      by_cases here : j = entry.1
      · simp [here, found]
      · simp [here]

/-- An entry is found under its own key, and the other keys are as they were. -/
theorem find?_insert (t : Table κ α) (k j : κ) (a : α) :
    (t.insert k a).find? j = if j = k then some a else t.find? j :=
  lookup_put k j a t.entries

theorem lookup_filter_ne (k j : κ) (entries : List (κ × α)) :
    (entries.filter (fun entry => entry.1 ≠ k)).lookup j
      = if j = k then none else entries.lookup j := by
  induction entries with
  | nil => simp
  | cons entry rest ih =>
    by_cases gone : entry.1 = k
    · simp only [List.filter_cons, gone, ne_eq, not_true, decide_false, Bool.false_eq_true,
        if_false] at ih ⊢
      rw [ih, lookup_cons_eq, gone]
      split <;> rfl
    · rw [List.filter_cons_of_pos (by simpa using gone), lookup_cons_eq, lookup_cons_eq, ih]
      by_cases here : j = entry.1
      · simp [here, gone]
      · simp [here]

/-- Nothing is found under an erased key, and the other keys are as they were. -/
theorem find?_erase (t : Table κ α) (k j : κ) :
    (t.erase k).find? j = if j = k then none else t.find? j :=
  lookup_filter_ne k j t.entries

end Table

end Cinder
