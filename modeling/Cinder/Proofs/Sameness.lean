import Cinder.Ty

/-!
# Sameness of types

Types are compared part by part, down through the parameters and results of functions, and a
comparison that comes to `error` fails. Main result: two types are the same if and only if they are
equal and `error` occurs nowhere in them. So sameness is symmetric and transitive but not reflexive.
Besides `error` itself, every function with `error` somewhere inside is not the same as itself.
-/
namespace Cinder.Ty

/-- A type occurs in itself, and in a function where it occurs in a parameter or in the result. -/
inductive Occurs (a : Ty) : Ty → Prop where
  | self : Occurs a a
  | param {p result : Ty} {params : List Ty} (mem : p ∈ params) (inside : Occurs a p) :
      Occurs a (function params result)
  | result {params : List Ty} {result : Ty} (inside : Occurs a result) :
      Occurs a (function params result)

theorem occurs_function_iff {params : List Ty} {result : Ty} :
    Occurs error (function params result) ↔
      (∃ p ∈ params, Occurs error p) ∨ Occurs error result := by
  constructor
  · intro occurs
    cases occurs with
    | param mem inside => exact .inl ⟨_, mem, inside⟩
    | result inside => exact .inr inside
  · rintro (⟨p, mem, inside⟩ | inside)
    · exact .param mem inside
    · exact .result inside

/-- Types without parts are the same if they are equal, but for `error`. -/
theorem same_iff_of_plain {a : Ty} (sound : a.isError = false)
    (plain : ∀ params result, a ≠ function params result) (b : Ty) :
    a.same b = true ↔ a = b ∧ ¬ Occurs error a := by
  have clean : ¬ Occurs error a := by
    intro occurs
    cases occurs with
    | self => cases sound
    | param => exact plain _ _ rfl
    | result => exact plain _ _ rfl
  rw [and_iff_left clean]
  cases a with
  | error => cases sound
  | function params result => exact absurd rfl (plain params result)
  | _ => cases b <;> simp [same]

mutual

/-- Looking for `error` in one of the types is enough, because the other is equal to it. -/
theorem same_iff : (a b : Ty) → (a.same b = true ↔ a = b ∧ ¬ Occurs error a)
  | function params result, function params' result' => by
    have all := sameAll_iff params params'
    have one := same_iff result result'
    rw [same, Bool.and_eq_true, all, one, and_and_and_comm, function.injEq, occurs_function_iff,
      not_or]
    simp only [not_exists, not_and]
  | function _ _, int | function _ _, bool | function _ _, void | function _ _, string
  | function _ _, error | function _ _, struct _ | function _ _, structDef _ => by simp [same]
  | int, b | bool, b | void, b | string, b | struct _, b | structDef _, b =>
    same_iff_of_plain rfl (by simp) b
  | error, b => by simp [same, Occurs.self]

theorem sameAll_iff : (as bs : List Ty) →
    (sameAll as bs = true ↔ as = bs ∧ ∀ a ∈ as, ¬ Occurs error a)
  | [], [] | [], _ :: _ | _ :: _, [] => by simp [sameAll]
  | a :: as, b :: bs => by
    have first := same_iff a b
    have rest := sameAll_iff as bs
    rw [sameAll, Bool.and_eq_true, first, rest, and_and_and_comm, List.cons.injEq,
      List.forall_mem_cons]

end

/-- Two types are the same if and only if they are one and the same type and `error` occurs nowhere
in it. Hence sameness is symmetric and transitive, and reflexive exactly where `error` does not
occur. -/
theorem same_is_identity :
    (∀ a b : Ty, a.same b = true ↔ a = b ∧ ¬ Occurs error a ∧ ¬ Occurs error b) ∧
      (∀ a b : Ty, a.same b = b.same a) ∧
      (∀ a b c : Ty, a.same b = true → b.same c = true → a.same c = true) ∧
      ∀ a : Ty, a.same a = true ↔ ¬ Occurs error a := by
  refine ⟨fun a b => ?_, fun a b => ?_, fun a b c first second => ?_, fun a => ?_⟩
  · rw [same_iff]
    constructor
    · rintro ⟨rfl, clean⟩
      exact ⟨rfl, clean, clean⟩
    · rintro ⟨rfl, clean, -⟩
      exact ⟨rfl, clean⟩
  · rw [Bool.eq_iff_iff, same_iff, same_iff]
    constructor
    · rintro ⟨rfl, clean⟩
      exact ⟨rfl, clean⟩
    · rintro ⟨rfl, clean⟩
      exact ⟨rfl, clean⟩
  · obtain ⟨rfl, -⟩ := (same_iff a b).mp first
    exact second
  · rw [same_iff]
    exact and_iff_right rfl

/-- A function that takes a function is the same as itself, and it is not if `error` stands in the
parameters of its parameter. -/
theorem same_is_identity_nested :
    let f : Ty := function [function [int, struct "P"] (structDef "P"), bool] void
    let g : Ty := function [function [int, error] (structDef "P"), bool] void
    f.same f = true ∧ ¬ Occurs error f ∧ g.isError = false ∧ Occurs error g ∧ g.same g = false ∧
      f.same g = false := by
  intro f g
  have clean : f.same f = true := by decide
  have buried : Occurs error g :=
    .param List.mem_cons_self (.param (List.mem_cons_of_mem _ List.mem_cons_self) .self)
  obtain ⟨identity, symmetric, transitive, reflexive⟩ := same_is_identity
  have whole : f.same f = true := transitive f f f clean clean
  refine ⟨whole, (reflexive f).mp whole, rfl, buried, ?_, ?_⟩
  · exact Bool.eq_false_iff.mpr fun same => (reflexive g).mp same buried
  · exact Bool.eq_false_iff.mpr fun same => ((identity f g).mp same).2.2 buried

end Cinder.Ty
