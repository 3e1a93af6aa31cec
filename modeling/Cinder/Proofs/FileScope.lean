import Cinder.Proofs.Visits

/-!
# The file scope

A declaration of the file leaves the file scope as it is, or it adds one entry to it, under its own
name, which was free before. So an entry of the file scope is never changed by a later declaration,
and a struct in it comes from the declaration of a struct.
-/
namespace Cinder

/-- The identifier that a declaration of the file declares. -/
def Decl.ident : Decl → Ident
  | var d => d.name
  | fn d => d.name
  | struct d => d.name

namespace Scoping

variable {p : Program} {globals : Scope}

/-! ## One declaration -/

theorem decl_cases (globals : Scope) (d : Decl) :
    (decl globals d).1 = globals ∨
      ∃ s, globals.contains d.ident.name = false ∧
        (decl globals d).1 = globals.insert d.ident.name s ∧
        (d.ident.node, s) ∈ (decl globals d).2.idents ∧
        ∀ struct, s = .structDef struct → ∃ e, d = .struct e := by
  cases d with
  | var d =>
    simp only [decl, declareAll, Decl.ident]
    cases taken : globals.contains d.name.name with
    | true => exact .inl rfl
    | false =>
      cases accepted : (candidate [globals] d).1 with
      | none =>
        rw [declare_rejected accepted]
        exact .inl rfl
      | some s =>
        rw [declare_accepted accepted]
        refine .inr ⟨s, rfl, rfl, by simp [Findings.bind], ?_⟩
        rintro struct rfl
        cases isVariable_of_candidate accepted
  | fn d =>
    simp only [decl, fnDecl, Decl.ident]
    cases globals.contains d.name.name with
    | true => exact .inl rfl
    | false =>
      refine .inr ⟨_, rfl, rfl, by simp [Findings.bind], ?_⟩
      rintro struct ⟨⟩
  | struct d =>
    simp only [decl, structDecl, Decl.ident]
    cases globals.contains d.name.name with
    | true => exact .inl rfl
    | false => exact .inr ⟨_, rfl, rfl, by simp [Findings.bind], fun _ _ => ⟨d, rfl⟩⟩

theorem find?_decl {name : Text} {s : Symbol} (found : globals.find? name = some s) (d : Decl) :
    (decl globals d).1.find? name = some s := by
  rcases decl_cases globals d with same | ⟨t, free, new, -, -⟩
  · rwa [same]
  · have other : name ≠ d.ident.name := by
      rintro rfl
      rw [Table.contains, found] at free
      cases free
    rwa [new, Table.find?_insert, if_neg other]

/-! ## Declarations one after the other -/

/-- What is declared stays as it is. -/
theorem find?_decls {name : Text} {s : Symbol} (found : globals.find? name = some s)
    (ds : List Decl) : (decls globals ds).1.find? name = some s := by
  induction ds generalizing globals with
  | nil => exact found
  | cons d ds ih => exact ih (find?_decl found d)

/-- A struct of the file scope was there before, or one of the declarations is that of the
struct. -/
theorem holds_decls {struct : StructDef} (ds : List Decl)
    (held : Holds (decls globals ds).1 struct) :
    Holds globals struct ∨
      ∃ d, .struct d ∈ ds ∧ (d.name.node, .structDef struct) ∈ (decls globals ds).2.idents := by
  induction ds generalizing globals with
  | nil => exact .inl held
  | cons d ds ih =>
    rcases ih held with early | ⟨e, mem, bound⟩
    · rcases decl_cases globals d with same | ⟨s, -, new, bound, kind⟩
      · rw [same] at early
        exact .inl early
      · rw [Holds, new, Table.find?_insert] at early
        split at early
        · cases early
          obtain ⟨e, rfl⟩ := kind struct rfl
          exact .inr ⟨e, List.mem_cons_self, List.mem_append_left _ bound⟩
        · exact .inl early
    · exact .inr ⟨e, List.mem_cons_of_mem _ mem, List.mem_append_right _ bound⟩

/-! ## Declarations of a program -/

theorem proper_before (proper : Proper p.idents) {before after : List Decl}
    (split : p.decls = before ++ after) : Proper (before.flatMap Decl.idents) := by
  rw [Program.idents, split, List.flatMap_append] at proper
  exact proper.append.1

theorem sited_decl (proper : Proper p.idents) {before after : List Decl} {d : Decl}
    (split : p.decls = before ++ d :: after) :
    Sited p d.idents [(decls .empty before).1] (decl (decls .empty before).1 d).2
      (Resolver.initial.extend [(decls .empty before).1] (decls .empty before).2) := by
  obtain ⟨env, ⟨globals, rfl⟩, -, sited⟩ :=
    placed_of_called proper (called_decls proper before split)
  have same : [globals] = [(decls .empty before).1] := (congrArg Scopes.frames sited.stack).symm
  cases same
  rw [Part.idents, List.flatMap_cons] at sited
  exact sited.left (yields_decls _ sited.pending.right.proper).within

theorem symbolOf_of_mem (proper : Proper p.idents) {final : Resolver}
    (resolved : p.resolve = .ok final) {id : Ident} {s : Symbol}
    (mem : (id.node, s) ∈ (program p).2.idents) : final.bindings.symbolOf id = some s := by
  rw [p.resolve_eq_extend proper] at resolved
  cases resolved
  exact Table.find?_of_mem (@yields_decls .empty p.decls proper).once mem

end Scoping

end Cinder
