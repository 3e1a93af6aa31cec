import Cinder.Proofs.Chains
import Cinder.Proofs.FileScope
import Cinder.Proofs.Nominal.Programs

/-!
# Structs inside structs

The fields of a struct are resolved before its name is declared, in the scope of the file alone. So
a field that is itself a struct has a struct that was declared before. Structs do not contain
themselves, neither directly nor through others, and a chain of dot-accesses that follows fields to
the end is no longer than the list of structs.
-/
namespace Cinder

def Decl.struct? : Decl → Option StructDecl
  | struct d => some d
  | _ => none

/-- The declarations of structs, accepted or not. -/
def Program.structs (p : Program) : List StructDecl := p.decls.filterMap Decl.struct?

/-- One struct is declared before another. -/
def Program.Precedes (p : Program) (d e : StructDecl) : Prop :=
  ∃ before after, p.decls = before ++ .struct e :: after ∧ .struct d ∈ before

/-- A declaration of the program has given its name this struct. -/
def Resolver.Declares (r : Resolver) (p : Program) (d : StructDecl) (struct : StructDef) : Prop :=
  .struct d ∈ p.decls ∧ r.bindings.symbolOf d.name = some (.structDef struct)

/-- A field of the second struct is a variable of the first. -/
def Resolver.Contains (r : Resolver) (p : Program) (d e : StructDecl) : Prop :=
  ∃ inner outer field, r.Declares p d inner ∧ r.Declares p e outer ∧ field ∈ outer.fields ∧
    Symbol.definition? field = some inner

/-- The struct of a struct name or of a struct variable. -/
def Symbol.struct? : Symbol → Option StructDef
  | structDef definition => some definition
  | s => s.definition?

/-- A struct that can be reached: through what is bound to an identifier or declared in a scope, as
the struct of a dot-access, or through a field of another. -/
inductive Resolver.Knows (r : Resolver) : StructDef → Prop where
  | bound {s struct} (mem : s ∈ r.bindings.idents.values) (own : s.struct? = some struct) :
      Knows r struct
  | declared {frame s struct} (scope : frame ∈ r.scopes.frames) (mem : s ∈ frame.values)
      (own : s.struct? = some struct) : Knows r struct
  | selected {struct} (mem : struct ∈ r.bindings.dots.values) : Knows r struct
  | field {outer s struct} (known : Knows r outer) (mem : s ∈ outer.fields)
      (own : s.struct? = some struct) : Knows r struct

namespace Scoping

variable {p : Program} {r : Resolver} {d e : StructDecl} {struct inner outer : StructDef}

/-! ## The order of declarations -/

/-- The number of structs that are declared before one. -/
def rank (p : Program) (d : StructDecl) : Nat :=
  (p.structs.map (·.name.node)).idxOf d.name.node

theorem mem_structs {ds : List Decl} : d ∈ ds.filterMap Decl.struct? ↔ .struct d ∈ ds := by
  rw [List.mem_filterMap]
  constructor
  · rintro ⟨other, mem, same⟩
    cases other with
    | struct e =>
      cases same
      exact mem
    | _ => cases same
  · intro mem
    exact ⟨_, mem, rfl⟩

theorem rank_lt_length (mem : .struct d ∈ p.decls) : rank p d < p.structs.length := by
  have inside : d.name.node ∈ p.structs.map (·.name.node) :=
    List.mem_map_of_mem (mem_structs.mpr mem)
  have bound := List.idxOf_lt_length_of_mem inside
  rwa [List.length_map] at bound

theorem rank_lt_of_precedes (proper : Proper p.idents) (precedes : p.Precedes d e) :
    rank p d < rank p e := by
  obtain ⟨before, after, split, mem⟩ := precedes
  have apart : e.name.node ∉ (before.filterMap Decl.struct?).map (·.name.node) := by
    intro known
    obtain ⟨other, inside, same⟩ := List.mem_map.mp known
    rw [Program.idents, split, List.flatMap_append] at proper
    have beside := proper.append.2.2
    refine beside (a := e.name.node) ?_ (by simp [nodes, Decl.idents])
    rw [← same]
    refine List.mem_map_of_mem (List.mem_flatMap.mpr ⟨_, mem_structs.mp inside, ?_⟩)
    exact List.mem_cons_self
  have inside : d.name.node ∈ (before.filterMap Decl.struct?).map (·.name.node) :=
    List.mem_map_of_mem (mem_structs.mpr mem)
  rw [rank, rank, Program.structs, split, List.filterMap_append, List.map_append,
    List.idxOf_append_of_mem inside, List.idxOf_append_of_notMem apart]
  exact Nat.lt_add_right _ (List.idxOf_lt_length_of_mem inside)

theorem precedes_total (first : .struct d ∈ p.decls) (second : .struct e ∈ p.decls) :
    d = e ∨ p.Precedes d e ∨ p.Precedes e d := by
  obtain ⟨before, after, split⟩ := List.append_of_mem second
  rw [split, List.mem_append, List.mem_cons] at first
  rcases first with earlier | same | later
  · exact .inr (.inl ⟨before, after, split, earlier⟩)
  · cases same
    exact .inl rfl
  · obtain ⟨middle, rest, rfl⟩ := List.append_of_mem later
    refine .inr (.inr ⟨before ++ .struct e :: middle, rest, ?_, by simp⟩)
    rw [split, List.append_assoc, List.cons_append]

/-! ## The struct of a declaration -/

/-- A struct is declared under a name that was free, and its fields were accepted in the file scope
as it was before. -/
theorem declares_at (proper : Proper p.idents) (resolved : p.resolve = .ok r)
    {before after : List Decl} (split : p.decls = before ++ .struct d :: after)
    (bound : r.bindings.symbolOf d.name = some (.structDef struct)) :
    (decls .empty before).1.contains d.name.name = false ∧ struct.name = d.name.name ∧
      ∀ field ∈ struct.fields, Anchored (decls .empty before).1 field := by
  have sited := sited_decl proper split
  have file := (upholds_decls lawfulFile_empty before (proper_before proper split)).file
  obtain ⟨-, fields, apart⟩ := @Proper.append [d.name] _ sited.pending.proper
  obtain ⟨coherent, lawful⟩ := coherent_declareAll (fun _ _ => file.toLawful.alone) .empty
    (lawful_empty _) d.fields fields
  rw [(sited.bindings resolved (by simp [nodes, Decl.idents])).1, decl, structDecl] at bound
  split at bound
  · cases bound
  · rename_i taken
    have other : d.name.node ∉ _ := fun known =>
      apart (List.mem_singleton_self _) (coherent.within _ known)
    rw [Findings.symbolOf_append, (Findings.not_mem_of_nodes other).1, Option.none_or,
      Findings.symbolOf_bind] at bound
    cases bound
    refine ⟨Bool.eq_false_iff.mpr taken, rfl, fun field mem => ?_⟩
    obtain ⟨entry, inside, rfl⟩ := List.mem_map.mp mem
    exact lawful.anchored entry inside

/-- A struct in the file scope has been declared. -/
theorem exists_declared (proper : Proper p.idents) (resolved : p.resolve = .ok r)
    {before after : List Decl} (split : p.decls = before ++ after)
    (held : Holds (decls .empty before).1 struct) :
    ∃ d, .struct d ∈ before ∧ r.Declares p d struct := by
  rcases holds_decls before held with none | ⟨d, mem, bound⟩
  · cases none
  · refine ⟨d, mem, ?_, symbolOf_of_mem proper resolved ?_⟩
    · rw [split]
      exact List.mem_append_left _ mem
    · rw [program, split, decls_append]
      exact List.mem_append_left _ bound

theorem Anchored.held {globals : Scope} {s : Symbol} (anchored : Anchored globals s)
    (own : s.struct? = some struct) : Holds globals struct := by
  cases s with
  | structDef definition =>
    cases own
    exact anchored
  | structVar name typeName definition =>
    cases own
    exact anchored.2
  | _ => cases own

theorem struct?_of_definition? {s : Symbol} (own : s.definition? = some struct) :
    s.struct? = some struct := by
  cases s with
  | structDef definition => cases own
  | _ => exact own

/-- What a struct contains was declared before. -/
theorem exists_precedes (proper : Proper p.idents) (resolved : p.resolve = .ok r)
    (declares : r.Declares p e outer) {field : Symbol} (mem : field ∈ outer.fields)
    (struct : field.definition? = some inner) : ∃ d, r.Declares p d inner ∧ p.Precedes d e := by
  obtain ⟨declared, bound⟩ := declares
  obtain ⟨before, after, split⟩ := List.append_of_mem declared
  obtain ⟨-, -, anchored⟩ := declares_at proper resolved split bound
  obtain ⟨d, earlier, declares⟩ :=
    exists_declared proper resolved split ((anchored field mem).held (struct?_of_definition? struct))
  exact ⟨d, declares, before, after, split, earlier⟩

theorem exists_find?_structDecl (globals : Scope) (d : StructDecl) :
    ∃ s, (structDecl globals d).1.find? d.name.name = some s := by
  rw [structDecl]
  split
  · rename_i taken
    exact Option.isSome_iff_exists.mp taken
  · exact ⟨_, by rw [Table.find?_insert, if_pos rfl]⟩

/-- Once a struct has been declared, no other struct is declared under its name. -/
theorem name_ne_of_precedes (proper : Proper p.idents) (resolved : p.resolve = .ok r)
    (first : r.Declares p d inner) (second : r.Declares p e outer) (precedes : p.Precedes d e) :
    inner.name ≠ outer.name := by
  obtain ⟨before, after, split, mem⟩ := precedes
  obtain ⟨free, own, -⟩ := declares_at proper resolved split second.2
  obtain ⟨early, late, rfl⟩ := List.append_of_mem mem
  rw [List.append_assoc, List.cons_append] at split
  obtain ⟨-, own', -⟩ := declares_at proper resolved split first.2
  obtain ⟨s, found⟩ := exists_find?_structDecl (decls .empty early).1 d
  have taken := find?_decls found late
  intro same
  rw [decls_append, decls, ← own, ← same, own', Table.contains, decl, taken] at free
  cases free

/-- A struct has one declaration. -/
theorem declares_unique (proper : Proper p.idents) (resolved : p.resolve = .ok r)
    (first : r.Declares p d struct) (second : r.Declares p e struct) : d = e := by
  rcases precedes_total first.1 second.1 with same | before | after
  · exact same
  · exact absurd rfl (name_ne_of_precedes proper resolved first second before)
  · exact absurd rfl (name_ne_of_precedes proper resolved second first after)

/-! ## Containment -/

theorem rank_lt_of_contains (proper : Proper p.idents) (resolved : p.resolve = .ok r)
    (contains : r.Contains p d e) : rank p d < rank p e := by
  obtain ⟨inner, outer, field, first, second, mem, struct⟩ := contains
  obtain ⟨other, declares, precedes⟩ := exists_precedes proper resolved second mem struct
  obtain rfl := declares_unique proper resolved first declares
  exact rank_lt_of_precedes proper precedes

theorem wellFounded_contains (proper : Proper p.idents) (resolved : p.resolve = .ok r) :
    WellFounded (r.Contains p) :=
  Subrelation.wf (rank_lt_of_contains proper resolved) (measure (rank p)).wf

theorem rank_lt_of_transGen (proper : Proper p.idents) (resolved : p.resolve = .ok r)
    (path : Relation.TransGen (r.Contains p) d e) : rank p d < rank p e := by
  induction path with
  | single contains => exact rank_lt_of_contains proper resolved contains
  | tail _ contains ih => exact ih.trans (rank_lt_of_contains proper resolved contains)

/-! ## Chains -/

/-- Each field of a chain that is found is in a struct declared before the one it was selected
from. -/
theorem length_le_of_path (proper : Proper p.idents) (resolved : p.resolve = .ok r) {s t : Symbol}
    {fields : List Ident} (path : r.bindings.Path s fields t) (struct : s.definition? = some outer)
    (declares : r.Declares p e outer) : fields.length ≤ rank p e + 1 := by
  induction path generalizing outer e with
  | stay s => exact Nat.zero_le _
  | @select s t u definition field rest here found _ _ next ih =>
    obtain rfl : definition = outer := Option.some.inj (here.symm.trans struct)
    rw [List.length_cons]
    cases next with
    | stay => exact Nat.le_add_left _ _
    | select inside =>
      obtain ⟨d, declares', precedes⟩ :=
        exists_precedes proper resolved declares (List.mem_of_find?_eq_some found) inside
      have shorter := ih inside declares'
      have lower := rank_lt_of_precedes proper precedes
      omega

theorem holds_of_knows (proper : Proper p.idents) (resolved : p.resolve = .ok r)
    (knows : r.Knows struct) : Holds (program p).1 struct := by
  obtain ⟨file, -, coherent⟩ := upholds_program proper
  rw [p.resolve_eq_extend proper] at resolved
  cases resolved
  induction knows with
  | bound mem own =>
    obtain ⟨entry, inside, rfl⟩ := List.mem_map.mp mem
    exact (coherent.anchored entry inside).held own
  | declared scope mem own =>
    obtain rfl := List.mem_singleton.mp scope
    obtain ⟨entry, inside, rfl⟩ := List.mem_map.mp mem
    exact (file.anchored entry inside).held own
  | selected mem =>
    obtain ⟨entry, inside, rfl⟩ := List.mem_map.mp mem
    exact coherent.held entry inside
  | field _ mem own ih => exact (file.fields _ ih _ mem).held own

theorem exists_declares_of_knows (proper : Proper p.idents) (resolved : p.resolve = .ok r)
    (knows : r.Knows struct) : ∃ d, r.Declares p d struct := by
  have held := holds_of_knows proper resolved knows
  obtain ⟨d, -, declares⟩ := exists_declared proper resolved (List.append_nil _).symm held
  exact ⟨d, declares⟩

/-- A chain without a report has been followed to its end. -/
theorem path_of_quiet {b : Bindings} {id : Ident} {fields : List Ident} {base? : Option Symbol}
    (chained : b.Chained id fields base? []) :
    ∃ s t, b.symbolOf id = some s ∧ b.Path s fields t := by
  cases chained with
  | undeclared _ blamed =>
    obtain ⟨problem, one, -⟩ := blamed
    cases one
  | declared bound split path _ ends =>
    cases ends with
    | complete =>
      rw [List.append_nil] at split
      rw [split]
      exact ⟨_, _, bound, path⟩
    | notStruct _ blamed | unknownField _ _ blamed =>
      obtain ⟨problem, one, -⟩ := blamed
      cases one

/-- Every struct on the way is declared before the one it was reached from. -/
theorem length_le_structs (proper : Proper p.idents) (resolved : p.resolve = .ok r) {id : Ident}
    {s t : Symbol} {fields : List Ident} (bound : r.bindings.symbolOf id = some s)
    (path : r.bindings.Path s fields t) : fields.length ≤ p.structs.length := by
  cases path with
  | stay => exact Nat.zero_le _
  | select struct found symbol dot next =>
    have mem : s ∈ r.bindings.idents.values := List.mem_map_of_mem (Table.mem_of_find? bound)
    obtain ⟨d, declares⟩ :=
      exists_declares_of_knows proper resolved (.bound mem (struct?_of_definition? struct))
    have short := length_le_of_path proper resolved (.select struct found symbol dot next) struct
      declares
    have inside := rank_lt_length declares.1
    omega

theorem length_le_of_quiet (proper : Proper p.idents) {id : Ident} {fields : List Ident}
    {before : Resolver} (visit : Visited p (.chain id fields) before) :
    ∃ after, Resolve.exp (.chain id fields) before = .ok () after ∧
      (after.diagnostics = before.diagnostics → fields.length ≤ p.structs.length) := by
  obtain ⟨base?, after, final, own, later, -, run, reported, resolved, -, chained⟩ :=
    chained_of_visited proper visit
  refine ⟨after, run, fun quiet => ?_⟩
  obtain rfl : own = [] := List.append_right_eq_self.mp (reported.symm.trans quiet)
  obtain ⟨s, t, bound, path⟩ := path_of_quiet chained
  exact length_le_structs proper resolved bound path

end Scoping

open Scoping (Visited)

/-- Every struct that can be reached has a declaration, and a struct that it contains has one before
that. So containment is well-founded, no struct contains itself in any number of steps, and a chain
of dot-accesses that resolves without a report is no longer than the list of structs. -/
theorem Program.structs_acyclic (p : Program) (distinct : (p.idents.map Ident.node).Nodup)
    (named : ∀ id ∈ p.idents, id.name ≠ []) :
    ∃ r, p.resolve = .ok r ∧
      (∀ struct, r.Knows struct → ∃ d, r.Declares p d struct) ∧
      (∀ e outer, r.Declares p e outer → ∀ field ∈ outer.fields, ∀ inner,
        field.definition? = some inner → ∃ d, r.Declares p d inner ∧ p.Precedes d e) ∧
      WellFounded (r.Contains p) ∧
      (∀ d, ¬ Relation.TransGen (r.Contains p) d d) ∧
      ∀ id fields, .chain id fields ∈ p.parts →
        (∃ before, Visited p (.chain id fields) before) ∧
        ∀ before, Visited p (.chain id fields) before →
          ∃ after, Resolve.exp (.chain id fields) before = .ok () after ∧
            (after.diagnostics = before.diagnostics → fields.length ≤ p.structs.length) := by
  have proper : Scoping.Proper p.idents := ⟨distinct, named⟩
  have resolved := p.resolve_eq_extend proper
  refine ⟨_, resolved, ?_, ?_, Scoping.wellFounded_contains proper resolved, ?_, ?_⟩
  · intro struct knows
    exact Scoping.exists_declares_of_knows proper resolved knows
  · intro e outer declares field mem inner struct
    exact Scoping.exists_precedes proper resolved declares mem struct
  · intro d cycle
    exact absurd (Scoping.rank_lt_of_transGen proper resolved cycle) (Nat.lt_irrefl _)
  · intro id fields part
    refine ⟨Scoping.exists_visited proper part, fun before visit => ?_⟩
    exact Scoping.length_le_of_quiet proper visit

/-- A struct, another one of the same name, which is rejected, and one that contains the first. -/
theorem Program.structs_acyclic_nested :
    let v : Nat → Text → Ident := fun n name => ⟨n, name, ⟨1, n⟩⟩
    let first : StructDecl := ⟨v 0 "A", [⟨.int, v 1 "x"⟩]⟩
    let second : StructDecl := ⟨v 2 "A", [⟨.struct (v 3 "A"), v 4 "a"⟩]⟩
    let third : StructDecl := ⟨v 5 "B", [⟨.struct (v 6 "A"), v 7 "a"⟩]⟩
    let body : Block := .mk [] [.read (.chain (v 11 "b") [v 12 "a", v 13 "x"])]
    let p : Program := ⟨[.struct first, .struct second, .struct third,
      .fn ⟨.void, v 8 "f", [⟨.struct (v 9 "B"), v 10 "b"⟩], body⟩]⟩
    (p.idents.map Ident.node).Nodup ∧ (∀ id ∈ p.idents, id.name ≠ []) ∧
      .chain (v 11 "b") [v 12 "a", v 13 "x"] ∈ p.parts ∧
      ∃ r, p.resolve = .ok r ∧ r.Contains p first third ∧ r.bindings.symbolOf second.name = none ∧
        WellFounded (r.Contains p) ∧ ¬ Relation.TransGen (r.Contains p) third third ∧
        ∃ before after, Resolve.exp (.chain (v 11 "b") [v 12 "a", v 13 "x"]) before = .ok () after ∧
          (after.diagnostics = before.diagnostics → 2 ≤ p.structs.length) := by
  intro v first second third body p
  have distinct : (p.idents.map Ident.node).Nodup := by decide
  have named : ∀ id ∈ p.idents, id.name ≠ [] := by decide
  have part : .chain (v 11 "b") [v 12 "a", v 13 "x"] ∈ p.parts := List.mem_cons_self
  obtain ⟨r, resolved, -, -, founded, acyclic, chains⟩ := p.structs_acyclic distinct named
  obtain ⟨⟨before, visit⟩, every⟩ := chains _ _ part
  obtain ⟨after, run, short⟩ := every before visit
  refine ⟨distinct, named, part, r, resolved, ?_, ?_, founded, acyclic third, before, after, run,
    short⟩
  · rw [p.resolve_eq_extend ⟨distinct, named⟩] at resolved
    cases resolved
    exact ⟨_, _, _, ⟨by simp [p], rfl⟩, ⟨by simp [p], rfl⟩, List.mem_cons_self, rfl⟩
  · rw [p.resolve_eq_extend ⟨distinct, named⟩] at resolved
    cases resolved
    rfl

end Cinder
