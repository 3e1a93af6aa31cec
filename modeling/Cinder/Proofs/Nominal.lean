import Cinder.Proofs.Reports.Types

/-!
# Structs are nominal

Structs are declared in the file scope only, each under its own name, and never twice. So wherever a
struct is found in the analysis of a program, it is the one that the file scope has under its name.
What is found about a dot-access fits together: it has a struct exactly if its field is bound to a
struct variable, and then it is the struct of that variable.
-/
namespace Cinder

/-- The struct of a struct variable. -/
def Symbol.definition? : Symbol → Option StructDef
  | structVar _ _ definition => some definition
  | _ => none

theorem Exp.fieldsAll_append (es more : List Exp) :
    Exp.fieldsAll (es ++ more) = Exp.fieldsAll es ++ Exp.fieldsAll more := by
  induction es with
  | nil => rfl
  | cons e es ih => rw [List.cons_append, fieldsAll, ih, fieldsAll, List.append_assoc]

namespace Scoping

/-! ## Structs of the file scope -/

/-- The file scope has the struct under the name of the struct. -/
def Holds (globals : Scope) (d : StructDef) : Prop := globals.find? d.name = some (.structDef d)

/-- All structs of a symbol are held, and a struct variable has the one that its type names. -/
def Anchored (globals : Scope) : Symbol → Prop
  | .plain _ τ => τ = .int ∨ τ = .bool
  | .function _ _ _ => True
  | .structDef d => Holds globals d
  | .structVar _ typeName d => d.name = typeName.name ∧ Holds globals d

/-- Symbols that stand under their own names and are anchored in the file scope. -/
structure Lawful (globals scope : Scope) : Prop where
  labelled : Labelled scope
  anchored : ∀ entry ∈ scope.entries, Anchored globals entry.2

/-- A file scope in which the fields of structs are anchored, too. -/
structure LawfulFile (globals : Scope) : Prop extends Lawful globals globals where
  fields : ∀ d, Holds globals d → ∀ s ∈ d.fields, Anchored globals s

/-- What a file scope holds it also holds later. -/
def Persists (globals later : Scope) : Prop := ∀ d, Holds globals d → Holds later d

variable {globals later scope : Scope} {env : Env} {name : Text} {s : Symbol} {d : StructDef}

theorem Anchored.mono (anchored : Anchored globals s) (persists : Persists globals later) :
    Anchored later s := by
  cases s with
  | plain _ τ => exact anchored
  | function _ _ _ => trivial
  | structDef d => exact persists d anchored
  | structVar _ typeName d => exact ⟨anchored.1, persists d anchored.2⟩

theorem Lawful.mono (lawful : Lawful globals scope) (persists : Persists globals later) :
    Lawful later scope := by
  refine ⟨lawful.labelled, ?_⟩
  intro entry mem
  exact (lawful.anchored entry mem).mono persists

theorem lawful_empty (globals : Scope) : Lawful globals .empty := by
  constructor
  · intro entry mem
    cases mem
  · intro entry mem
    cases mem

theorem Lawful.insert (lawful : Lawful globals scope) (free : scope.contains name = false)
    (own : s.name = name) (anchored : Anchored globals s) :
    Lawful globals (scope.insert name s) := by
  constructor
  · exact labelled_insert lawful.labelled (Table.contains_eq_false.mp free) own
  · intro entry mem
    rcases Table.mem_put mem with rfl | old
    · exact anchored
    · exact lawful.anchored entry old

theorem persists_insert (free : globals.contains name = false) (s : Symbol) :
    Persists globals (globals.insert name s) := by
  intro d held
  have other : d.name ≠ name := by
    rintro rfl
    rw [Table.contains, held] at free
    cases free
  rw [Holds, Table.find?_insert, if_neg other]
  exact held

/-- A free name is declared in the file scope. -/
theorem LawfulFile.insert (file : LawfulFile globals) (free : globals.contains name = false)
    (own : s.name = name) (anchored : Anchored (globals.insert name s) s)
    (inner : ∀ d, s = .structDef d → ∀ field ∈ d.fields, Anchored globals field) :
    LawfulFile (globals.insert name s) := by
  have persists := persists_insert free s
  refine ⟨(file.toLawful.mono persists).insert free own anchored, ?_⟩
  intro d held field mem
  rw [Holds, Table.find?_insert] at held
  split at held
  · exact (inner d (Option.some.inj held) field mem).mono persists
  · exact (file.fields d held field mem).mono persists

theorem lawfulFile_empty : LawfulFile .empty := by
  refine ⟨lawful_empty _, ?_⟩
  intro d held
  cases held

/-! ## Environments -/

/-- Every scope of an environment is lawful. -/
def LawfulEnv (globals : Scope) (env : Env) : Prop := ∀ scope ∈ env, Lawful globals scope

theorem LawfulEnv.cons (first : Lawful globals scope) (rest : LawfulEnv globals env) :
    LawfulEnv globals (scope :: env) :=
  List.forall_mem_cons.mpr ⟨first, rest⟩

theorem Lawful.alone (lawful : Lawful globals scope) : LawfulEnv globals [scope] :=
  .cons lawful fun _ mem => nomatch mem

theorem LawfulEnv.find (lawful : LawfulEnv globals env) (found : env.find name = some s) :
    Anchored globals s ∧ s.name = name := by
  obtain ⟨scope, mem, here⟩ := List.exists_of_findSome?_eq_some found
  have entry := Table.mem_of_find? here
  exact ⟨(lawful scope mem).anchored _ entry, (lawful scope mem).labelled _ entry⟩

theorem LawfulEnv.struct (lawful : LawfulEnv globals env) (found : env.struct name = some d) :
    d.name = name ∧ Holds globals d := by
  obtain ⟨held, own⟩ := lawful.find (Rules.struct_eq_some.mp found)
  exact ⟨own, held⟩

theorem holds_ofSymbol? {symbol? : Option Symbol}
    (anchored : ∀ s, symbol? = some s → Anchored globals s)
    (base : Base.ofSymbol? symbol? = .struct d) : Holds globals d := by
  cases symbol? with
  | none => cases base
  | some s =>
    cases s with
    | structVar name typeName definition =>
      cases base
      exact (anchored _ rfl).2
    | _ => cases base

/-- What a dot-access selects from is held. -/
theorem LawfulEnv.base (lawful : LawfulEnv globals env) (file : LawfulFile globals) : (e : Exp) →
    {d : StructDef} → Base.of env e = .struct d → Holds globals d
  | .ident _, _, base => holds_ofSymbol? (fun _ found => (lawful.find found).1) base
  | .dot inner field, _, base => by
    apply holds_ofSymbol? ?_ base
    intro s found
    cases outer : Base.of env inner with
    | struct d =>
      rw [outer] at found
      have held := LawfulEnv.base lawful file inner outer
      exact file.fields d held s (List.mem_of_find?_eq_some found)
    | _ =>
      rw [outer] at found
      cases found

/-! ## Findings -/

namespace Findings

variable {f g : Findings} {id : Ident}

theorem not_mem_of_nodes (absent : id.node ∉ f.nodes) :
    f.bindings.symbolOf id = none ∧ f.bindings.structOf id = none := by
  simp only [nodes, List.mem_append, not_or] at absent
  exact ⟨Table.lookup_eq_none.mpr absent.1.1, Table.lookup_eq_none.mpr absent.1.2⟩

theorem symbolOf_append (f g : Findings) (id : Ident) :
    (f ++ g).bindings.symbolOf id = (f.bindings.symbolOf id).or (g.bindings.symbolOf id) :=
  List.lookup_append

theorem structOf_append (f g : Findings) (id : Ident) :
    (f ++ g).bindings.structOf id = (f.bindings.structOf id).or (g.bindings.structOf id) :=
  List.lookup_append

/-- A dot-access with this field has the struct of the variable that its field is bound to. -/
def Selects (f : Findings) (id : Ident) : Prop :=
  f.bindings.structOf id = (f.bindings.symbolOf id).bind Symbol.definition?

theorem Selects.left (h : f.Selects id) (absent : id.node ∉ g.nodes) : (f ++ g).Selects id := by
  obtain ⟨unbound, none⟩ := not_mem_of_nodes absent
  rw [Selects, symbolOf_append, structOf_append, unbound, none, Option.or_none, Option.or_none]
  exact h

theorem Selects.right (h : g.Selects id) (absent : id.node ∉ f.nodes) : (f ++ g).Selects id := by
  obtain ⟨unbound, none⟩ := not_mem_of_nodes absent
  rw [Selects, symbolOf_append, structOf_append, unbound, none, Option.none_or, Option.none_or]
  exact h

end Findings

/-- Findings about a part of a program with these identifiers and these fields of dot-accesses. -/
structure Coherent (globals : Scope) (ids : List Nat) (fields : List Ident) (f : Findings) :
    Prop where
  within : ∀ n ∈ f.nodes, n ∈ ids
  among : ∀ id ∈ fields, id.node ∈ ids
  anchored : ∀ entry ∈ f.idents, Anchored globals entry.2
  held : ∀ entry ∈ f.dots, Holds globals entry.2
  selects : ∀ id ∈ fields, f.Selects id

namespace Coherent

variable {ids more : List Nat} {fields others : List Ident} {f g : Findings}

theorem append (first : Coherent globals ids fields f) (second : Coherent globals more others g)
    (apart : ids.Disjoint more) : Coherent globals (ids ++ more) (fields ++ others) (f ++ g) := by
  constructor
  · intro n mem
    rw [List.mem_append]
    exact (Findings.mem_nodes_append.mp mem).imp (first.within n) (second.within n)
  · intro id mem
    rw [List.mem_append] at mem ⊢
    exact mem.imp (first.among id) (second.among id)
  · exact List.forall_mem_append.mpr ⟨first.anchored, second.anchored⟩
  · exact List.forall_mem_append.mpr ⟨first.held, second.held⟩
  · intro id mem
    rcases List.mem_append.mp mem with here | there
    · refine (first.selects id here).left ?_
      intro known
      exact apart (first.among id here) (second.within _ known)
    · refine (second.selects id there).right ?_
      intro known
      exact apart (first.within _ known) (second.among id there)

theorem widen (h : Coherent globals ids fields f) (sub : ∀ n ∈ ids, n ∈ more) :
    Coherent globals more fields f := by
  refine ⟨?_, ?_, h.anchored, h.held, h.selects⟩
  · intro n mem
    exact sub n (h.within n mem)
  · intro id mem
    exact sub _ (h.among id mem)

theorem mono (h : Coherent globals ids fields f) (persists : Persists globals later) :
    Coherent later ids fields f := by
  refine ⟨h.within, h.among, ?_, ?_, h.selects⟩
  · intro entry mem
    exact (h.anchored entry mem).mono persists
  · intro entry mem
    exact persists _ (h.held entry mem)

/-- Nothing is found out about any identifier. -/
theorem silent (empty : f.nodes = []) : Coherent globals ids [] f := by
  have known := empty
  simp only [Findings.nodes, List.append_eq_nil_iff, List.map_eq_nil_iff] at known
  obtain ⟨⟨idents, dots⟩, -⟩ := known
  constructor
  · intro n mem
    rw [empty] at mem
    cases mem
  · intro id mem
    cases mem
  · intro entry mem
    rw [idents] at mem
    cases mem
  · intro entry mem
    rw [dots] at mem
    cases mem
  · intro id mem
    cases mem

theorem binds (id : Ident) (anchored : Anchored globals s) :
    Coherent globals [id.node] [] (.bind id s) := by
  constructor
  · intro n mem
    exact mem
  · intro other mem
    cases mem
  · intro entry mem
    obtain rfl := List.mem_singleton.mp mem
    exact anchored
  · intro entry mem
    cases mem
  · intro other mem
    cases mem

end Coherent

/-! ## Expressions -/

theorem coherent_use (lawful : LawfulEnv globals env) (id : Ident) :
    Coherent globals [id.node] [] (use env id) := by
  rw [use]
  cases found : env.find id.name with
  | none => exact .silent rfl
  | some s => exact .binds id (lawful.find found).1

theorem coherent_select (file : LawfulFile globals) {base : Base}
    (held : ∀ d, base = .struct d → Holds globals d) (position : Position) (field : Ident) :
    Coherent globals [field.node] [field] (select base position field) := by
  have among : ∀ id ∈ [field], id.node ∈ [field.node] := by simp
  have bad : ∀ diagnostics, Coherent globals [field.node] [field]
      { bad := [field.node], diagnostics := diagnostics } := by
    intro diagnostics
    refine ⟨fun n mem => mem, among, by simp, by simp, ?_⟩
    intro id _
    rfl
  cases base with
  | unbound => exact bad []
  | other => exact bad _
  | struct d =>
    rw [select]
    cases found : d.field? field.name with
    | none => exact bad _
    | some s =>
      have anchored := file.fields d (held d rfl) s (List.mem_of_find?_eq_some found)
      cases s with
      | structVar name typeName inner =>
        refine ⟨?_, among, ?_, ?_, ?_⟩
        · intro n mem
          simpa [Findings.nodes] using mem
        · exact List.forall_mem_singleton.mpr anchored
        · exact List.forall_mem_singleton.mpr anchored.2
        · intro id mem
          obtain rfl := List.mem_singleton.mp mem
          simp [Findings.Selects, Findings.bindings, Bindings.structOf, Bindings.symbolOf,
            Table.find?, Symbol.definition?]
      | _ =>
        -- a field that is no struct variable is bound like any other identifier
        have bound := Coherent.binds field anchored
        refine ⟨bound.within, among, bound.anchored, bound.held, ?_⟩
        intro id mem
        obtain rfl := List.mem_singleton.mp mem
        simp [Findings.Selects, Findings.bindings, Findings.bind, Bindings.structOf,
          Bindings.symbolOf, Table.find?, Symbol.definition?]

mutual

theorem coherent_exp (lawful : LawfulEnv globals env) (file : LawfulFile globals) : (e : Exp) →
    (nodes e.idents).Nodup → Coherent globals (nodes e.idents) e.fields (exp env e)
  | .int _ _ _, _ | .string _ _, _ | .bool _ _, _ => .silent rfl
  | .ident id, _ => coherent_use lawful id
  | .dot base field, distinct => by
    rw [Exp.idents, nodes_append] at distinct ⊢
    obtain ⟨left, _, apart⟩ := List.nodup_append'.mp distinct
    have selected := coherent_select file (fun _ => lawful.base file base) base.position field
    exact (coherent_exp lawful file base left).append selected apart
  | .assign target value, distinct => by
    rw [Exp.idents, nodes_append] at distinct ⊢
    obtain ⟨left, right, apart⟩ := List.nodup_append'.mp distinct
    exact (coherent_exp lawful file target left).append (coherent_exp lawful file value right) apart
  | .call callee args, distinct => by
    obtain ⟨apart, rest⟩ := List.nodup_cons.mp distinct
    exact (coherent_use lawful callee).append (coherent_exps lawful file args rest)
      (by simpa using apart)
  | .unary _ operand, distinct => coherent_exp lawful file operand distinct
  | .binary _ left right, distinct => by
    rw [Exp.idents, nodes_append] at distinct ⊢
    obtain ⟨first, second, apart⟩ := List.nodup_append'.mp distinct
    exact (coherent_exp lawful file left first).append (coherent_exp lawful file right second) apart

theorem coherent_exps (lawful : LawfulEnv globals env) (file : LawfulFile globals) :
    (es : List Exp) → (nodes (Exp.identsAll es)).Nodup →
    Coherent globals (nodes (Exp.identsAll es)) (Exp.fieldsAll es) (exps env es)
  | [], _ => .silent rfl
  | e :: es, distinct => by
    rw [Exp.identsAll, nodes_append] at distinct ⊢
    obtain ⟨first, second, apart⟩ := List.nodup_append'.mp distinct
    exact (coherent_exp lawful file e first).append (coherent_exps lawful file es second) apart

end

theorem coherent_alone (lawful : LawfulEnv globals env) (file : LawfulFile globals) (e : Exp)
    (distinct : (nodes e.idents).Nodup) :
    Coherent globals (nodes e.idents) (Exp.fieldsAll [e]) (exp env e) := by
  rw [Exp.fieldsAll, Exp.fieldsAll, List.append_nil]
  exact coherent_exp lawful file e distinct

end Scoping

end Cinder
