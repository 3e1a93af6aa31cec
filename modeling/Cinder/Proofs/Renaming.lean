import Cinder.Proofs.Reformatting
import Cinder.Proofs.Tape.Source

/-!
# Renaming

A renaming gives the identifiers of a program other names and leaves everything else in its place. If
different names stay different, an analysis finds the same: it reports the same at the same positions,
binds the same identifiers to symbols of the same kind, and finds the same types, in which structs have
their new names.
-/
namespace Cinder

open Scoping (Proper)

/-- Other names for the same identifiers. -/
def Relabelling.renaming (r : Text → Text) (injective : Function.Injective r) : Relabelling :=
  ⟨id, r, id, injective⟩

/-- The analysis of a renamed program tells the same about it under the new names. -/
structure Analysis.Renamed (ρ : Relabelling) (p : Program) (a b : Analysis) : Prop where
  diagnostics : b.diagnostics = a.diagnostics
  bound : b.bindings.idents.keys = a.bindings.idents.keys
  kinds : ∀ id ∈ p.idents, (b.bindings.symbolOf (id.relabel ρ)).map Symbol.kind
    = (a.bindings.symbolOf id).map Symbol.kind
  symbols : ∀ id ∈ p.idents, (b.bindings.symbolOf (id.relabel ρ)).map Symbol.type
    = (a.bindings.symbolOf id).map fun s => s.type.rename ρ.name
  record : b.typing.record
    = a.typing.record.map fun entry => (entry.1.relabel ρ, entry.2.rename ρ.name)

section

variable {r : Text → Text} {injective : Function.Injective r}

theorem Diagnostic.relabel_renaming (ds : List Diagnostic) :
    ds.map (Diagnostic.relabel (.renaming r injective)) = ds :=
  List.map_id ds

theorem Bindings.keys_renaming (b : Bindings) :
    (b.relabel (.renaming r injective)).idents.keys = b.idents.keys := by
  simp only [Bindings.relabel, Table.rekey, Table.keys, List.map_map]
  rfl

/-- A renamed program has the same identifiers, and none of them lost its name. -/
theorem Scoping.Proper.renaming {p : Program} (proper : Proper p.idents)
    (nonempty : ∀ name, name ≠ [] → r name ≠ []) :
    Proper (p.relabel (.renaming r injective)).idents := by
  rw [Program.idents_relabel]
  constructor
  · have same : nodes (p.idents.map (Ident.relabel (.renaming r injective))) = nodes p.idents := by
      rw [nodes, nodes, List.map_map]
      rfl
    rw [same]
    exact proper.distinct
  · intro id mem
    obtain ⟨old, inside, rfl⟩ := List.mem_map.mp mem
    exact nonempty old.name (proper.named old inside)

end

/-- What is relabelled with new names only is renamed. -/
theorem Scoping.renamed_relabel {r : Text → Text} {injective : Function.Injective r} {p : Program}
    (proper : Proper p.idents) (kept : Proper (p.relabel (.renaming r injective)).idents) :
    Analysis.Renamed (.renaming r injective) p (analysis p)
      ((analysis p).relabel (.renaming r injective)) := by
  have found := fun {id} => @symbolOf_analysis_relabel (.renaming r injective) p proper kept id
  constructor
  · exact Diagnostic.relabel_renaming _
  · exact Bindings.keys_renaming _
  · intro id mem
    rw [Analysis.relabel, found mem, Option.map_map]
    congr 1
    funext s
    exact s.kind_relabel
  · intro id mem
    rw [Analysis.relabel, found mem, Option.map_map]
    congr 1
    funext s
    exact s.type_relabel
  · rfl

/-- Analysis commutes with renaming. -/
theorem Program.analyze_renamed (p : Program) (distinct : (p.idents.map Ident.node).Nodup)
    (named : ∀ id ∈ p.idents, id.name ≠ []) (r : Text → Text) (injective : Function.Injective r)
    (nonempty : ∀ name, name ≠ [] → r name ≠ []) :
    ∃ a b, p.analyze = .ok a ∧ (p.relabel (.renaming r injective)).analyze = .ok b ∧
      Analysis.Renamed (.renaming r injective) p a b := by
  have proper : Proper p.idents := ⟨distinct, named⟩
  have kept := @Proper.renaming r injective p proper nonempty
  refine ⟨_, _, Program.analyze_eq_scoping proper, Program.analyze_eq_scoping kept, ?_⟩
  rw [Scoping.analysis_relabel proper kept]
  exact Scoping.renamed_relabel proper kept

/-- All names get an underscore in front. The formal `s` still hides the struct variable, so nothing can
be selected from it, and what is given back still is a struct. -/
theorem Program.analyze_renamed_underscore :
    ∃ (p : Program) (injective : Function.Injective fun name : Text => "_" ++ name),
      (Text.parse "struct S \x7bint x;\x7d; struct S s; bool f(int s) \x7bstruct S t; t.x = s.y; return t;\x7d").program
        = some p ∧
      ∃ a b, p.analyze = .ok a ∧
        (p.relabel (.renaming (fun name => "_" ++ name) injective)).analyze = .ok b ∧
        Analysis.Renamed (.renaming (fun name => "_" ++ name) injective) p a b ∧
        b.diagnostics = [.error ⟨1, 65⟩ .notStruct, .error ⟨1, 77⟩ .returnType] ∧
        b.typing.types.map Ty.render
          = (["_S", "int", "int", "int", "error", "error", "error", "_S"] : List Text) := by
  have injective : Function.Injective fun name : Text => "_" ++ name :=
    fun _ _ same => List.append_cancel_left same
  let types (a : Analysis) : List Text :=
    a.typing.types.map fun τ => (τ.rename fun name => "_" ++ name).render
  obtain ⟨p, parsed, reported, found⟩ : ∃ p, (Text.parse
      "struct S \x7bint x;\x7d; struct S s; bool f(int s) \x7bstruct S t; t.x = s.y; return t;\x7d").program
        = some p ∧
      p.analyze.toOption.map Analysis.diagnostics
        = some [.error ⟨1, 65⟩ .notStruct, .error ⟨1, 77⟩ .returnType] ∧
      p.analyze.toOption.map types
        = some (["_S", "int", "int", "int", "error", "error", "error", "_S"] : List Text) :=
    Text.exists_of_parseOnTape (by decide +kernel)
  have proper := proper_of_parse parsed
  obtain ⟨a, b, analyzed, analyzed', renamed⟩ := p.analyze_renamed proper.distinct proper.named
    (fun name => "_" ++ name) injective fun name _ => List.cons_ne_nil _ _
  rw [analyzed] at reported found
  refine ⟨p, injective, parsed, a, b, analyzed, analyzed', renamed, ?_, ?_⟩
  · exact renamed.diagnostics.trans (Option.some.inj reported)
  · rw [Typing.types, renamed.record, List.map_map, List.map_map, ← Option.some.inj found]
    simp only [types, Typing.types, List.map_map]
    rfl

end Cinder
