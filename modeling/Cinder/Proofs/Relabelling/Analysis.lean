import Cinder.Analysis
import Cinder.Proofs.Relabelling.Typing
import Cinder.Proofs.Scoping.Lexical

/-!
# Analysis of relabelled programs

Scoping and checking commute with relabelling, and bindings are kept under the new numbers if the
relabelled identifiers still have different ones. So a relabelled program has the relabelled analysis.
-/
namespace Cinder

open Scoping (Proper)

variable {ρ : Relabelling}

def Bindings.relabel (ρ : Relabelling) (b : Bindings) : Bindings :=
  ⟨b.idents.rekey ρ.node (Symbol.relabel ρ), b.dots.rekey ρ.node (StructDef.relabel ρ)⟩

def Scopes.relabel (ρ : Relabelling) (s : Scopes) : Scopes := ⟨s.frames.map (Frame.relabel ρ)⟩

def Analysis.relabel (ρ : Relabelling) (a : Analysis) : Analysis :=
  ⟨a.bindings.relabel ρ, a.scopes.relabel ρ, a.typing.relabel ρ,
    a.diagnostics.map (Diagnostic.relabel ρ)⟩

/-! ## Bindings -/

/-- An identifier is bound under its new number to what it was bound to. -/
theorem Bindings.symbolOf_relabel {b : Bindings} {ids : List Ident}
    (bound : ∀ n ∈ b.idents.keys, n ∈ ids.map Ident.node)
    (distinct : ((ids.map (Ident.relabel ρ)).map Ident.node).Nodup) {id : Ident} (mem : id ∈ ids) :
    (b.relabel ρ).symbolOf (id.relabel ρ) = (b.symbolOf id).map (Symbol.relabel ρ) := by
  have apart : ((ids.map Ident.node).map ρ.node).Nodup := by
    rw [List.map_map] at distinct ⊢
    exact distinct
  apply Table.find?_rekey
  intro n key same
  exact List.inj_on_of_nodup_map apart (bound n key) (List.mem_map_of_mem mem) same

theorem Bindings.typeOf_of_symbolOf {b c : Bindings} {id : Ident}
    (found : c.symbolOf (id.relabel ρ) = (b.symbolOf id).map (Symbol.relabel ρ)) :
    c.typeOf (id.relabel ρ) = (b.typeOf id).rename ρ.name := by
  rw [Bindings.typeOf, found, Bindings.typeOf]
  cases b.symbolOf id with
  | none => rfl
  | some s => exact s.type_relabel

/-! ## Programs -/

/-- The bindings, the scopes and the reports that lexical scoping gives a program, then its typing. -/
def Scoping.analysis (p : Program) : Analysis :=
  let bindings : Bindings := ⟨⟨(program p).2.idents⟩, ⟨(program p).2.dots⟩⟩
  let typing := p.check bindings
  ⟨bindings, ⟨[(program p).1]⟩, typing, (program p).2.diagnostics ++ typing.diagnostics⟩

theorem Program.analyze_eq_scoping {p : Program} (proper : Proper p.idents) :
    p.analyze = .ok (Scoping.analysis p) := by
  rw [Program.analyze, p.resolve_eq_extend proper]
  rfl

/-- Only identifiers of the program are bound. -/
theorem Scoping.bound_mem_idents {p : Program} (proper : Proper p.idents) :
    ∀ n ∈ (analysis p).bindings.idents.keys, n ∈ p.idents.map Ident.node := by
  intro n mem
  have walk := @Scoping.yields_decls .empty p.decls proper
  exact walk.within n (Findings.mem_nodes_of_ident mem)

theorem Scoping.symbolOf_analysis_relabel {p : Program} (proper : Proper p.idents)
    (kept : Proper (p.relabel ρ).idents) {id : Ident} (mem : id ∈ p.idents) :
    ((analysis p).bindings.relabel ρ).symbolOf (id.relabel ρ)
      = ((analysis p).bindings.symbolOf id).map (Symbol.relabel ρ) := by
  have distinct := kept.distinct
  rw [Program.idents_relabel] at distinct
  exact Bindings.symbolOf_relabel (Scoping.bound_mem_idents proper) distinct mem

/-- Analysis commutes with relabelling. -/
theorem Scoping.analysis_relabel {p : Program} (proper : Proper p.idents)
    (kept : Proper (p.relabel ρ).idents) : analysis (p.relabel ρ) = (analysis p).relabel ρ := by
  have follows : (analysis p).bindings.Follows ρ ((analysis p).bindings.relabel ρ) p.idents := by
    intro id mem
    exact Bindings.typeOf_of_symbolOf (Scoping.symbolOf_analysis_relabel proper kept mem)
  have bindings : (analysis (p.relabel ρ)).bindings = (analysis p).bindings.relabel ρ := by
    simp only [analysis, program_relabel]
    rfl
  have scopes : (analysis (p.relabel ρ)).scopes = (analysis p).scopes.relabel ρ := by
    simp only [analysis, program_relabel]
    rfl
  have typing : (analysis (p.relabel ρ)).typing = (analysis p).typing.relabel ρ := by
    have checked := p.check_relabel follows
    rw [← bindings] at checked
    exact checked
  have diagnostics : (analysis (p.relabel ρ)).diagnostics
      = (analysis p).diagnostics.map (Diagnostic.relabel ρ) := by
    change (program (p.relabel ρ)).2.diagnostics ++ (analysis (p.relabel ρ)).typing.diagnostics = _
    rw [typing, program_relabel]
    exact List.map_append.symm
  change Analysis.mk _ _ _ _ = Analysis.mk _ _ _ _
  rw [Analysis.mk.injEq]
  exact ⟨bindings, scopes, typing, diagnostics⟩

end Cinder
