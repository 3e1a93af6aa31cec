import Cinder.Proofs.Relabelling.Analysis
import Cinder.Proofs.Visits

/-!
# Programs that go on

A program is resolved from top to bottom, and what has been found is not looked at again, so
declarations that follow a program add to its findings and change none of them. The checker runs
only then, over bindings of the whole, but it asks them about the identifiers that it comes to and
about no others. Main result: the analysis of a program is the first part of the analysis of every
program that goes on from it.
-/
namespace Cinder

/-! ## Relabelling with the labels that are there -/

def Relabelling.identity : Relabelling := ⟨id, id, id, Function.injective_id⟩

theorem TypeExp.relabel_identity (type : TypeExp) : type.relabel .identity = type := by
  cases type <;> rfl

theorem VarDecl.relabel_identity (d : VarDecl) : d.relabel .identity = d := by
  rw [relabel, TypeExp.relabel_identity]
  rfl

mutual

theorem Exp.relabel_identity : (e : Exp) → e.relabel .identity = e
  | .int _ _ _ | .string _ _ | .bool _ _ | .ident _ => rfl
  | .dot base _ => by
    rw [relabel, relabel_identity base]
    rfl
  | .assign target value => by rw [relabel, relabel_identity target, relabel_identity value]
  | .call _ args => by
    rw [relabel, relabelAll_identity args]
    rfl
  | .unary _ operand => by rw [relabel, relabel_identity operand]
  | .binary _ left right => by rw [relabel, relabel_identity left, relabel_identity right]

theorem Exp.relabelAll_identity : (es : List Exp) → Exp.relabelAll .identity es = es
  | [] => rfl
  | e :: es => by rw [relabelAll, relabel_identity e, relabelAll_identity es]

end

mutual

theorem Stmt.relabel_identity : (s : Stmt) → s.relabel .identity = s
  | .assign target value => by
    rw [Stmt.relabel, target.relabel_identity, value.relabel_identity]
  | .increment e | .decrement e | .read e | .write e => by rw [Stmt.relabel, e.relabel_identity]
  | .ifThen condition body | .whileLoop condition body | .repeatLoop condition body => by
    rw [Stmt.relabel, condition.relabel_identity, Block.relabel_identity body]
  | .ifElse condition yes no => by
    rw [Stmt.relabel, condition.relabel_identity, Block.relabel_identity yes,
      Block.relabel_identity no]
  | .call _ args => by
    rw [Stmt.relabel, Exp.relabelAll_identity args]
    rfl
  | .giveBack none _ => rfl
  | .giveBack (some value) _ => by
    rw [Stmt.relabel, value.relabel_identity]
    rfl

theorem Block.relabel_identity : (b : Block) → b.relabel .identity = b
  | .mk decls stmts => by
    rw [Block.relabel, List.map_congr_left fun d _ => d.relabel_identity, List.map_id',
      Stmt.relabelAll_identity stmts]

theorem Stmt.relabelAll_identity : (ss : List Stmt) → Stmt.relabelAll .identity ss = ss
  | [] => rfl
  | s :: ss => by rw [Stmt.relabelAll, Stmt.relabel_identity s, Stmt.relabelAll_identity ss]

end

theorem Decl.relabel_identity (d : Decl) : d.relabel .identity = d := by
  cases d with
  | var d => rw [relabel, d.relabel_identity]
  | fn d =>
    rw [relabel, FnDecl.relabel, d.resultType.relabel_identity, d.body.relabel_identity,
      List.map_congr_left fun d _ => d.relabel_identity, List.map_id']
    rfl
  | struct d =>
    rw [relabel, StructDecl.relabel, List.map_congr_left fun d _ => d.relabel_identity,
      List.map_id']
    rfl

theorem Program.relabel_identity (p : Program) : p.relabel .identity = p := by
  rw [relabel, List.map_congr_left fun d _ => d.relabel_identity, List.map_id']

theorem Typing.relabel_identity (t : Typing) : t.relabel .identity = t := by
  obtain ⟨record, diagnostics⟩ := t
  have entries : ∀ entry ∈ record, Exp.relabelEntry .identity entry = entry := by
    intro entry _
    exact Prod.ext entry.1.relabel_identity entry.2.rename_id
  have reports : ∀ d ∈ diagnostics, Diagnostic.relabel .identity d = d := fun _ _ => rfl
  rw [relabel, List.map_congr_left entries, List.map_congr_left reports, List.map_id', List.map_id']

/-- The checker asks for the types of the identifiers of a program and of no others. -/
theorem Program.check_congr (p : Program) {b c : Bindings}
    (same : ∀ id ∈ p.idents, c.typeOf id = b.typeOf id) : p.check c = p.check b := by
  have follows : b.Follows .identity c p.idents := by
    intro id mem
    exact (same id mem).trans (b.typeOf id).rename_id.symm
  have checked := p.check_relabel follows
  rwa [p.relabel_identity, Typing.relabel_identity] at checked

/-! ## Findings about a part -/

namespace Scoping

/-- Of an identifier of the program nothing more is found in the declarations after it. -/
theorem symbolOf_analysis_append {ds more : List Decl}
    (proper : Proper ((ds ++ more).flatMap Decl.idents)) {id : Ident}
    (mem : id ∈ ds.flatMap Decl.idents) :
    (analysis ⟨ds ++ more⟩).bindings.symbolOf id = (analysis ⟨ds⟩).bindings.symbolOf id ∧
      (analysis ⟨ds ++ more⟩).bindings.structOf id = (analysis ⟨ds⟩).bindings.structOf id := by
  rw [List.flatMap_append] at proper
  obtain ⟨-, later, apart⟩ := proper.append
  have absent : id.node ∉ (decls (decls .empty ds).1 more).2.nodes := by
    intro known
    exact apart (List.mem_map_of_mem mem) ((yields_decls more later).within _ known)
  obtain ⟨unbound, none⟩ := Findings.not_mem_of_nodes absent
  have whole : (analysis ⟨ds ++ more⟩).bindings =
      ((decls .empty ds).2 ++ (decls (decls .empty ds).1 more).2).bindings := by
    simp only [analysis, program, decls_append]
    rfl
  rw [whole, Findings.symbolOf_append, Findings.structOf_append, unbound, none, Option.or_none,
    Option.or_none]
  exact ⟨rfl, rfl⟩

end Scoping

/-- Declarations that follow a program add reports of names after its reports of names and reports
of types after its reports of types. All that its identifiers are bound to and all types of its
expressions stay as they are. -/
theorem Program.analyze_append (ds more : List Decl)
    (distinct : ((Program.mk (ds ++ more)).idents.map Ident.node).Nodup)
    (named : ∀ id ∈ (Program.mk (ds ++ more)).idents, id.name ≠ []) :
    ∃ r s a b, (Program.mk ds).resolve = .ok r ∧ (Program.mk (ds ++ more)).resolve = .ok s ∧
      (Program.mk ds).analyze = .ok a ∧ (Program.mk (ds ++ more)).analyze = .ok b ∧
      a.bindings = r.bindings ∧ a.diagnostics = r.diagnostics ++ a.typing.diagnostics ∧
      b.bindings = s.bindings ∧ b.diagnostics = s.diagnostics ++ b.typing.diagnostics ∧
      r.diagnostics <+: s.diagnostics ∧ a.typing.diagnostics <+: b.typing.diagnostics ∧
      (∀ id ∈ (Program.mk ds).idents, b.bindings.symbolOf id = a.bindings.symbolOf id ∧
        b.bindings.structOf id = a.bindings.structOf id) ∧
      (Program.mk ds).check b.bindings = a.typing ∧
      b.typing.record = a.typing.record ++ ((Program.mk more).check b.bindings).record := by
  have proper : Scoping.Proper (Program.mk (ds ++ more)).idents := ⟨distinct, named⟩
  have before : Scoping.Proper (Program.mk ds).idents := by
    have parts := proper
    rw [idents, List.flatMap_append] at parts
    exact parts.append.1
  have bound := fun id => @Scoping.symbolOf_analysis_append ds more proper id
  have checked : (Program.mk ds).check (Scoping.analysis ⟨ds ++ more⟩).bindings =
      (Scoping.analysis ⟨ds⟩).typing := by
    refine check_congr _ fun id mem => ?_
    unfold Bindings.typeOf
    rw [(bound id mem).1]
    rfl
  have records : (Scoping.analysis ⟨ds ++ more⟩).typing.record = _ := List.flatMap_append
  have reports : (Scoping.analysis ⟨ds ++ more⟩).typing.diagnostics = _ := List.flatMap_append
  refine ⟨_, _, _, _, resolve_eq_extend before, resolve_eq_extend proper,
    analyze_eq_scoping before, analyze_eq_scoping proper, rfl, rfl, rfl, rfl, ?_, ?_, bound,
    checked, ?_⟩
  · change (Scoping.decls .empty ds).2.diagnostics <+:
      (Scoping.decls .empty (ds ++ more)).2.diagnostics
    rw [Scoping.decls_append]
    exact List.prefix_append _ _
  · rw [reports, ← checked]
    exact List.prefix_append _ _
  · rw [records, ← checked]
    rfl

/-- The function asks for a name that is declared after it, and its own name is declared again. -/
theorem Program.analyze_append_late_name :
    let v : Nat → Text → Ident := fun n name => ⟨n, name, ⟨1, n⟩⟩
    let ds : List Decl := [.fn ⟨.int, v 0 "f", [⟨.bool, v 1 "a"⟩],
      .mk [] [.call (v 2 "f") [.ident (v 3 "g")], .giveBack (some (.ident (v 4 "a"))) ⟨1, 9⟩]⟩]
    let more : List Decl := [.var ⟨.bool, v 5 "g"⟩, .var ⟨.int, v 6 "f"⟩]
    ((Program.mk (ds ++ more)).idents.map Ident.node).Nodup ∧
      (∀ id ∈ (Program.mk (ds ++ more)).idents, id.name ≠ []) ∧
      ∃ a b, (Program.mk ds).analyze = .ok a ∧ (Program.mk (ds ++ more)).analyze = .ok b ∧
        b.bindings.symbolOf (v 3 "g") = none ∧
        b.bindings.symbolOf (v 2 "f") = some (.function "f" .int [.bool]) ∧
        b.bindings.symbolOf (v 5 "g") = some (.plain "g" .bool) ∧
        a.typing.diagnostics <+: b.typing.diagnostics ∧ a.typing.diagnostics.length = 1 := by
  intro v ds more
  have distinct : ((Program.mk (ds ++ more)).idents.map Ident.node).Nodup := by decide
  have named : ∀ id ∈ (Program.mk (ds ++ more)).idents, id.name ≠ [] := by decide
  obtain ⟨r, s, a, b, -, -, analyzed, continued, -, -, -, -, -, reports, bound, -, -⟩ :=
    analyze_append ds more distinct named
  obtain ⟨c, known, unbound, called, one⟩ : ∃ c, (Program.mk ds).analyze = .ok c ∧
      (c.bindings.symbolOf (v 3 "g")).isNone ∧
      c.bindings.symbolOf (v 2 "f") = some (.function "f" .int [.bool]) ∧
      c.typing.diagnostics.length = 1 :=
    ⟨_, analyze_eq_scoping ⟨by decide, by decide⟩, by decide +kernel, by rfl, by decide +kernel⟩
  obtain ⟨d, known', late⟩ : ∃ d, (Program.mk (ds ++ more)).analyze = .ok d ∧
      d.bindings.symbolOf (v 5 "g") = some (.plain "g" .bool) :=
    ⟨_, analyze_eq_scoping ⟨distinct, named⟩, by rfl⟩
  obtain rfl : a = c := Except.ok.inj (analyzed.symm.trans known)
  obtain rfl : b = d := Except.ok.inj (continued.symm.trans known')
  have idents : (Program.mk ds).idents = [v 0 "f", v 1 "a", v 2 "f", v 3 "g", v 4 "a"] := rfl
  have asked : v 3 "g" ∈ (Program.mk ds).idents ∧ v 2 "f" ∈ (Program.mk ds).idents := by
    rw [idents]
    exact ⟨.tail _ (.tail _ (.tail _ (.head _))), .tail _ (.tail _ (.head _))⟩
  refine ⟨distinct, named, a, b, analyzed, continued, ?_, ?_, late, reports, one⟩
  · rw [(bound _ asked.1).1, Option.isNone_iff_eq_none.mp unbound]
  · rw [(bound _ asked.2).1, called]

end Cinder
