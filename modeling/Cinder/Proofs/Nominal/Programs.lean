import Cinder.Proofs.Nominal
import Cinder.Proofs.Tape.Source

/-!
# Structs are nominal in every program

The declarations of a file keep its scope lawful and hold on to the structs before them. Main
result: a struct variable, wherever it can be reached from an analysis, has the struct that the file
scope has under the name of its type, so variables have the same type exactly if they have the same
struct; and the type recorded for a dot-access names the struct that the dot-access has.
-/
namespace Cinder

namespace Scoping

variable {globals scope : Scope} {env : Env}

/-! ## Declarations and statements -/

theorem coherent_candidate (lawful : LawfulEnv globals env) (d : VarDecl) :
    Coherent globals (nodes d.type.idents) [] (candidate env d).2 ∧
      ∀ s, (candidate env d).1 = some s → Anchored globals s := by
  obtain ⟨type, name⟩ := d
  cases type with
  | int =>
    refine ⟨.silent rfl, ?_⟩
    rintro s ⟨⟩
    exact .inl rfl
  | bool =>
    refine ⟨.silent rfl, ?_⟩
    rintro s ⟨⟩
    exact .inr rfl
  | void =>
    refine ⟨.silent rfl, ?_⟩
    rintro s ⟨⟩
  | struct typeName =>
    simp only [candidate]
    cases found : env.struct typeName.name with
    | none =>
      refine ⟨.silent rfl, ?_⟩
      rintro s ⟨⟩
    | some definition =>
      obtain ⟨own, held⟩ := lawful.struct found
      refine ⟨.binds typeName held, ?_⟩
      rintro s ⟨⟩
      exact ⟨own, held⟩

theorem coherent_declare (lawful : LawfulEnv globals env) {d : VarDecl} (proper : Proper d.idents)
    (taken : Bool) : Coherent globals (nodes d.idents) [] (declare env taken d).2 ∧
      ∀ s, (declare env taken d).1 = some s →
        taken = false ∧ s.name = d.name.name ∧ Anchored globals s := by
  obtain ⟨found, anchored⟩ := coherent_candidate lawful d
  obtain ⟨-, -, apart⟩ := proper.append
  rw [VarDecl.idents, nodes_append]
  cases taken with
  | true =>
    rw [declare_taken]
    refine ⟨found.append (.silent rfl) apart, ?_⟩
    rintro s ⟨⟩
  | false =>
    cases accepted : (candidate env d).1 with
    | none =>
      rw [declare_rejected accepted]
      refine ⟨found.widen fun n => List.mem_append_left _, ?_⟩
      rintro s ⟨⟩
    | some s =>
      rw [declare_accepted accepted]
      refine ⟨found.append (.binds d.name (anchored s accepted)) apart, ?_⟩
      rintro s ⟨⟩
      exact ⟨rfl, (candidate_some accepted).1, anchored s accepted⟩

theorem coherent_declareAll {visible : Scope → Env}
    (lawful : ∀ scope, Lawful globals scope → LawfulEnv globals (visible scope)) :
    (scope : Scope) → Lawful globals scope → (ds : List VarDecl) →
    Proper (ds.flatMap VarDecl.idents) →
    Coherent globals (nodes (ds.flatMap VarDecl.idents)) [] (declareAll visible scope ds).findings ∧
      Lawful globals (declareAll visible scope ds).scope
  | _, sound, [], _ => ⟨.silent rfl, sound⟩
  | scope, sound, d :: ds, proper => by
    obtain ⟨first, rest, apart⟩ := proper.append
    obtain ⟨one, accepted⟩ :=
      coherent_declare (lawful scope sound) first (scope.contains d.name.name)
    have sound' : Lawful globals ((declare (visible scope) (scope.contains d.name.name) d).1.elim
        scope (scope.insert d.name.name)) := by
      cases chosen : (declare (visible scope) (scope.contains d.name.name) d).1 with
      | none => exact sound
      | some s =>
        obtain ⟨free, own, anchored⟩ := accepted s chosen
        exact sound.insert free own anchored
    obtain ⟨more, last⟩ := coherent_declareAll lawful _ sound' ds rest
    rw [List.flatMap_cons, nodes_append]
    exact ⟨one.append more apart, last⟩

theorem coherent_frame {decls : List VarDecl} {body : List Stmt}
    (sound : Lawful globals scope) (lawful : LawfulEnv globals env)
    (proper : Proper (decls.flatMap VarDecl.idents))
    (apart : (nodes (decls.flatMap VarDecl.idents)).Disjoint (nodes (Stmt.identsAll body)))
    (inner : ∀ env, LawfulEnv globals env → Coherent globals (nodes (Stmt.identsAll body))
      (Exp.fieldsAll (Stmt.expsAll body)) (stmts env body)) :
    let all := declareAll (· :: env) scope decls
    Coherent globals (nodes (decls.flatMap VarDecl.idents) ++ nodes (Stmt.identsAll body))
      (Exp.fieldsAll (Stmt.expsAll body)) (all.findings ++ stmts (all.scope :: env) body) := by
  obtain ⟨declared, last⟩ := coherent_declareAll (fun _ here => .cons here lawful) scope sound decls
    proper
  exact declared.append (inner _ (.cons last lawful)) apart

mutual

theorem coherent_stmt {env : Env} (lawful : LawfulEnv globals env) (file : LawfulFile globals) :
    (s : Stmt) → Proper s.idents →
    Coherent globals (nodes s.idents) (Exp.fieldsAll s.exps) (stmt env s)
  | .assign target value, proper =>
    coherent_alone lawful file (.assign target value) proper.distinct
  | .increment target, proper => coherent_alone lawful file target proper.distinct
  | .decrement target, proper => coherent_alone lawful file target proper.distinct
  | .read target, proper => coherent_alone lawful file target proper.distinct
  | .write value, proper => coherent_alone lawful file value proper.distinct
  | .ifThen condition body, proper => by
    rw [Stmt.idents, nodes_append]
    obtain ⟨first, second, apart⟩ := proper.append
    exact (coherent_exp lawful file condition first.distinct).append
      (coherent_block lawful file body second) apart
  | .ifElse condition yes no, proper => by
    rw [Stmt.idents, List.append_assoc] at proper ⊢
    obtain ⟨first, branches, apart⟩ := proper.append
    obtain ⟨second, third, between⟩ := branches.append
    rw [nodes_append, nodes_append yes.idents]
    rw [nodes_append] at apart
    rw [Stmt.exps, List.cons_append, Exp.fieldsAll, Exp.fieldsAll_append]
    exact (coherent_exp lawful file condition first.distinct).append
      ((coherent_block lawful file yes second).append (coherent_block lawful file no third) between)
      apart
  | .whileLoop condition body, proper => by
    rw [Stmt.idents, nodes_append]
    obtain ⟨first, second, apart⟩ := proper.append
    exact (coherent_exp lawful file condition first.distinct).append
      (coherent_block lawful file body second) apart
  | .repeatLoop count body, proper => by
    rw [Stmt.idents, nodes_append]
    obtain ⟨first, second, apart⟩ := proper.append
    exact (coherent_exp lawful file count first.distinct).append
      (coherent_block lawful file body second) apart
  | .call callee args, proper => coherent_alone lawful file (.call callee args) proper.distinct
  | .giveBack none _, _ => .silent rfl
  | .giveBack (some value) _, proper => coherent_alone lawful file value proper.distinct

theorem coherent_block {env : Env} (lawful : LawfulEnv globals env) (file : LawfulFile globals) :
    (b : Block) → Proper b.idents →
    Coherent globals (nodes b.idents) (Exp.fieldsAll b.exps) (block env b)
  | .mk decls body, proper => by
    rw [Block.idents, nodes_append]
    obtain ⟨first, second, apart⟩ := proper.append
    exact coherent_frame (lawful_empty globals) lawful first apart
      fun _ inner => coherent_stmts inner file body second

theorem coherent_stmts {env : Env} (lawful : LawfulEnv globals env) (file : LawfulFile globals) :
    (ss : List Stmt) → Proper (Stmt.identsAll ss) →
    Coherent globals (nodes (Stmt.identsAll ss)) (Exp.fieldsAll (Stmt.expsAll ss)) (stmts env ss)
  | [], _ => .silent rfl
  | s :: ss, proper => by
    rw [Stmt.identsAll, nodes_append, Stmt.expsAll, Exp.fieldsAll_append]
    obtain ⟨first, second, apart⟩ := proper.append
    exact (coherent_stmt lawful file s first).append (coherent_stmts lawful file ss second) apart

end

/-! ## Files -/

theorem coherent_resultType (lawful : Lawful globals globals) (type : TypeExp) :
    Coherent globals (nodes type.idents) [] (resultType globals type) := by
  cases type with
  | struct name =>
    simp only [resultType]
    cases found : Env.struct [globals] name.name with
    | none => exact .silent rfl
    | some definition => exact .binds name (lawful.alone.struct found).2
  | _ => exact .silent rfl

theorem coherent_fnBody (file : LawfulFile globals) (sound : Lawful globals scope) {b : Block}
    (proper : Proper b.idents) :
    let all := declareAll (· :: [globals]) scope b.decls
    Coherent globals (nodes b.idents) (Exp.fieldsAll b.exps)
      (all.findings ++ stmts [all.scope, globals] b.stmts) := by
  obtain ⟨decls, body⟩ := b
  rw [Block.idents, nodes_append]
  obtain ⟨first, second, apart⟩ := proper.append
  exact coherent_frame sound file.toLawful.alone first apart
    fun _ inner => coherent_stmts inner file body second

/-- What a declaration of the file adds to a lawful file scope. -/
structure Upholds (globals : Scope) (ids : List Nat) (fields : List Ident)
    (declared : Scope × Findings) : Prop where
  file : LawfulFile declared.1
  persists : Persists globals declared.1
  coherent : Coherent declared.1 ids fields declared.2

theorem upholds_varDecl (file : LawfulFile globals) {d : VarDecl} (proper : Proper d.idents) :
    Upholds globals (nodes d.idents) [] (decl globals (.var d)) := by
  obtain ⟨found, accepted⟩ :=
    coherent_declare file.toLawful.alone proper (globals.contains d.name.name)
  have one : decl globals (.var d) =
      ((declare [globals] (globals.contains d.name.name) d).1.elim globals
        (globals.insert d.name.name), (declare [globals] (globals.contains d.name.name) d).2) := by
    simp [decl, declareAll]
  rw [one]
  cases chosen : (declare [globals] (globals.contains d.name.name) d).1 with
  | none => exact ⟨file, fun _ => id, found⟩
  | some s =>
    obtain ⟨free, own, anchored⟩ := accepted s chosen
    have persists := persists_insert free s
    refine ⟨file.insert free own (anchored.mono persists) ?_, persists, found.mono persists⟩
    rintro struct rfl
    exact file.fields struct anchored

theorem upholds_fnDecl (file : LawfulFile globals) {d : FnDecl}
    (proper : Proper (Decl.fn d).idents) :
    Upholds globals (nodes (Decl.fn d).idents) (Exp.fieldsAll d.body.exps) (fnDecl globals d) := by
  have order := idents_fn_perm d
  obtain ⟨-, rest, beside_name⟩ := (proper.perm order).append
  obtain ⟨-, inner, beside_result⟩ := rest.append
  obtain ⟨formals, body, beside_formals⟩ := inner.append
  rw [nodes_append] at beside_result
  rw [nodes_append, nodes_append] at beside_name
  have lawful := file.toLawful.alone
  obtain ⟨declared, sound⟩ := coherent_declareAll (fun _ here => .cons here lawful) .empty
    (lawful_empty globals) d.formals formals
  have result := coherent_resultType file.toLawful d.resultType
  obtain ⟨outer, persists⟩ :
      LawfulFile (fnDecl globals d).1 ∧ Persists globals (fnDecl globals d).1 := by
    rw [fnDecl]
    dsimp only
    split
    · exact ⟨file, fun _ => id⟩
    · rename_i taken
      have free := Bool.eq_false_iff.mpr taken
      refine ⟨file.insert free rfl trivial ?_, persists_insert free _⟩
      rintro struct ⟨⟩
  have named : ∀ params, Coherent (fnDecl globals d).1 (nodes [d.name]) []
      (if globals.contains d.name.name then .report d.name.position .redeclared
        else .bind d.name (.function d.name.name d.resultType.type params)) := by
    intro params
    split
    · exact .silent rfl
    · exact .binds d.name trivial
  suffices whole : Coherent (fnDecl globals d).1 (nodes ([d.name] ++ (d.resultType.idents ++
      (d.formals.flatMap VarDecl.idents ++ d.body.idents)))) (Exp.fieldsAll d.body.exps)
      (fnDecl globals d).2 from
    ⟨outer, persists, whole.widen fun n mem => (order.map Ident.node).mem_iff.mpr mem⟩
  rw [nodes_append, nodes_append, nodes_append]
  exact (named _).append ((result.mono persists).append ((declared.mono persists).append
    (coherent_fnBody outer (sound.mono persists) body) beside_formals) beside_result) beside_name

theorem upholds_structDecl (file : LawfulFile globals) {d : StructDecl}
    (proper : Proper (Decl.struct d).idents) :
    Upholds globals (nodes (Decl.struct d).idents) [] (structDecl globals d) := by
  obtain ⟨-, fields, apart⟩ := @Proper.append [d.name] (d.fields.flatMap VarDecl.idents) proper
  have lawful := file.toLawful.alone
  obtain ⟨declared, sound⟩ := coherent_declareAll (fun _ _ => lawful) .empty (lawful_empty globals)
    d.fields fields
  rw [structDecl]
  split
  · exact ⟨file, fun _ => id, .silent rfl⟩
  · rename_i taken
    have free := Bool.eq_false_iff.mpr taken
    dsimp only
    let struct : StructDef :=
      .mk d.name.name (declareAll (fun _ => [globals]) .empty d.fields).scope.values
    have persists := persists_insert free (.structDef struct)
    have anchored :
        Anchored (globals.insert d.name.name (.structDef struct)) (.structDef struct) := by
      rw [Anchored, Holds, Table.find?_insert]
      exact if_pos rfl
    refine ⟨file.insert free rfl anchored ?_, persists, ?_⟩
    · rintro _ ⟨⟩ field mem
      obtain ⟨entry, inside, rfl⟩ := List.mem_map.mp mem
      exact sound.anchored entry inside
    · refine ((declared.mono persists).append (.binds d.name anchored) apart.symm).widen ?_
      intro n mem
      simpa [Decl.idents, nodes, or_comm] using mem

theorem upholds_decl (file : LawfulFile globals) : (d : Decl) → Proper d.idents →
    Upholds globals (nodes d.idents) (Exp.fieldsAll d.exps) (decl globals d)
  | .var _, proper => upholds_varDecl file proper
  | .fn _, proper => upholds_fnDecl file proper
  | .struct _, proper => upholds_structDecl file proper

theorem upholds_decls : {globals : Scope} → LawfulFile globals → (ds : List Decl) →
    Proper (ds.flatMap Decl.idents) →
    Upholds globals (nodes (ds.flatMap Decl.idents)) (Exp.fieldsAll (ds.flatMap Decl.exps))
      (decls globals ds)
  | _, file, [], _ => ⟨file, fun _ => id, .silent rfl⟩
  | _, file, d :: ds, proper => by
    rw [List.flatMap_cons] at proper ⊢
    rw [List.flatMap_cons, nodes_append, Exp.fieldsAll_append]
    obtain ⟨first, second, apart⟩ := proper.append
    have one := upholds_decl file d first
    have more := upholds_decls one.file ds second
    refine ⟨more.file, ?_, (one.coherent.mono more.persists).append more.coherent apart⟩
    intro struct held
    exact more.persists struct (one.persists struct held)

end Scoping

/-! ## Programs -/

namespace Exp

/-- The field of a dot-access inside an expression is one of its fields. -/
theorem field_mem_of_part {e base : Exp} {field : Ident} (part : Exp.dot base field ∈ e.parts) :
    field ∈ e.fields := by
  have step : ∀ q : Exp, q.fields ⊆ e.fields → ∀ c ∈ q.children, c.fields ⊆ e.fields := by
    intro q inside c mem
    refine List.Subset.trans ?_ inside
    cases q with
    | call callee args =>
      rcases List.mem_cons.mp mem with rfl | arg
      · exact List.nil_subset _
      · intro id here
        exact mem_fieldsAll arg here
    | dot inner _ =>
      obtain rfl := List.mem_singleton.mp mem
      exact List.subset_append_left _ _
    | unary _ operand =>
      obtain rfl := List.mem_singleton.mp mem
      exact List.Subset.refl _
    | assign target value =>
      rcases List.mem_pair.mp mem with rfl | rfl
      · exact List.subset_append_left _ _
      · exact List.subset_append_right _ _
    | binary _ left right =>
      rcases List.mem_pair.mp mem with rfl | rfl
      · exact List.subset_append_left _ _
      · exact List.subset_append_right _ _
    | _ => cases mem
  exact holds_of_part step e (List.Subset.refl _) part (by simp [fields])

end Exp

/-- The symbols that can be reached from the bindings and the scopes of an analysis. -/
inductive Analysis.Reaches (a : Analysis) : Symbol → Prop where
  | bound {s} (mem : s ∈ a.bindings.idents.values) : Reaches a s
  | declared {frame s} (scope : frame ∈ a.scopes.frames) (mem : s ∈ frame.values) : Reaches a s
  | selected {d s} (dot : d ∈ a.bindings.dots.values) (mem : s ∈ d.fields) : Reaches a s
  | field {d s} (struct : Reaches a (.structDef d)) (mem : s ∈ d.fields) : Reaches a s
  | fieldOf {name typeName d s} (var : Reaches a (.structVar name typeName d))
      (mem : s ∈ d.fields) : Reaches a s

namespace Scoping

variable {globals : Scope}

theorem upholds_program {p : Program} (proper : Proper p.idents) :
    Upholds .empty (nodes p.idents) p.fields (program p) :=
  upholds_decls lawfulFile_empty p.decls proper

theorem anchored_of_reaches {p : Program} (proper : Proper p.idents) {s : Symbol}
    (reached : (analysis p).Reaches s) : Anchored (program p).1 s := by
  obtain ⟨file, -, coherent⟩ := upholds_program proper
  induction reached with
  | bound mem =>
    obtain ⟨entry, inside, rfl⟩ := List.mem_map.mp mem
    exact coherent.anchored entry inside
  | declared scope mem =>
    obtain rfl := List.mem_singleton.mp scope
    obtain ⟨entry, inside, rfl⟩ := List.mem_map.mp mem
    exact file.anchored entry inside
  | selected dot mem =>
    obtain ⟨entry, inside, rfl⟩ := List.mem_map.mp dot
    exact file.fields entry.2 (coherent.held entry inside) _ mem
  | field struct mem ih => exact file.fields _ ih _ mem
  | fieldOf var mem ih => exact file.fields _ ih.2 _ mem

/-- Struct variables have the same type exactly if they have the same struct. -/
theorem same_iff_of_anchored {s t : Symbol} {d e : StructDef} (first : Anchored globals s)
    (second : Anchored globals t) (struct : s.definition? = some d)
    (other : t.definition? = some e) : s.type.same t.type = true ↔ d = e := by
  cases s with
  | structVar _ typeName _ =>
    cases t with
    | structVar _ otherName _ =>
      cases struct
      cases other
      obtain ⟨own, held⟩ := first
      obtain ⟨own', held'⟩ := second
      simp only [Symbol.type, Ty.same, decide_eq_true_eq, ← own, ← own']
      constructor
      · intro same
        rw [Holds, same, held'] at held
        cases held
        rfl
      · rintro rfl
        rfl
    | _ => cases other
  | _ => cases struct

/-- The type of a field names the struct that its dot-access has. -/
theorem Coherent.typeOf_field {ids : List Nat} {fields : List Ident} {f : Findings}
    (coherent : Coherent globals ids fields f) {field : Ident} (mem : field ∈ fields) :
    ((f.bindings.structOf field).isSome = true ↔ ∃ name, f.bindings.typeOf field = .struct name) ∧
      ∀ d, f.bindings.structOf field = some d → f.bindings.typeOf field = .struct d.name := by
  have selects : f.bindings.structOf field = _ := coherent.selects field mem
  rw [selects, Bindings.typeOf]
  cases found : f.bindings.symbolOf field with
  | none => simp
  | some s =>
    have anchored := coherent.anchored _ (Table.mem_of_find? found)
    cases s with
    | plain _ τ => rcases anchored with rfl | rfl <;> simp [Symbol.definition?, Symbol.type]
    | structVar _ typeName d => simp [Symbol.definition?, Symbol.type, anchored.1]
    | _ => simp [Symbol.definition?, Symbol.type]

end Scoping

open Scoping

/-- The analysis of a program keeps one struct for each name. A struct variable that can be reached
has the struct which the file scope has under the name of its type, struct variables have the same
type exactly if they have the same struct, and a dot-access has a struct exactly if the type recorded
for it is a struct type, whose name is then the name of that struct. -/
theorem Program.structs_nominal (p : Program) (distinct : (p.idents.map Ident.node).Nodup)
    (named : ∀ id ∈ p.idents, id.name ≠ []) :
    ∃ a globals, p.analyze = .ok a ∧ a.scopes.frames = [globals] ∧
      (∀ name typeName d, a.Reaches (.structVar name typeName d) →
        d.name = typeName.name ∧ globals.find? typeName.name = some (.structDef d)) ∧
      (∀ s t d e, a.Reaches s → a.Reaches t → s.definition? = some d → t.definition? = some e →
        (s.type.same t.type = true ↔ d = e)) ∧
      ∀ base field τ, (Exp.dot base field, τ) ∈ a.typing.record →
        ((a.bindings.structOf field).isSome = true ↔ ∃ name, τ = .struct name) ∧
          ∀ d, a.bindings.structOf field = some d → τ = .struct d.name := by
  have proper : Proper p.idents := ⟨distinct, named⟩
  refine ⟨analysis p, (program p).1, analyze_eq_scoping proper, rfl, ?_, ?_, ?_⟩
  · intro name typeName d reached
    obtain ⟨own, held⟩ := anchored_of_reaches proper reached
    rw [Holds, own] at held
    exact ⟨own, held⟩
  · intro s t d e reached reached' struct other
    exact same_iff_of_anchored (anchored_of_reaches proper reached)
      (anchored_of_reaches proper reached') struct other
  · intro base field τ recorded
    obtain ⟨e, root, inside, -⟩ := exists_exp_of_record recorded
    obtain ⟨type, origin⟩ := Exp.recorded_of_mem e inside
    have typed : τ = (program p).2.bindings.typeOf field := type
    rcases origin with ⟨id, -, same⟩ | ⟨part, -⟩
    · cases same
    · have selected : field ∈ p.fields := Exp.mem_fieldsAll root (Exp.field_mem_of_part part)
      rw [typed]
      exact (upholds_program proper).coherent.typeOf_field selected

/-- A struct inside another, and a second struct of the same name, which is rejected. -/
theorem Program.structs_nominal_nested :
    ∃ p, (Text.parse
      "struct P\x7bint a;\x7d;struct P\x7bint b;\x7d;struct Q\x7bstruct P p;\x7d;void f(struct Q q)\x7bq.p.a=1;\x7d"
      ).program = some p ∧
      ∃ a globals, p.analyze = .ok a ∧ a.scopes.frames = [globals] ∧
        (a.bindings.idents.values.filterMap Symbol.definition?).map StructDef.name
          = (["P", "Q", "Q", "P"] : List Text) ∧
        a.bindings.dots.values.map StructDef.name = (["P"] : List Text) ∧
        (∀ name typeName d, a.Reaches (.structVar name typeName d) →
          d.name = typeName.name ∧ globals.find? typeName.name = some (.structDef d)) ∧
        ∀ base field τ, (Exp.dot base field, τ) ∈ a.typing.record →
          ∀ d, a.bindings.structOf field = some d → τ = .struct d.name := by
  obtain ⟨p, parsed, values⟩ : ∃ p, (Text.parse
      "struct P\x7bint a;\x7d;struct P\x7bint b;\x7d;struct Q\x7bstruct P p;\x7d;void f(struct Q q)\x7bq.p.a=1;\x7d"
      ).program = some p ∧
      (p.analyze.toOption.map fun a =>
        ((a.bindings.idents.values.filterMap Symbol.definition?).map StructDef.name,
          a.bindings.dots.values.map StructDef.name))
        = some ((["P", "Q", "Q", "P"] : List Text), (["P"] : List Text)) :=
    Text.exists_of_parseOnTape (by decide +kernel)
  have proper := proper_of_parse parsed
  obtain ⟨a, globals, analyzed, frames, nominal, -, dots⟩ :=
    structs_nominal p proper.distinct proper.named
  rw [analyzed] at values
  obtain ⟨structVars, selected⟩ := Prod.mk.inj (Option.some.inj values)
  refine ⟨p, parsed, a, globals, analyzed, frames, structVars, selected, nominal, ?_⟩
  intro base field τ recorded
  exact (dots base field τ recorded).2

end Cinder
