import Cinder.Proofs.Relabelling.Analysis
import Cinder.Proofs.RoundTrip
import Cinder.Proofs.Rules.Programs
import Mathlib.Logic.Denumerable

/-!
# Programs that are equal up to positions

Two programs that are equal up to positions are two relabellings of one program. So their analyses
differ in numbers and positions only: the same is reported in the same order at the same places, the
same types are found, and identifiers mean the same. In particular formatting changes nothing that
an analysis finds.
-/
namespace Cinder

open Scoping (Proper)

/-! ## One program for two -/

/-- Two relabellings that keep names and can give any two numbers and any two positions at once. -/
structure Relabelling.Joint (ρ σ : Relabelling) : Prop where
  node : ∀ m n, ∃ k, ρ.node k = m ∧ σ.node k = n
  position : ∀ p q, ∃ r, ρ.position r = p ∧ σ.position r = q
  left : ρ.name = id
  right : σ.name = id

/-- All positions, counted by the natural numbers. -/
def Position.ofNat (n : Nat) : Position :=
  let pair := Denumerable.ofNat (Int × Int) n
  ⟨pair.1, pair.2⟩

theorem Position.exists_ofNat (p : Position) : ∃ n : Nat, Position.ofNat n = p := by
  refine ⟨Encodable.encode (p.line, p.column), ?_⟩
  rw [Position.ofNat, Denumerable.ofNat_encode]

/-- Takes numbers for pairs of numbers, and the lines and columns of a position for two positions. -/
theorem Relabelling.exists_joint : ∃ ρ σ : Relabelling, ρ.Joint σ := by
  let ρ : Relabelling :=
    ⟨fun n => n.unpair.1, id, fun p => .ofNat p.line.toNat, Function.injective_id⟩
  let σ : Relabelling :=
    ⟨fun n => n.unpair.2, id, fun p => .ofNat p.column.toNat, Function.injective_id⟩
  refine ⟨ρ, σ, ?_, ?_, rfl, rfl⟩
  · intro m n
    exact ⟨Nat.pair m n, by simp [ρ], by simp [σ]⟩
  · intro p q
    obtain ⟨m, first⟩ := p.exists_ofNat
    obtain ⟨n, second⟩ := q.exists_ofNat
    exact ⟨⟨m, n⟩, first, second⟩

variable {ρ σ : Relabelling}

theorem exists_common_map {α β : Type} {erase : α → β} {f g : α → α}
    (one : ∀ x y, erase x = erase y → ∃ common, f common = x ∧ g common = y) :
    (xs ys : List α) → xs.map erase = ys.map erase →
      ∃ common : List α, common.map f = xs ∧ common.map g = ys
  | [], [], _ => ⟨[], rfl, rfl⟩
  | x :: xs, y :: ys, same => by
    obtain ⟨head, tail⟩ := List.cons.inj same
    obtain ⟨common, rfl, rfl⟩ := one x y head
    obtain ⟨rest, rfl, rfl⟩ := exists_common_map one xs ys tail
    exact ⟨common :: rest, rfl, rfl⟩

theorem Ident.exists_common (joint : ρ.Joint σ) {id id' : Ident} (same : id.unplaced = id'.unplaced) :
    ∃ common : Ident, common.relabel ρ = id ∧ common.relabel σ = id' := by
  obtain ⟨m, name, p⟩ := id
  obtain ⟨n, name', q⟩ := id'
  obtain ⟨k, rfl, rfl⟩ := joint.node m n
  obtain ⟨r, rfl, rfl⟩ := joint.position p q
  obtain rfl : name = name' := congrArg Ident.name same
  refine ⟨⟨k, name, r⟩, ?_, ?_⟩
  · simp [Ident.relabel, joint.left]
  · simp [Ident.relabel, joint.right]

theorem TypeExp.exists_common (joint : ρ.Joint σ) : (type type' : TypeExp) →
    type.unplaced = type'.unplaced →
    ∃ common : TypeExp, common.relabel ρ = type ∧ common.relabel σ = type'
  | .int, .int, _ => ⟨.int, rfl, rfl⟩
  | .bool, .bool, _ => ⟨.bool, rfl, rfl⟩
  | .void, .void, _ => ⟨.void, rfl, rfl⟩
  | .struct name, .struct name', same => by
    obtain ⟨name, rfl, rfl⟩ := Ident.exists_common joint (TypeExp.struct.inj same)
    exact ⟨.struct name, rfl, rfl⟩

theorem VarDecl.exists_common (joint : ρ.Joint σ) (d d' : VarDecl)
    (same : d.unplaced = d'.unplaced) :
    ∃ common : VarDecl, common.relabel ρ = d ∧ common.relabel σ = d' := by
  obtain ⟨type, name⟩ := d
  obtain ⟨type', name'⟩ := d'
  obtain ⟨types, names⟩ := VarDecl.mk.inj same
  obtain ⟨type, rfl, rfl⟩ := TypeExp.exists_common joint type type' types
  obtain ⟨name, rfl, rfl⟩ := Ident.exists_common joint names
  exact ⟨⟨type, name⟩, rfl, rfl⟩

mutual

theorem Exp.exists_common (joint : ρ.Joint σ) : (e e' : Exp) → e.unplaced = e'.unplaced →
    ∃ common : Exp, common.relabel ρ = e ∧ common.relabel σ = e'
  | .int value text p, .int value' text' q, same => by
    obtain ⟨rfl, rfl, -⟩ := Exp.int.inj same
    obtain ⟨r, rfl, rfl⟩ := joint.position p q
    exact ⟨.int value text r, rfl, rfl⟩
  | .string text p, .string text' q, same => by
    obtain ⟨rfl, -⟩ := Exp.string.inj same
    obtain ⟨r, rfl, rfl⟩ := joint.position p q
    exact ⟨.string text r, rfl, rfl⟩
  | .bool value p, .bool value' q, same => by
    obtain ⟨rfl, -⟩ := Exp.bool.inj same
    obtain ⟨r, rfl, rfl⟩ := joint.position p q
    exact ⟨.bool value r, rfl, rfl⟩
  | .ident id, .ident id', same => by
    obtain ⟨id, rfl, rfl⟩ := Ident.exists_common joint (Exp.ident.inj same)
    exact ⟨.ident id, rfl, rfl⟩
  | .dot base field, .dot base' field', same => by
    obtain ⟨bases, fields⟩ := Exp.dot.inj same
    obtain ⟨base, rfl, rfl⟩ := Exp.exists_common joint base base' bases
    obtain ⟨field, rfl, rfl⟩ := Ident.exists_common joint fields
    exact ⟨.dot base field, rfl, rfl⟩
  | .assign target value, .assign target' value', same => by
    obtain ⟨targets, values⟩ := Exp.assign.inj same
    obtain ⟨target, rfl, rfl⟩ := Exp.exists_common joint target target' targets
    obtain ⟨value, rfl, rfl⟩ := Exp.exists_common joint value value' values
    exact ⟨.assign target value, rfl, rfl⟩
  | .call callee args, .call callee' args', same => by
    obtain ⟨callees, arguments⟩ := Exp.call.inj same
    obtain ⟨callee, rfl, rfl⟩ := Ident.exists_common joint callees
    obtain ⟨args, rfl, rfl⟩ := Exp.exists_commonAll joint args args' arguments
    exact ⟨.call callee args, rfl, rfl⟩
  | .unary op operand, .unary op' operand', same => by
    obtain ⟨rfl, operands⟩ := Exp.unary.inj same
    obtain ⟨operand, rfl, rfl⟩ := Exp.exists_common joint operand operand' operands
    exact ⟨.unary op operand, rfl, rfl⟩
  | .binary op left right, .binary op' left' right', same => by
    obtain ⟨rfl, lefts, rights⟩ := Exp.binary.inj same
    obtain ⟨left, rfl, rfl⟩ := Exp.exists_common joint left left' lefts
    obtain ⟨right, rfl, rfl⟩ := Exp.exists_common joint right right' rights
    exact ⟨.binary op left right, rfl, rfl⟩

theorem Exp.exists_commonAll (joint : ρ.Joint σ) : (es es' : List Exp) →
    Exp.unplacedAll es = Exp.unplacedAll es' →
    ∃ common : List Exp, Exp.relabelAll ρ common = es ∧ Exp.relabelAll σ common = es'
  | [], [], _ => ⟨[], rfl, rfl⟩
  | e :: es, e' :: es', same => by
    obtain ⟨head, tail⟩ := List.cons.inj same
    obtain ⟨e, rfl, rfl⟩ := Exp.exists_common joint e e' head
    obtain ⟨es, rfl, rfl⟩ := Exp.exists_commonAll joint es es' tail
    exact ⟨e :: es, rfl, rfl⟩

end

mutual

theorem Stmt.exists_common (joint : ρ.Joint σ) : (s s' : Stmt) → s.unplaced = s'.unplaced →
    ∃ common : Stmt, common.relabel ρ = s ∧ common.relabel σ = s'
  | .assign target value, .assign target' value', same => by
    obtain ⟨targets, values⟩ := Stmt.assign.inj same
    obtain ⟨target, rfl, rfl⟩ := Exp.exists_common joint target target' targets
    obtain ⟨value, rfl, rfl⟩ := Exp.exists_common joint value value' values
    exact ⟨.assign target value, rfl, rfl⟩
  | .increment target, .increment target', same => by
    obtain ⟨target, rfl, rfl⟩ := Exp.exists_common joint target target' (Stmt.increment.inj same)
    exact ⟨.increment target, rfl, rfl⟩
  | .decrement target, .decrement target', same => by
    obtain ⟨target, rfl, rfl⟩ := Exp.exists_common joint target target' (Stmt.decrement.inj same)
    exact ⟨.decrement target, rfl, rfl⟩
  | .read target, .read target', same => by
    obtain ⟨target, rfl, rfl⟩ := Exp.exists_common joint target target' (Stmt.read.inj same)
    exact ⟨.read target, rfl, rfl⟩
  | .write value, .write value', same => by
    obtain ⟨value, rfl, rfl⟩ := Exp.exists_common joint value value' (Stmt.write.inj same)
    exact ⟨.write value, rfl, rfl⟩
  | .ifThen condition body, .ifThen condition' body', same => by
    obtain ⟨conditions, bodies⟩ := Stmt.ifThen.inj same
    obtain ⟨condition, rfl, rfl⟩ := Exp.exists_common joint condition condition' conditions
    obtain ⟨body, rfl, rfl⟩ := Block.exists_common joint body body' bodies
    exact ⟨.ifThen condition body, rfl, rfl⟩
  | .ifElse condition yes no, .ifElse condition' yes' no', same => by
    obtain ⟨conditions, firsts, seconds⟩ := Stmt.ifElse.inj same
    obtain ⟨condition, rfl, rfl⟩ := Exp.exists_common joint condition condition' conditions
    obtain ⟨yes, rfl, rfl⟩ := Block.exists_common joint yes yes' firsts
    obtain ⟨no, rfl, rfl⟩ := Block.exists_common joint no no' seconds
    exact ⟨.ifElse condition yes no, rfl, rfl⟩
  | .whileLoop condition body, .whileLoop condition' body', same => by
    obtain ⟨conditions, bodies⟩ := Stmt.whileLoop.inj same
    obtain ⟨condition, rfl, rfl⟩ := Exp.exists_common joint condition condition' conditions
    obtain ⟨body, rfl, rfl⟩ := Block.exists_common joint body body' bodies
    exact ⟨.whileLoop condition body, rfl, rfl⟩
  | .repeatLoop count body, .repeatLoop count' body', same => by
    obtain ⟨counts, bodies⟩ := Stmt.repeatLoop.inj same
    obtain ⟨count, rfl, rfl⟩ := Exp.exists_common joint count count' counts
    obtain ⟨body, rfl, rfl⟩ := Block.exists_common joint body body' bodies
    exact ⟨.repeatLoop count body, rfl, rfl⟩
  | .call callee args, .call callee' args', same => by
    obtain ⟨callees, arguments⟩ := Stmt.call.inj same
    obtain ⟨callee, rfl, rfl⟩ := Ident.exists_common joint callees
    obtain ⟨args, rfl, rfl⟩ := Exp.exists_commonAll joint args args' arguments
    exact ⟨.call callee args, rfl, rfl⟩
  | .giveBack none p, .giveBack none q, _ => by
    obtain ⟨r, rfl, rfl⟩ := joint.position p q
    exact ⟨.giveBack none r, rfl, rfl⟩
  | .giveBack (some value) p, .giveBack (some value') q, same => by
    obtain ⟨values, -⟩ := Stmt.giveBack.inj same
    obtain ⟨r, rfl, rfl⟩ := joint.position p q
    obtain ⟨value, rfl, rfl⟩ := Exp.exists_common joint value value' (Option.some.inj values)
    exact ⟨.giveBack (some value) r, rfl, rfl⟩

theorem Block.exists_common (joint : ρ.Joint σ) : (b b' : Block) → b.unplaced = b'.unplaced →
    ∃ common : Block, common.relabel ρ = b ∧ common.relabel σ = b'
  | .mk decls stmts, .mk decls' stmts', same => by
    obtain ⟨frames, bodies⟩ := Block.mk.inj same
    obtain ⟨decls, rfl, rfl⟩ := exists_common_map (VarDecl.exists_common joint) decls decls' frames
    obtain ⟨stmts, rfl, rfl⟩ := Stmt.exists_commonAll joint stmts stmts' bodies
    exact ⟨.mk decls stmts, rfl, rfl⟩

theorem Stmt.exists_commonAll (joint : ρ.Joint σ) : (ss ss' : List Stmt) →
    Stmt.unplacedAll ss = Stmt.unplacedAll ss' →
    ∃ common : List Stmt, Stmt.relabelAll ρ common = ss ∧ Stmt.relabelAll σ common = ss'
  | [], [], _ => ⟨[], rfl, rfl⟩
  | s :: ss, s' :: ss', same => by
    obtain ⟨head, tail⟩ := List.cons.inj same
    obtain ⟨s, rfl, rfl⟩ := Stmt.exists_common joint s s' head
    obtain ⟨ss, rfl, rfl⟩ := Stmt.exists_commonAll joint ss ss' tail
    exact ⟨s :: ss, rfl, rfl⟩

end

theorem Decl.exists_common (joint : ρ.Joint σ) : (d d' : Decl) → d.unplaced = d'.unplaced →
    ∃ common : Decl, common.relabel ρ = d ∧ common.relabel σ = d'
  | .var d, .var d', same => by
    obtain ⟨d, rfl, rfl⟩ := VarDecl.exists_common joint d d' (Decl.var.inj same)
    exact ⟨.var d, rfl, rfl⟩
  | .fn ⟨type, name, formals, body⟩, .fn ⟨type', name', formals', body'⟩, same => by
    obtain ⟨types, names, headings, bodies⟩ := FnDecl.mk.inj (Decl.fn.inj same)
    obtain ⟨type, rfl, rfl⟩ := TypeExp.exists_common joint type type' types
    obtain ⟨name, rfl, rfl⟩ := Ident.exists_common joint names
    obtain ⟨formals, rfl, rfl⟩ :=
      exists_common_map (VarDecl.exists_common joint) formals formals' headings
    obtain ⟨body, rfl, rfl⟩ := Block.exists_common joint body body' bodies
    exact ⟨.fn ⟨type, name, formals, body⟩, rfl, rfl⟩
  | .struct ⟨name, fields⟩, .struct ⟨name', fields'⟩, same => by
    obtain ⟨names, bodies⟩ := StructDecl.mk.inj (Decl.struct.inj same)
    obtain ⟨name, rfl, rfl⟩ := Ident.exists_common joint names
    obtain ⟨fields, rfl, rfl⟩ :=
      exists_common_map (VarDecl.exists_common joint) fields fields' bodies
    exact ⟨.struct ⟨name, fields⟩, rfl, rfl⟩

/-- Two programs that are equal up to positions are one program, labelled in two ways. -/
theorem Program.exists_common (joint : ρ.Joint σ) {p q : Program} (same : p.unplaced = q.unplaced) :
    ∃ common : Program, common.relabel ρ = p ∧ common.relabel σ = q := by
  obtain ⟨ds, first, second⟩ :=
    exists_common_map (Decl.exists_common joint) p.decls q.decls (Program.mk.inj same)
  exact ⟨⟨ds⟩, congrArg Program.mk first, congrArg Program.mk second⟩

/-- The common program is as proper as the two. -/
theorem Scoping.Proper.of_relabel {p : Program} (names : ρ.name = id)
    (proper : Proper (p.relabel ρ).idents) : Proper p.idents := by
  obtain ⟨distinct, named⟩ := proper
  rw [Program.idents_relabel] at distinct named
  constructor
  · have moved : ((nodes p.idents).map ρ.node).Nodup := by
      rw [nodes, List.map_map] at distinct ⊢
      exact distinct
    exact moved.of_map
  · intro id mem
    have kept := named (id.relabel ρ) (List.mem_map_of_mem mem)
    rwa [Ident.relabel, names] at kept

/-! ## What two analyses have in common -/

/-- The four kinds of things that a name can mean. -/
inductive Symbol.Kind where
  | plain
  | function
  | structDef
  | structVar
  deriving DecidableEq

def Symbol.kind : Symbol → Symbol.Kind
  | plain _ _ => .plain
  | function _ _ _ => .function
  | structDef _ => .structDef
  | structVar _ _ _ => .structVar

/-- What is shown of the meaning of an identifier: its kind and its text. -/
def Bindings.meaning (b : Bindings) (id : Ident) : Option (Symbol.Kind × Text) :=
  (b.symbolOf id).map fun s => (s.kind, s.render)

/-- The `n`-th site of one program and the `n`-th site of another stand at these positions. -/
def Program.SitesAt (p q : Program) (n : Nat) (here there : Position) : Prop :=
  (p.sites[n]?).map Site.position = some here ∧ (q.sites[n]?).map Site.position = some there

/-- Analyses of two programs that tell the same about them: the same messages in the same order at
corresponding places, the same types, the same text of the file scope, and the same meaning for each
identifier. -/
structure Analysis.Alike (p q : Program) (a b : Analysis) : Prop where
  messages : a.diagnostics.map Diagnostic.message = b.diagnostics.map Diagnostic.message
  places : List.Forall₂ (fun d e => ∃ n, p.SitesAt q n d.position e.position)
    a.diagnostics b.diagnostics
  types : a.typing.types = b.typing.types
  globals : a.scopes.render = b.scopes.render
  meanings : p.idents.map a.bindings.meaning = q.idents.map b.bindings.meaning

theorem Program.sitesAt_relabel {p : Program} {here : Position}
    (site : here ∈ p.sites.map Site.position) :
    ∃ n, (p.relabel ρ).SitesAt (p.relabel σ) n (ρ.position here) (σ.position here) := by
  obtain ⟨n, found⟩ := List.mem_iff_getElem?.mp site
  rw [List.getElem?_map, Option.map_eq_some_iff] at found
  obtain ⟨s, found, rfl⟩ := found
  refine ⟨n, ?_, ?_⟩
  · simp [Program.sites_relabel, found, Site.position_relabel]
  · simp [Program.sites_relabel, found, Site.position_relabel]

theorem Symbol.kind_relabel (s : Symbol) : (s.relabel ρ).kind = s.kind := by
  cases s <;> rfl

theorem Symbol.render_relabel (names : ρ.name = id) (s : Symbol) :
    (s.relabel ρ).render = s.render := by
  rw [Symbol.render, s.type_relabel, names, Ty.rename_id, Symbol.render]

/-! ## Relabellings that keep names -/

theorem Typing.types_relabel (names : ρ.name = id) (t : Typing) :
    (t.relabel ρ).types = t.types := by
  simp only [Typing.relabel, Typing.types, List.map_map]
  refine List.map_congr_left fun entry _ => ?_
  exact (congrArg (Ty.rename · entry.2) names).trans entry.2.rename_id

theorem Scopes.render_relabel (names : ρ.name = id) (s : Scopes) :
    (s.relabel ρ).render = s.render := by
  have entries : ∀ entry : Text × Symbol, ρ.name entry.1 ++ ": " ++ (entry.2.relabel ρ).render
      = entry.1 ++ ": " ++ entry.2.render := by
    intro entry
    rw [names, Symbol.render_relabel names, id]
  simp only [Scopes.render, Scopes.relabel, List.map_map, Function.comp_def, Symbol.renderFrame,
    Frame.relabel, Table.rekey, Prod.map, entries]

theorem Program.meanings_relabel (names : ρ.name = id) {p : Program} (proper : Proper p.idents)
    (kept : Proper (p.relabel ρ).idents) :
    (p.relabel ρ).idents.map ((Scoping.analysis p).bindings.relabel ρ).meaning
      = p.idents.map (Scoping.analysis p).bindings.meaning := by
  rw [Program.idents_relabel, List.map_map]
  refine List.map_congr_left fun id mem => ?_
  have found := Scoping.symbolOf_analysis_relabel proper kept mem
  simp only [Function.comp_apply, Bindings.meaning, found, Option.map_map]
  congr 1
  funext s
  simp [Symbol.kind_relabel, Symbol.render_relabel names]

/-- Two labellings of one program are analysed alike. -/
theorem Scoping.alike_relabel (joint : ρ.Joint σ) {p : Program} (proper : Proper p.idents)
    (left : Proper (p.relabel ρ).idents) (right : Proper (p.relabel σ).idents) :
    Analysis.Alike (p.relabel ρ) (p.relabel σ) ((analysis p).relabel ρ) ((analysis p).relabel σ) := by
  constructor
  · simp only [Analysis.relabel, List.map_map]
    rfl
  · rw [Analysis.relabel, Analysis.relabel, List.forall₂_map_left_iff, List.forall₂_map_right_iff,
      List.forall₂_same]
    have placed : Placed (analysis p).diagnostics p.sites :=
      p.placed_scoping.append (p.placed_check _)
    intro d mem
    exact Program.sitesAt_relabel (placed d mem)
  · exact (Typing.types_relabel joint.left _).trans (Typing.types_relabel joint.right _).symm
  · exact (Scopes.render_relabel joint.left _).trans (Scopes.render_relabel joint.right _).symm
  · exact (Program.meanings_relabel joint.left proper left).trans
      (Program.meanings_relabel joint.right proper right).symm

theorem Program.exists_alike {p q : Program} (left : Proper p.idents) (right : Proper q.idents)
    (same : p.unplaced = q.unplaced) :
    ∃ a b, p.analyze = .ok a ∧ q.analyze = .ok b ∧ Analysis.Alike p q a b := by
  obtain ⟨ρ, σ, joint⟩ := Relabelling.exists_joint
  obtain ⟨common, rfl, rfl⟩ := Program.exists_common joint same
  have proper := Scoping.Proper.of_relabel joint.left left
  refine ⟨_, _, Program.analyze_eq_scoping left, Program.analyze_eq_scoping right, ?_⟩
  rw [Scoping.analysis_relabel proper left, Scoping.analysis_relabel proper right]
  exact Scoping.alike_relabel joint proper left right

/-! ## Formatted sources -/

/-- A source that is formatted was read as a program, and its text is that of the program. -/
theorem Text.render_of_format {source text : Text} {indent : Indent}
    (formatted : source.format indent .plain = .ok text) :
    ∃ p, source.parse.program = some p ∧ p.render indent Ident.name = .ok text := by
  rw [Text.format] at formatted
  cases read : source.parse.program with
  | none => simp [read] at formatted
  | some p =>
    simp only [read] at formatted
    split at formatted
    · cases formatted
    · change (p.render indent Ident.name).mapError FormatError.indent = .ok text at formatted
      cases rendered : p.render indent Ident.name with
      | error e => simp [rendered, Except.mapError] at formatted
      | ok t =>
        rw [rendered] at formatted
        obtain rfl : t = text := Except.ok.inj formatted
        exact ⟨p, rfl, rendered⟩

/-- Programs that are equal up to positions are analysed alike, and so are a source and what
formatting makes of it. -/
theorem Program.analyze_unplaced :
    (∀ p q : Program, Proper p.idents → Proper q.idents → p.unplaced = q.unplaced →
      ∃ a b, p.analyze = .ok a ∧ q.analyze = .ok b ∧ Analysis.Alike p q a b) ∧
    ∀ (source text : Text) (n : Nat), source.format (.blanks n) .plain = .ok text →
      ∃ p q a b, source.parse.program = some p ∧ text.parse.program = some q ∧
        p.analyze = .ok a ∧ q.analyze = .ok b ∧ Analysis.Alike p q a b := by
  refine ⟨fun p q left right same => exists_alike left right same, ?_⟩
  intro source text n formatted
  obtain ⟨p, parsed, rendered⟩ := Text.render_of_format formatted
  obtain ⟨text', q, rendered', reparsed, same⟩ := parse_render (wellShaped_of_parse parsed) n
  obtain rfl : text = text' := Except.ok.inj (rendered.symm.trans rendered')
  have again : text.parse.program = some q := by rw [reparsed]
  obtain ⟨a, b, first, second, alike⟩ :=
    exists_alike (proper_of_parse parsed) (proper_of_parse again) same.symm
  exact ⟨p, q, a, b, parsed, again, first, second, alike⟩

/-- A truth value is to be given back, but the name given back is unknown. -/
theorem Program.analyze_unplaced_undeclared :
    (∃ p q, (Text.parse "bool f() \x7b return x; \x7d").program = some p ∧
      (Text.parse "bool\nf()\n\x7breturn x;\x7d").program = some q ∧ p.unplaced = q.unplaced ∧
      ∃ a b, p.analyze = .ok a ∧ q.analyze = .ok b ∧ Analysis.Alike p q a b ∧
        a.diagnostics = [.error ⟨1, 19⟩ .undeclared]) ∧
    ∃ text, Text.format (.blanks 3) .plain "bool f() \x7b return x; \x7d" = .ok text ∧
      ∃ p q a b, (Text.parse "bool f() \x7b return x; \x7d").program = some p ∧
        text.parse.program = some q ∧ p.analyze = .ok a ∧ q.analyze = .ok b ∧
        Analysis.Alike p q a b := by
  obtain ⟨p, parsed, written, reported⟩ : ∃ p,
      (Text.parse "bool f() \x7b return x; \x7d").program = some p ∧
      (p.render (.blanks 3) Ident.name).toOption =
        some (Text.ofString "bool f() \x7b\n   return x;\n\x7d\n") ∧
      p.analyze.toOption.map Analysis.diagnostics = some [.error ⟨1, 19⟩ .undeclared] :=
    Text.exists_of_parseOnTape (by decide +kernel)
  obtain ⟨q, parsed', written'⟩ : ∃ q,
      (Text.parse "bool\nf()\n\x7breturn x;\x7d").program = some q ∧
      (q.render (.blanks 3) Ident.name).toOption =
        some (Text.ofString "bool f() \x7b\n   return x;\n\x7d\n") :=
    Text.exists_of_parseOnTape (by decide +kernel)
  obtain ⟨text, -, rendered, -⟩ := parse_render (wellShaped_of_parse parsed) 3
  obtain ⟨text', -, rendered', -⟩ := parse_render (wellShaped_of_parse parsed') 3
  have same : p.unplaced = q.unplaced := by
    rw [rendered] at written
    rw [rendered'] at written'
    obtain rfl : text = text' := Option.some.inj (written.trans written'.symm)
    exact unplaced_eq_of_render (wellShaped_of_parse parsed) (wellShaped_of_parse parsed') rendered
      rendered'
  obtain ⟨a, b, analyzed, analyzed', alike⟩ := analyze_unplaced.1 p q
    (proper_of_parse parsed) (proper_of_parse parsed') same
  rw [analyzed] at reported
  have accepted : (Text.parse "bool f() \x7b return x; \x7d").hasErrors = false := by
    rw [Text.parse_eq_parseOnTape]
    decide +kernel
  have formatted : Text.format (.blanks 3) .plain "bool f() \x7b return x; \x7d" = .ok text := by
    simp only [Text.format, parsed, accepted, Program.format, Program.label, rendered]
    rfl
  exact ⟨⟨p, q, parsed, parsed', same, a, b, analyzed, analyzed', alike, Option.some.inj reported⟩,
    text, formatted, analyze_unplaced.2 _ text 3 formatted⟩

end Cinder
