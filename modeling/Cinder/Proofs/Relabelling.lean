import Cinder.Proofs.Places
import Cinder.Proofs.Table

/-!
# Relabelling

A relabelling gives the identifiers of a program other numbers and other names, and moves whatever has
a position. Different names stay different; numbers and positions may fall together. All that an
analysis reads and returns can be relabelled: trees, types, symbols, scopes and diagnostics.
-/
namespace Cinder

structure Relabelling where
  node : Nat → Nat
  name : Text → Text
  position : Position → Position
  name_injective : Function.Injective name

variable (ρ : Relabelling)

/-! ## Trees -/

def Ident.relabel (id : Ident) : Ident :=
  ⟨ρ.node id.node, ρ.name id.name, ρ.position id.position⟩

def TypeExp.relabel : TypeExp → TypeExp
  | struct name => struct (name.relabel ρ)
  | type => type

def VarDecl.relabel (d : VarDecl) : VarDecl := ⟨d.type.relabel ρ, d.name.relabel ρ⟩

mutual

def Exp.relabel : Exp → Exp
  | .int value text position => .int value text (ρ.position position)
  | .string text position => .string text (ρ.position position)
  | .bool value position => .bool value (ρ.position position)
  | .ident id => .ident (id.relabel ρ)
  | .dot base field => .dot base.relabel (field.relabel ρ)
  | .assign target value => .assign target.relabel value.relabel
  | .call callee args => .call (callee.relabel ρ) (Exp.relabelAll args)
  | .unary op operand => .unary op operand.relabel
  | .binary op left right => .binary op left.relabel right.relabel

def Exp.relabelAll : List Exp → List Exp
  | [] => []
  | e :: rest => e.relabel :: Exp.relabelAll rest

end

mutual

def Stmt.relabel : Stmt → Stmt
  | .assign target value => .assign (target.relabel ρ) (value.relabel ρ)
  | .increment target => .increment (target.relabel ρ)
  | .decrement target => .decrement (target.relabel ρ)
  | .read target => .read (target.relabel ρ)
  | .write value => .write (value.relabel ρ)
  | .ifThen condition body => .ifThen (condition.relabel ρ) body.relabel
  | .ifElse condition yes no => .ifElse (condition.relabel ρ) yes.relabel no.relabel
  | .whileLoop condition body => .whileLoop (condition.relabel ρ) body.relabel
  | .repeatLoop count body => .repeatLoop (count.relabel ρ) body.relabel
  | .call callee args => .call (callee.relabel ρ) (Exp.relabelAll ρ args)
  | .giveBack none position => .giveBack none (ρ.position position)
  | .giveBack (some value) position => .giveBack (some (value.relabel ρ)) (ρ.position position)

def Block.relabel : Block → Block
  | .mk decls stmts => .mk (decls.map (VarDecl.relabel ρ)) (Stmt.relabelAll stmts)

def Stmt.relabelAll : List Stmt → List Stmt
  | [] => []
  | s :: rest => s.relabel :: Stmt.relabelAll rest

end

def FnDecl.relabel (d : FnDecl) : FnDecl :=
  ⟨d.resultType.relabel ρ, d.name.relabel ρ, d.formals.map (VarDecl.relabel ρ), d.body.relabel ρ⟩

def StructDecl.relabel (d : StructDecl) : StructDecl :=
  ⟨d.name.relabel ρ, d.fields.map (VarDecl.relabel ρ)⟩

def Decl.relabel : Decl → Decl
  | var d => var (d.relabel ρ)
  | fn d => fn (d.relabel ρ)
  | struct d => struct (d.relabel ρ)

def Program.relabel (p : Program) : Program := ⟨p.decls.map (Decl.relabel ρ)⟩

/-! ## Types, symbols and reports -/

mutual

/-- A type with other names for its structs. -/
def Ty.rename (f : Text → Text) : Ty → Ty
  | .struct name => .struct (f name)
  | .structDef name => .structDef (f name)
  | .function params result => .function (Ty.renameAll f params) (result.rename f)
  | .int => .int
  | .bool => .bool
  | .void => .void
  | .string => .string
  | .error => .error

def Ty.renameAll (f : Text → Text) : List Ty → List Ty
  | [] => []
  | type :: rest => type.rename f :: Ty.renameAll f rest

end

mutual

def Symbol.relabel : Symbol → Symbol
  | .plain name type => .plain (ρ.name name) (type.rename ρ.name)
  | .function name result params =>
    .function (ρ.name name) (result.rename ρ.name) (Ty.renameAll ρ.name params)
  | .structDef definition => .structDef definition.relabel
  | .structVar name typeName definition =>
    .structVar (ρ.name name) (typeName.relabel ρ) definition.relabel

def StructDef.relabel : StructDef → StructDef
  | .mk name fields => .mk (ρ.name name) (Symbol.relabelAll fields)

def Symbol.relabelAll : List Symbol → List Symbol
  | [] => []
  | s :: rest => s.relabel :: Symbol.relabelAll rest

end

def Frame.relabel (frame : Frame) : Frame := frame.rekey ρ.name (Symbol.relabel ρ)

def Diagnostic.relabel (d : Diagnostic) : Diagnostic := { d with position := ρ.position d.position }

def Site.relabel : Site → Site
  | ident id => ident (id.relabel ρ)
  | mark position => mark (ρ.position position)

variable {ρ}

/-! ## Renamed types -/

theorem Ty.renameAll_eq_map (f : Text → Text) (types : List Ty) :
    Ty.renameAll f types = types.map (Ty.rename f) := by
  induction types with
  | nil => rfl
  | cons type rest ih => rw [Ty.renameAll, ih, List.map_cons]

mutual

theorem Ty.rename_id : (type : Ty) → type.rename id = type
  | .function params result => by rw [Ty.rename, Ty.renameAll_id params, Ty.rename_id result]
  | .struct _ | .structDef _ | .int | .bool | .void | .string | .error => rfl

theorem Ty.renameAll_id : (types : List Ty) → Ty.renameAll id types = types
  | [] => rfl
  | type :: rest => by rw [Ty.renameAll, Ty.rename_id type, Ty.renameAll_id rest]

end

@[simp] theorem Ty.isError_rename (f : Text → Text) (type : Ty) :
    (type.rename f).isError = type.isError := by
  cases type <;> rfl

mutual

/-- Sameness of types depends only on which names are equal. -/
theorem Ty.same_rename {f : Text → Text} (injective : Function.Injective f) :
    (a b : Ty) → (a.rename f).same (b.rename f) = a.same b
  | .function params result, .function params' result' => by
    simp only [Ty.rename, Ty.same, Ty.sameAll_rename injective params params',
      Ty.same_rename injective result result']
  | .function _ _, .int | .function _ _, .bool | .function _ _, .void | .function _ _, .string
  | .function _ _, .error | .function _ _, .struct _ | .function _ _, .structDef _ => rfl
  | .struct m, b => by cases b <;> simp [Ty.rename, Ty.same, injective.eq_iff]
  | .structDef m, b => by cases b <;> simp [Ty.rename, Ty.same, injective.eq_iff]
  | .int, b | .bool, b | .void, b | .string, b | .error, b => by cases b <;> rfl

theorem Ty.sameAll_rename {f : Text → Text} (injective : Function.Injective f) :
    (as bs : List Ty) → Ty.sameAll (Ty.renameAll f as) (Ty.renameAll f bs) = Ty.sameAll as bs
  | [], [] | [], _ :: _ | _ :: _, [] => rfl
  | a :: as, b :: bs => by
    simp only [Ty.renameAll, Ty.sameAll, Ty.same_rename injective a b,
      Ty.sameAll_rename injective as bs]

end

@[simp] theorem TypeExp.type_relabel (type : TypeExp) :
    (type.relabel ρ).type = type.type.rename ρ.name := by
  cases type <;> rfl

/-! ## Relabelled symbols -/

theorem Symbol.relabelAll_eq_map (symbols : List Symbol) :
    Symbol.relabelAll ρ symbols = symbols.map (Symbol.relabel ρ) := by
  induction symbols with
  | nil => rfl
  | cons s rest ih => rw [Symbol.relabelAll, ih, List.map_cons]

theorem StructDef.name_relabel (d : StructDef) : (d.relabel ρ).name = ρ.name d.name := by
  obtain ⟨name, fields⟩ := d
  rfl

theorem Symbol.name_relabel (s : Symbol) : (s.relabel ρ).name = ρ.name s.name := by
  cases s with
  | structDef d => exact d.name_relabel
  | _ => rfl

theorem Symbol.type_relabel (s : Symbol) : (s.relabel ρ).type = s.type.rename ρ.name := by
  cases s with
  | structDef d => exact congrArg Ty.structDef d.name_relabel
  | _ => rfl

theorem StructDef.field?_relabel (d : StructDef) (name : Text) :
    (d.relabel ρ).field? (ρ.name name) = (d.field? name).map (Symbol.relabel ρ) := by
  obtain ⟨own, fields⟩ := d
  change (Symbol.relabelAll ρ fields).find? _ = (fields.find? _).map _
  rw [Symbol.relabelAll_eq_map, List.find?_map]
  congr 2
  funext s
  simp [Symbol.name_relabel, ρ.name_injective.eq_iff]

theorem Frame.find?_relabel (frame : Frame) (name : Text) :
    (Frame.relabel ρ frame).find? (ρ.name name) = (frame.find? name).map (Symbol.relabel ρ) :=
  Table.find?_rekey fun _ _ same => ρ.name_injective same

theorem Frame.contains_relabel (frame : Frame) (name : Text) :
    (Frame.relabel ρ frame).contains (ρ.name name) = frame.contains name := by
  rw [Table.contains, Frame.find?_relabel, Option.isSome_map, Table.contains]

theorem Frame.insert_relabel (frame : Frame) (name : Text) (s : Symbol) :
    (Frame.relabel ρ frame).insert (ρ.name name) (s.relabel ρ)
      = Frame.relabel ρ (frame.insert name s) :=
  Table.insert_rekey ρ.name_injective frame name s

theorem Frame.values_relabel (frame : Frame) :
    (Frame.relabel ρ frame).values = Symbol.relabelAll ρ frame.values := by
  simp [Frame.relabel, Table.rekey, Table.values, Symbol.relabelAll_eq_map]

/-! ## Relabelled sites -/

theorem Site.position_relabel (site : Site) :
    (site.relabel ρ).position = ρ.position site.position := by
  cases site <;> rfl

theorem Site.ident?_relabel (site : Site) :
    (site.relabel ρ).ident? = site.ident?.map (Ident.relabel ρ) := by
  cases site <;> rfl

theorem VarDecl.sites_relabel (d : VarDecl) :
    (d.relabel ρ).sites = d.sites.map (Site.relabel ρ) := by
  obtain ⟨type, name⟩ := d
  cases type <;> rfl

theorem VarDecl.sitesAll_relabel (ds : List VarDecl) :
    (ds.map (VarDecl.relabel ρ)).flatMap VarDecl.sites
      = (ds.flatMap VarDecl.sites).map (Site.relabel ρ) := by
  simp [List.flatMap_map, List.map_flatMap, VarDecl.sites_relabel]

mutual

theorem Exp.sites_relabel : (e : Exp) → (e.relabel ρ).sites = e.sites.map (Site.relabel ρ)
  | .int _ _ _ | .string _ _ | .bool _ _ | .ident _ => rfl
  | .dot base field => by
    simp [Exp.relabel, Exp.sites, Exp.sites_relabel base, Site.relabel]
  | .assign target value => by
    simp [Exp.relabel, Exp.sites, Exp.sites_relabel target, Exp.sites_relabel value]
  | .call callee args => by
    simp [Exp.relabel, Exp.sites, Exp.sitesAll_relabel args, Site.relabel]
  | .unary _ operand => Exp.sites_relabel operand
  | .binary _ left right => by
    simp [Exp.relabel, Exp.sites, Exp.sites_relabel left, Exp.sites_relabel right]

theorem Exp.sitesAll_relabel : (es : List Exp) →
    Exp.sitesAll (Exp.relabelAll ρ es) = (Exp.sitesAll es).map (Site.relabel ρ)
  | [] => rfl
  | e :: es => by
    simp [Exp.relabelAll, Exp.sitesAll, Exp.sites_relabel e, Exp.sitesAll_relabel es]

end

mutual

theorem Stmt.sites_relabel : (s : Stmt) → (s.relabel ρ).sites = s.sites.map (Site.relabel ρ)
  | .assign _ _ => by simp [Stmt.relabel, Stmt.sites, Exp.sites_relabel]
  | .increment target | .decrement target | .read target | .write target =>
    Exp.sites_relabel target
  | .ifThen _ body | .whileLoop _ body | .repeatLoop _ body => by
    simp [Stmt.relabel, Stmt.sites, Exp.sites_relabel, Block.sites_relabel body]
  | .ifElse _ yes no => by
    simp [Stmt.relabel, Stmt.sites, Exp.sites_relabel, Block.sites_relabel yes,
      Block.sites_relabel no]
  | .call callee args => Exp.sites_relabel (.call callee args)
  | .giveBack none _ => rfl
  | .giveBack (some value) _ => by simp [Stmt.relabel, Stmt.sites, Exp.sites_relabel, Site.relabel]

theorem Block.sites_relabel : (b : Block) → (b.relabel ρ).sites = b.sites.map (Site.relabel ρ)
  | .mk decls stmts => by
    simp [Block.relabel, Block.sites, VarDecl.sitesAll_relabel, Stmt.sitesAll_relabel stmts]

theorem Stmt.sitesAll_relabel : (ss : List Stmt) →
    Stmt.sitesAll (Stmt.relabelAll ρ ss) = (Stmt.sitesAll ss).map (Site.relabel ρ)
  | [] => rfl
  | s :: ss => by
    simp [Stmt.relabelAll, Stmt.sitesAll, Stmt.sites_relabel s, Stmt.sitesAll_relabel ss]

end

theorem Decl.sites_relabel (d : Decl) : (d.relabel ρ).sites = d.sites.map (Site.relabel ρ) := by
  cases d with
  | var d => exact d.sites_relabel
  | fn d =>
    obtain ⟨type, name, formals, body⟩ := d
    have result : (type.relabel ρ).idents = type.idents.map (Ident.relabel ρ) := by
      cases type <;> rfl
    simp [Decl.relabel, FnDecl.relabel, Decl.sites, result, VarDecl.sitesAll_relabel,
      Block.sites_relabel, Site.relabel]
  | struct d =>
    simp [Decl.relabel, StructDecl.relabel, Decl.sites, VarDecl.sitesAll_relabel, Site.relabel]

theorem Program.sites_relabel (p : Program) :
    (p.relabel ρ).sites = p.sites.map (Site.relabel ρ) := by
  simp [Program.relabel, Program.sites, List.flatMap_map, List.map_flatMap, Decl.sites_relabel]

theorem Program.idents_relabel (p : Program) :
    (p.relabel ρ).idents = p.idents.map (Ident.relabel ρ) := by
  rw [← Program.idents_eq, ← Program.idents_eq, Program.sites_relabel, List.filterMap_map,
    List.map_filterMap]
  congr 1
  funext site
  exact site.ident?_relabel

end Cinder
