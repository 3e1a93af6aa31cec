import Cinder.Program.Idents
import Cinder.Proofs.Scoping.Walk
import Cinder.Typing

/-!
# Where reports are placed

The sites of a program are the parts of it that have a position of their own: identifiers, literals and
the keyword of a `return`. Whatever is reported about a program, about its names or about its types, is
reported at one of its sites.
-/
namespace Cinder

/-- An identifier, or a literal or keyword of which only the position matters. -/
inductive Site where
  | ident (id : Ident)
  | mark (position : Position)

namespace Site

def position : Site → Position
  | ident id => id.position
  | mark position => position

def ident? : Site → Option Ident
  | ident id => some id
  | mark _ => none

end Site

/-! ## The sites of a program -/

def VarDecl.sites (d : VarDecl) : List Site := d.idents.map .ident

mutual

def Exp.sites : Exp → List Site
  | .int _ _ position => [.mark position]
  | .string _ position => [.mark position]
  | .bool _ position => [.mark position]
  | .ident id => [.ident id]
  | .dot base field => base.sites ++ [.ident field]
  | .assign target value => target.sites ++ value.sites
  | .call callee args => .ident callee :: Exp.sitesAll args
  | .unary _ operand => operand.sites
  | .binary _ left right => left.sites ++ right.sites

def Exp.sitesAll : List Exp → List Site
  | [] => []
  | e :: rest => e.sites ++ Exp.sitesAll rest

end

mutual

def Stmt.sites : Stmt → List Site
  | .assign target value => target.sites ++ value.sites
  | .increment target => target.sites
  | .decrement target => target.sites
  | .read target => target.sites
  | .write value => value.sites
  | .ifThen condition body => condition.sites ++ body.sites
  | .ifElse condition yes no => condition.sites ++ (yes.sites ++ no.sites)
  | .whileLoop condition body => condition.sites ++ body.sites
  | .repeatLoop count body => count.sites ++ body.sites
  | .call callee args => .ident callee :: Exp.sitesAll args
  | .giveBack none position => [.mark position]
  | .giveBack (some value) position => .mark position :: value.sites

def Block.sites : Block → List Site
  | .mk decls stmts => decls.flatMap VarDecl.sites ++ Stmt.sitesAll stmts

def Stmt.sitesAll : List Stmt → List Site
  | [] => []
  | s :: rest => s.sites ++ Stmt.sitesAll rest

end

def Decl.sites : Decl → List Site
  | .var d => d.sites
  | .fn d =>
    d.resultType.idents.map .ident ++ (.ident d.name :: (d.formals.flatMap VarDecl.sites ++ d.body.sites))
  | .struct d => .ident d.name :: d.fields.flatMap VarDecl.sites

/-- The sites of a program, in source order. -/
def Program.sites (p : Program) : List Site := p.decls.flatMap Decl.sites

/-! ## Identifiers among the sites -/

@[simp] theorem Site.ident?_comp_ident : Site.ident? ∘ Site.ident = some := rfl

theorem VarDecl.idents_eq (d : VarDecl) : d.sites.filterMap Site.ident? = d.idents := by
  rw [VarDecl.sites, List.filterMap_map, Site.ident?_comp_ident, List.filterMap_some]

theorem VarDecl.identsAll_eq (ds : List VarDecl) :
    (ds.flatMap VarDecl.sites).filterMap Site.ident? = ds.flatMap VarDecl.idents := by
  simp [List.filterMap_flatMap, VarDecl.idents_eq]

mutual

theorem Exp.idents_eq : (e : Exp) → e.sites.filterMap Site.ident? = e.idents
  | .int _ _ _ | .string _ _ | .bool _ _ | .ident _ => rfl
  | .dot base field => by
    simp [Exp.sites, Exp.idents, Exp.idents_eq base, Site.ident?]
  | .assign target value => by
    simp [Exp.sites, Exp.idents, Exp.idents_eq target, Exp.idents_eq value]
  | .call callee args => by
    simp [Exp.sites, Exp.idents, Exp.identsAll_eq args, Site.ident?]
  | .unary _ operand => Exp.idents_eq operand
  | .binary _ left right => by
    simp [Exp.sites, Exp.idents, Exp.idents_eq left, Exp.idents_eq right]

theorem Exp.identsAll_eq : (es : List Exp) →
    (Exp.sitesAll es).filterMap Site.ident? = Exp.identsAll es
  | [] => rfl
  | e :: es => by
    simp [Exp.sitesAll, Exp.identsAll, Exp.idents_eq e, Exp.identsAll_eq es]

end

mutual

theorem Stmt.idents_eq : (s : Stmt) → s.sites.filterMap Site.ident? = s.idents
  | .assign _ _ => by simp [Stmt.sites, Stmt.idents, Exp.idents_eq]
  | .increment target | .decrement target | .read target | .write target => Exp.idents_eq target
  | .ifThen _ body | .whileLoop _ body | .repeatLoop _ body => by
    simp [Stmt.sites, Stmt.idents, Exp.idents_eq, Block.idents_eq body]
  | .ifElse _ yes no => by
    simp [Stmt.sites, Stmt.idents, Exp.idents_eq, Block.idents_eq yes, Block.idents_eq no]
  | .call callee args => Exp.idents_eq (.call callee args)
  | .giveBack none _ => rfl
  | .giveBack (some value) _ => Exp.idents_eq value

theorem Block.idents_eq : (b : Block) → b.sites.filterMap Site.ident? = b.idents
  | .mk decls stmts => by
    simp [Block.sites, Block.idents, VarDecl.identsAll_eq, Stmt.identsAll_eq stmts]

theorem Stmt.identsAll_eq : (ss : List Stmt) →
    (Stmt.sitesAll ss).filterMap Site.ident? = Stmt.identsAll ss
  | [] => rfl
  | s :: ss => by
    simp [Stmt.sitesAll, Stmt.identsAll, Stmt.idents_eq s, Stmt.identsAll_eq ss]

end

theorem Decl.idents_eq (d : Decl) : d.sites.filterMap Site.ident? = d.idents := by
  cases d with
  | var d => exact d.idents_eq
  | fn d => simp [Decl.sites, Decl.idents, VarDecl.identsAll_eq, Block.idents_eq, Site.ident?]
  | struct d => simp [Decl.sites, Decl.idents, VarDecl.identsAll_eq, Site.ident?]

theorem Program.idents_eq (p : Program) : p.sites.filterMap Site.ident? = p.idents := by
  simp [Program.sites, Program.idents, List.filterMap_flatMap, Decl.idents_eq]

/-! ## Reports at sites -/

/-- Every report is at one of the sites. -/
def Placed (ds : List Diagnostic) (sites : List Site) : Prop :=
  ∀ d ∈ ds, d.position ∈ sites.map Site.position

namespace Placed

variable {ds es : List Diagnostic} {sites more : List Site}

theorem nil : Placed [] sites := by
  intro d mem
  cases mem

theorem one {d : Diagnostic} (here : d.position ∈ sites.map Site.position) : Placed [d] sites := by
  intro e mem
  obtain rfl := List.mem_singleton.mp mem
  exact here

theorem append (first : Placed ds sites) (second : Placed es sites) : Placed (ds ++ es) sites := by
  intro d mem
  rcases List.mem_append.mp mem with old | new
  · exact first d old
  · exact second d new

theorem widen (h : Placed ds sites) (sub : ∀ s ∈ sites, s ∈ more) : Placed ds more := by
  intro d mem
  exact List.map_subset _ sub (h d mem)

theorem left (h : Placed ds sites) : Placed ds (sites ++ more) :=
  h.widen fun _ => List.mem_append_left _

theorem right (h : Placed ds more) : Placed ds (sites ++ more) :=
  h.widen fun _ => List.mem_append_right _

/-- Two parts with sites of their own. -/
theorem beside (first : Placed ds sites) (second : Placed es more) :
    Placed (ds ++ es) (sites ++ more) :=
  first.left.append second.right

end Placed

theorem Exp.position_mem : (e : Exp) → e.position ∈ e.sites.map Site.position
  | .int _ _ _ => by simp [sites, position, Site.position]
  | .string _ _ => by simp [sites, position, Site.position]
  | .bool _ _ => by simp [sites, position, Site.position]
  | .ident _ => by simp [sites, position, Site.position]
  | .dot _ _ => by simp [sites, position, Site.position]
  | .assign target _ => by
    rw [sites, List.map_append]
    exact List.mem_append_left _ (position_mem target)
  | .call _ _ => by simp [sites, position, Site.position]
  | .unary _ operand => position_mem operand
  | .binary _ left _ => by
    rw [sites, List.map_append]
    exact List.mem_append_left _ (position_mem left)

/-! ## Types -/

theorem placed_about (problem? : Option Problem) (e : Exp) :
    Placed (Problem.about problem? e) e.sites := by
  intro d mem
  cases problem? with
  | none => cases mem
  | some problem =>
    obtain rfl := List.mem_singleton.mp mem
    exact e.position_mem

mutual

theorem Exp.placed_problems {b : Bindings} : (e : Exp) → Placed (e.problems b) e.sites
  | .int _ _ _ => .nil
  | .string _ _ => .nil
  | .bool _ _ => .nil
  | .ident _ => .nil
  | .dot base _ => (placed_problems base).left
  | .assign target value =>
    ((placed_problems target).beside (placed_problems value)).append (placed_about _ target).left
  | .call callee args => by
    rw [problems, sites]
    split
    · exact (placed_argumentProblems args _).widen fun _ => List.mem_cons_of_mem _
    · exact (placed_about _ (.ident callee)).left
  | .unary _ operand => (placed_problems operand).append (placed_about _ operand)
  | .binary op left right => by
    have inner := (placed_problems (b := b) left).beside (placed_problems (b := b) right)
    rw [problems]
    split
    · exact inner.append (placed_about _ left).left
    · exact (inner.append (placed_about _ left).left).append (placed_about _ right).right

theorem Exp.placed_argumentProblems {b : Bindings} : (args : List Exp) → (formals : List Ty) →
    Placed (Exp.argumentProblems b args formals) (Exp.sitesAll args)
  | [], _ => .nil
  | arg :: args, [] => (placed_problems arg).beside (placed_argumentProblems args [])
  | arg :: args, _ :: formals =>
    ((placed_problems arg).append (placed_about _ arg)).beside (placed_argumentProblems args formals)

end

/-- An expression that is asked for one thing. -/
theorem Exp.placed_asked {b : Bindings} (e : Exp) (problem? : Option Problem) :
    Placed (e.problems b ++ Problem.about problem? e) e.sites :=
  e.placed_problems.append (placed_about problem? e)

mutual

theorem Stmt.placed_problems {b : Bindings} {result : Ty} : (s : Stmt) →
    Placed (s.problems b result) s.sites
  | .assign target value => Exp.placed_problems (.assign target value)
  | .increment target => target.placed_asked _
  | .decrement target => target.placed_asked _
  | .read target => target.placed_asked _
  | .write value => value.placed_asked _
  | .ifThen condition body => (condition.placed_asked _).beside (Block.placed_problems body)
  | .ifElse condition yes no => by
    rw [Stmt.problems, List.append_assoc (_ ++ _)]
    exact (condition.placed_asked _).beside
      ((Block.placed_problems yes).beside (Block.placed_problems no))
  | .whileLoop condition body => (condition.placed_asked _).beside (Block.placed_problems body)
  | .repeatLoop count body => (count.placed_asked _).beside (Block.placed_problems body)
  | .call callee args => Exp.placed_problems (.call callee args)
  | .giveBack none position => by
    cases result with
    | void => exact .nil
    | _ => exact .one List.mem_cons_self
  | .giveBack (some value) position => by
    have inside : ∀ s ∈ value.sites, s ∈ (Stmt.giveBack (some value) position).sites :=
      fun _ => List.mem_cons_of_mem _
    cases result with
    | void => exact (Placed.one value.position_mem).widen inside
    | _ => exact (value.placed_asked _).widen inside

theorem Block.placed_problems {b : Bindings} {result : Ty} : (k : Block) →
    Placed (k.problems b result) k.sites
  | .mk _ stmts => (Stmt.placed_problemsAll stmts).right

theorem Stmt.placed_problemsAll {b : Bindings} {result : Ty} : (ss : List Stmt) →
    Placed (Stmt.problemsAll b result ss) (Stmt.sitesAll ss)
  | [] => .nil
  | s :: ss => (Stmt.placed_problems s).beside (Stmt.placed_problemsAll ss)

end

theorem Decl.placed_problems {b : Bindings} (d : Decl) : Placed (d.problems b) d.sites := by
  cases d with
  | fn d =>
    refine (Block.placed_problems d.body).widen fun s mem => ?_
    simp [sites, mem]
  | _ => exact .nil

/-- What the checker reports is at sites of the program. -/
theorem Program.placed_check (p : Program) (b : Bindings) :
    Placed (p.check b).diagnostics p.sites := by
  intro diagnostic mem
  obtain ⟨d, inside, reported⟩ := List.mem_flatMap.mp mem
  refine (d.placed_problems.widen fun s here => ?_) diagnostic reported
  exact List.mem_flatMap.mpr ⟨d, inside, here⟩

/-! ## Names -/

namespace Scoping

theorem placed_report {id : Ident} {sites : List Site} (here : .ident id ∈ sites)
    (problem : Problem) : Placed (Findings.report id.position problem).diagnostics sites :=
  .one (List.mem_map_of_mem here)

theorem placed_use (env : Env) (id : Ident) : Placed (use env id).diagnostics [.ident id] := by
  rw [use]
  cases env.find id.name with
  | none => exact placed_report (by simp) _
  | some s => exact .nil

theorem placed_select (base : Base) {e : Exp} (field : Ident) :
    Placed (select base e.position field).diagnostics (e.sites ++ [.ident field]) := by
  cases base with
  | unbound => exact .nil
  | other => exact (Placed.one e.position_mem).left
  | struct d =>
    rw [select]
    cases d.field? field.name with
    | none => exact (placed_report (by simp) _).right
    | some s => cases s <;> exact .nil

mutual

theorem placed_exp {env : Env} : (e : Exp) → Placed (exp env e).diagnostics e.sites
  | .int _ _ _ => .nil
  | .string _ _ => .nil
  | .bool _ _ => .nil
  | .ident id => placed_use env id
  | .dot base field => (placed_exp base).left.append (placed_select _ field)
  | .assign target value => (placed_exp target).beside (placed_exp value)
  | .call callee args => (placed_use env callee).beside (placed_exps args)
  | .unary _ operand => placed_exp operand
  | .binary _ left right => (placed_exp left).beside (placed_exp right)

theorem placed_exps {env : Env} : (es : List Exp) → Placed (exps env es).diagnostics (Exp.sitesAll es)
  | [] => .nil
  | e :: es => (placed_exp e).beside (placed_exps es)

end

theorem placed_candidate (env : Env) (d : VarDecl) :
    Placed (candidate env d).2.diagnostics d.sites := by
  obtain ⟨type, name⟩ := d
  cases type with
  | void => exact placed_report (by simp [VarDecl.sites, VarDecl.idents]) _
  | struct typeName =>
    simp only [candidate]
    cases env.struct typeName.name with
    | none => exact placed_report (by simp [VarDecl.sites, VarDecl.idents, TypeExp.idents]) _
    | some definition => exact .nil
  | _ => exact .nil

theorem placed_declare (env : Env) (taken : Bool) (d : VarDecl) :
    Placed (declare env taken d).2.diagnostics d.sites := by
  have chosen := placed_candidate env d
  have named : Site.ident d.name ∈ d.sites := by simp [VarDecl.sites, VarDecl.idents]
  cases taken with
  | true => exact chosen.append (placed_report named _)
  | false =>
    cases accepted : (candidate env d).1 with
    | none => rwa [declare_rejected accepted]
    | some s =>
      rw [declare_accepted accepted]
      exact chosen.append .nil

theorem placed_declareAll {visible : Scope → Env} : (scope : Scope) → (ds : List VarDecl) →
    Placed (declareAll visible scope ds).findings.diagnostics (ds.flatMap VarDecl.sites)
  | _, [] => .nil
  | _, d :: ds => (placed_declare _ _ d).beside (placed_declareAll _ ds)

mutual

theorem placed_stmt {env : Env} : (s : Stmt) → Placed (stmt env s).diagnostics s.sites
  | .assign target value => (placed_exp target).beside (placed_exp value)
  | .increment target => placed_exp target
  | .decrement target => placed_exp target
  | .read target => placed_exp target
  | .write value => placed_exp value
  | .ifThen condition body => (placed_exp condition).beside (placed_block body)
  | .ifElse condition yes no =>
    (placed_exp condition).beside ((placed_block yes).beside (placed_block no))
  | .whileLoop condition body => (placed_exp condition).beside (placed_block body)
  | .repeatLoop count body => (placed_exp count).beside (placed_block body)
  | .call callee args => placed_exp (.call callee args)
  | .giveBack none _ => .nil
  | .giveBack (some value) _ => (placed_exp value).widen fun _ => List.mem_cons_of_mem _

theorem placed_block {env : Env} : (b : Block) → Placed (block env b).diagnostics b.sites
  | .mk decls body => (placed_declareAll _ decls).beside (placed_stmts body)

theorem placed_stmts {env : Env} : (ss : List Stmt) →
    Placed (stmts env ss).diagnostics (Stmt.sitesAll ss)
  | [] => .nil
  | s :: ss => (placed_stmt s).beside (placed_stmts ss)

end

theorem placed_fnDecl (globals : Scope) (d : FnDecl) :
    Placed (fnDecl globals d).2.diagnostics (Decl.fn d).sites := by
  obtain ⟨type, name, formals, ⟨decls, body⟩⟩ := d
  have silent : (resultType globals type).diagnostics = [] := by
    cases type with
    | struct name =>
      simp only [resultType]
      cases Env.struct [globals] name.name <;> rfl
    | _ => rfl
  have own : Placed (ownFindings globals ⟨type, name, formals, ⟨decls, body⟩⟩).diagnostics
      [.ident name] := by
    rw [ownFindings]
    split
    · exact placed_report (by simp) _
    · exact .nil
  change Placed (_ ++ ((resultType globals type).diagnostics ++ _)) _
  rw [silent, List.nil_append]
  refine Placed.right (own.beside ?_)
  exact (placed_declareAll _ formals).beside ((placed_declareAll _ decls).beside (placed_stmts body))

theorem placed_decl (globals : Scope) (d : Decl) :
    Placed (decl globals d).2.diagnostics d.sites := by
  cases d with
  | var d =>
    have declared := @placed_declareAll (fun scope => [scope]) globals [d]
    exact declared.widen (by simp [Decl.sites])
  | fn d => exact placed_fnDecl globals d
  | struct d =>
    rw [decl, structDecl]
    split
    · exact placed_report List.mem_cons_self _
    · have fields := @placed_declareAll (fun _ => [globals]) .empty d.fields
      exact (fields.widen fun _ => List.mem_cons_of_mem _).append .nil

theorem placed_decls : (globals : Scope) → (ds : List Decl) →
    Placed (decls globals ds).2.diagnostics (ds.flatMap Decl.sites)
  | _, [] => .nil
  | globals, d :: ds => (placed_decl globals d).beside (placed_decls _ ds)

end Scoping

/-- What scoping reports is at sites of the program. -/
theorem Program.placed_scoping (p : Program) :
    Placed (Scoping.program p).2.diagnostics p.sites :=
  Scoping.placed_decls .empty p.decls

end Cinder
