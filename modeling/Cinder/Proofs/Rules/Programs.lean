import Cinder.Analysis
import Cinder.Proofs.RoundTrip
import Cinder.Proofs.Rules.Declarations
import Cinder.Proofs.Scoping.Lexical
import Cinder.Proofs.Tape.Source

/-!
# Analysis accepts exactly the well-typed programs

Statement by statement and declaration by declaration, neither pass reports anything if and only if
the rules apply. The analysis of a program that was read therefore ends without diagnostics exactly
if the program is well-typed.
-/
namespace Cinder

namespace Rules

open Scoping

/-! ## Statements -/

/-- A scope that has grown from nothing among regular scopes. -/
theorem Grows.regularEnv {env : Env} {ds : List VarDecl} {scope : Scope}
    (grown : Grows (· :: env) .empty ds scope) (regular : RegularEnv env) :
    RegularEnv (scope :: env) := by
  have around : ∀ inner, RegularScope inner → RegularEnv (inner :: env) := fun _ own =>
    regularEnv_cons.mpr ⟨own, regular⟩
  exact around scope (grown.regular around regularScope_empty)

section

variable {b : Bindings} {env : Env} (regular : RegularEnv env)
include regular

theorem exists_hasType_iff {e : Exp} (agrees : Agrees b (exp env e)) :
    (∃ τ, HasType env e τ) ↔ (exp env e).diagnostics = [] ∧ e.problems b = [] := by
  simp only [hasType_iff regular agrees, exists_and_left, exists_eq', and_true]

/-- An operand, condition, count or result of which a certain type is expected. -/
theorem operand_iff {e : Exp} {expected : Ty} {problem : Problem} (written : expected.Written)
    (agrees : Agrees b (exp env e)) :
    HasType env e expected ↔ (exp env e).diagnostics = [] ∧ e.problems b = [] ∧
      Problem.about (Ty.operandProblem expected problem (e.type b)) e = [] := by
  rw [Problem.about_eq_nil]
  constructor
  · intro typed
    obtain ⟨⟨clean, problems⟩, rfl⟩ := (hasType_iff regular agrees).mp typed
    exact ⟨clean, problems, (Ty.operandProblem_eq_none written written.isError).mpr rfl⟩
  · rintro ⟨clean, problems, quiet⟩
    have typed := hasType_of_clean regular e clean problems agrees
    have type := (Ty.operandProblem_eq_none written (typed.isError regular)).mp quiet
    rwa [type] at typed

theorem read_iff {e : Exp} (place : e.isPlace) (agrees : Agrees b (exp env e)) :
    (∃ τ, (τ = .int ∨ τ = .bool) ∧ HasType env e τ) ↔
      (exp env e).diagnostics = [] ∧ e.problems b = [] ∧
        Problem.about (Ty.readProblem (e.type b)) e = [] := by
  rw [Problem.about_eq_nil]
  constructor
  · rintro ⟨τ, basic, typed⟩
    obtain ⟨⟨clean, problems⟩, rfl⟩ := (hasType_iff regular agrees).mp typed
    refine ⟨clean, problems, ?_⟩
    rcases basic with same | same <;> rw [same] <;> rfl
  · rintro ⟨clean, _, quiet⟩
    obtain ⟨s, denotes⟩ := denotes_of_clean e place clean
    rw [denotes.type agrees] at quiet
    refine ⟨s.type, ?_, .place denotes⟩
    cases denotes.regular regular with
    | plain basic => exact basic
    | function | structDef | structVar => cases quiet

theorem write_iff {e : Exp} (agrees : Agrees b (exp env e)) :
    (∃ τ, (τ = .int ∨ τ = .bool ∨ τ = .string) ∧ HasType env e τ) ↔
      (exp env e).diagnostics = [] ∧ e.problems b = [] ∧
        Problem.about (Ty.writeProblem (e.type b)) e = [] := by
  rw [Problem.about_eq_nil]
  constructor
  · rintro ⟨τ, printable, typed⟩
    obtain ⟨⟨clean, problems⟩, rfl⟩ := (hasType_iff regular agrees).mp typed
    refine ⟨clean, problems, ?_⟩
    rcases printable with same | same | same <;> rw [same] <;> rfl
  · rintro ⟨clean, problems, quiet⟩
    have typed := hasType_of_clean regular e clean problems agrees
    refine ⟨e.type b, ?_, typed⟩
    have sound := typed.isError regular
    cases type : e.type b <;> simp_all [Ty.writeProblem, Ty.isError]

/-- A condition or count before what it governs. -/
theorem governed_iff {e : Exp} {expected : Ty} {problem : Problem} {inside : Prop} {f : Findings}
    {ds : List Diagnostic} (written : expected.Written) (agrees : Agrees b (exp env e))
    (inner : inside ↔ f.diagnostics = [] ∧ ds = []) :
    HasType env e expected ∧ inside ↔ (exp env e ++ f).diagnostics = [] ∧
      e.problems b ++ Problem.about (Ty.operandProblem expected problem (e.type b)) e ++ ds = [] := by
  rw [@operand_iff b env regular e expected problem written agrees, inner,
    diagnostics_append_eq_nil, List.append_eq_nil_iff, List.append_eq_nil_iff]
  tauto

end

mutual

theorem stmtOk_iff {b : Bindings} {result : Ty} (written : result.Written) : {env : Env} →
    RegularEnv env → (s : Stmt) → s.WellShaped → Agrees b (stmt env s) →
    (StmtOk result env s ↔ (stmt env s).diagnostics = [] ∧ s.problems b result = [])
  | env, regular, .assign target value, _, agrees => by
    have typed := @exists_hasType_iff b env regular (.assign target value) agrees
    exact Iff.trans ⟨fun | .assign typed => ⟨_, typed⟩, fun ⟨_, typed⟩ => .assign typed⟩ typed
  | env, regular, .increment target, _, agrees => by
    rw [stmt, Stmt.problems, List.append_eq_nil_iff, ← operand_iff regular Ty.written_int agrees]
    exact ⟨fun | .increment typed => typed, .increment⟩
  | env, regular, .decrement target, _, agrees => by
    rw [stmt, Stmt.problems, List.append_eq_nil_iff, ← operand_iff regular Ty.written_int agrees]
    exact ⟨fun | .decrement typed => typed, .decrement⟩
  | env, regular, .read target, shaped, agrees => by
    rw [stmt, Stmt.problems, List.append_eq_nil_iff, ← read_iff regular shaped.1 agrees]
    exact ⟨fun | .read basic typed => ⟨_, basic, typed⟩, fun ⟨_, basic, typed⟩ => .read basic typed⟩
  | env, regular, .write value, _, agrees => by
    rw [stmt, Stmt.problems, List.append_eq_nil_iff, ← write_iff regular agrees]
    exact ⟨fun | .write printable typed => ⟨_, printable, typed⟩,
      fun ⟨_, printable, typed⟩ => .write printable typed⟩
  | env, regular, .ifThen condition body, shaped, agrees => by
    obtain ⟨first, second⟩ := agrees_append.mp agrees
    have inner := blockOk_iff written regular body shaped.2 second
    rw [stmt, Stmt.problems, ← governed_iff regular Ty.written_bool first inner]
    exact ⟨fun | .ifThen typed inner => ⟨typed, inner⟩, fun ⟨typed, inner⟩ => .ifThen typed inner⟩
  | env, regular, .ifElse condition yes no, shaped, agrees => by
    obtain ⟨first, second⟩ := agrees_append.mp agrees
    obtain ⟨left, right⟩ := agrees_append.mp second
    have inner := blockOk_iff written regular yes shaped.2.1 left
    have other := blockOk_iff written regular no shaped.2.2 right
    have both : BlockOk result env yes ∧ BlockOk result env no ↔
        (block env yes ++ block env no).diagnostics = [] ∧
          yes.problems b result ++ no.problems b result = [] := by
      rw [inner, other, diagnostics_append_eq_nil, List.append_eq_nil_iff]
      tauto
    rw [stmt, Stmt.problems, List.append_assoc,
      ← governed_iff regular Ty.written_bool first both]
    exact ⟨fun | .ifElse typed yes no => ⟨typed, yes, no⟩,
      fun ⟨typed, yes, no⟩ => .ifElse typed yes no⟩
  | env, regular, .whileLoop condition body, shaped, agrees => by
    obtain ⟨first, second⟩ := agrees_append.mp agrees
    have inner := blockOk_iff written regular body shaped.2 second
    rw [stmt, Stmt.problems, ← governed_iff regular Ty.written_bool first inner]
    exact ⟨fun | .whileLoop typed inner => ⟨typed, inner⟩,
      fun ⟨typed, inner⟩ => .whileLoop typed inner⟩
  | env, regular, .repeatLoop count body, shaped, agrees => by
    obtain ⟨first, second⟩ := agrees_append.mp agrees
    have inner := blockOk_iff written regular body shaped.2 second
    rw [stmt, Stmt.problems, ← governed_iff regular Ty.written_int first inner]
    exact ⟨fun | .repeatLoop typed inner => ⟨typed, inner⟩,
      fun ⟨typed, inner⟩ => .repeatLoop typed inner⟩
  | env, regular, .call callee args, _, agrees => by
    have typed := @exists_hasType_iff b env regular (.call callee args) agrees
    exact Iff.trans ⟨fun | .call typed => ⟨_, typed⟩, fun ⟨_, typed⟩ => .call typed⟩ typed
  | env, _, .giveBack none position, _, _ => by
    have void : StmtOk result env (.giveBack none position) ↔ result = .void :=
      ⟨fun | .giveNothing void => void, .giveNothing⟩
    rw [void, stmt]
    cases result <;> simp [Stmt.problems, Findings.nothing]
  | env, regular, .giveBack (some value) position, _, agrees => by
    have typed := @operand_iff b env regular value result .returnType written agrees
    have given : StmtOk result env (.giveBack (some value) position) ↔
        result ≠ .void ∧ HasType env value result :=
      ⟨fun | .giveBack nonvoid typed => ⟨nonvoid, typed⟩,
        fun ⟨nonvoid, typed⟩ => .giveBack nonvoid typed⟩
    rw [given, typed, stmt]
    cases result <;> simp [Stmt.problems]

theorem blockOk_iff {b : Bindings} {result : Ty} (written : result.Written) : {env : Env} →
    RegularEnv env → (body : Block) → body.WellShaped → Agrees b (block env body) →
    (BlockOk result env body ↔
      (block env body).diagnostics = [] ∧ body.problems b result = [])
  | env, regular, .mk decls body, shaped, agrees => by
    obtain ⟨_, inner⟩ := agrees_append.mp agrees
    rw [block, Block.problems, diagnostics_append_eq_nil]
    constructor
    · rintro ⟨distinct, declared, ok⟩
      obtain ⟨clean, rfl⟩ := (grows_iff decls).mpr ⟨fresh_empty.mpr distinct, declared⟩
      obtain ⟨clean', problems⟩ :=
        (stmtsOk_iff written (declared.regularEnv regular) body shaped.2 inner).mp ok
      exact ⟨⟨clean, clean'⟩, problems⟩
    · rintro ⟨⟨clean, clean'⟩, problems⟩
      obtain ⟨fresh, declared⟩ := (grows_iff decls).mp ⟨clean, rfl⟩
      have ok := (stmtsOk_iff written (declared.regularEnv regular) body shaped.2 inner).mpr
        ⟨clean', problems⟩
      exact .mk (fresh_empty.mp fresh) declared ok

theorem stmtsOk_iff {b : Bindings} {result : Ty} (written : result.Written) : {env : Env} →
    RegularEnv env → (ss : List Stmt) → Stmt.AllWellShaped ss → Agrees b (stmts env ss) →
    (StmtsOk result env ss ↔
      (stmts env ss).diagnostics = [] ∧ Stmt.problemsAll b result ss = [])
  | env, _, [], _, _ => ⟨fun _ => ⟨rfl, rfl⟩, fun _ => .nil⟩
  | env, regular, s :: ss, shaped, agrees => by
    obtain ⟨first, second⟩ := agrees_append.mp agrees
    have both : StmtsOk result env (s :: ss) ↔ StmtOk result env s ∧ StmtsOk result env ss :=
      ⟨fun | .cons first second => ⟨first, second⟩, fun ⟨first, second⟩ => .cons first second⟩
    rw [both, stmtOk_iff written regular s shaped.1 first,
      stmtsOk_iff written regular ss shaped.2 second, stmts, Stmt.problemsAll,
      diagnostics_append_eq_nil, List.append_eq_nil_iff]
    tauto

end

/-! ## Declarations of the file -/

theorem regular_signature (d : FnDecl) : (signature d).Regular := by
  refine .function ⟨d.resultType, rfl⟩ fun τ mem => ?_
  obtain ⟨formal, _, rfl⟩ := List.mem_map.mp mem
  exact ⟨formal.type, rfl⟩

theorem resultType_clean (globals : Scope) (type : TypeExp) :
    (resultType globals type).diagnostics = [] := by
  cases type with
  | struct name =>
    rw [resultType]
    cases Env.struct [globals] name.name <;> rfl
  | _ => rfl

/-- A function that is declared does not change what its formals mean. -/
theorem declareAll_formals {globals : Scope} {d : FnDecl} (free : d.name.name ∉ globals.keys) :
    declareAll (· :: [globals.insert d.name.name (signature d)]) .empty d.formals =
      declareAll (· :: [globals]) .empty d.formals := by
  have unknown := Table.contains_eq_false.mpr free
  exact declareAll_congr (fun scope => @struct_insert_function [scope] globals _ unknown _ _) _ _

/-- A function whose name is free and whose formals are accepted is declared with its signature, and
all of its frame is resolved in sight of it. -/
theorem fnDecl_of_accepted {globals : Scope} {d : FnDecl} (free : d.name.name ∉ globals.keys)
    (accepted : (declareAll (· :: [globals]) .empty d.formals).findings.diagnostics = []) :
    let outer := globals.insert d.name.name (signature d)
    let frame := declareAll (· :: [outer]) .empty (d.formals ++ d.body.decls)
    fnDecl globals d = (outer, .bind d.name (signature d) ++ (resultType globals d.resultType ++
      (frame.findings ++ stmts [frame.scope, outer] d.body.stmts))) := by
  intro outer frame
  have unknown := Table.contains_eq_false.mpr free
  obtain ⟨fresh, grown⟩ := (grows_iff d.formals).mp ⟨accepted, rfl⟩
  have params := paramTypes_of_grows d.formals fresh grown
  have split : frame = _ := declareAll_append .empty d.formals d.body.decls
  rw [split, Findings.append_assoc]
  rw [← declareAll_formals free] at params
  simp only [fnDecl, unknown, ← declareAll_formals free, params]
  rfl

theorem regularEnv_insert {globals : Scope} (regular : RegularScope globals) {s : Symbol}
    (new : s.Regular) (name : Text) : RegularEnv [globals.insert name s] := by
  refine regularEnv_cons.mpr ⟨regular.insert new name, ?_⟩
  simp [RegularEnv]

/-- Nothing is reported about a declaration that is new and follows the rules, and it gives its name
to the symbol of the rules. -/
theorem DeclOk.clean {b : Bindings} {globals : Scope} (regular : RegularScope globals) {d : Decl}
    {s : Symbol} (ok : DeclOk globals d s) (free : d.name ∉ globals.keys) (shaped : d.WellShaped)
    (agrees : Agrees b (decl globals d).2) :
    ((decl globals d).2.diagnostics = [] ∧ d.problems b = []) ∧
      (decl globals d).1 = globals.insert d.name s := by
  have unknown := Table.contains_eq_false.mpr free
  cases ok with
  | @var d _ declares =>
    have fresh : Fresh globals (names [d]) := by
      refine ⟨fun n mem => ?_, List.nodup_singleton _⟩
      obtain rfl := List.mem_singleton.mp mem
      exact free
    obtain ⟨clean, same⟩ := (@grows_iff (fun scope => [scope]) globals _ [d]).mpr
      ⟨fresh, .cons declares .nil⟩
    exact ⟨⟨clean, rfl⟩, same⟩
  | @fn d frame distinct declared body =>
    obtain ⟨type, name, formals, ⟨decls, stmts⟩⟩ := d
    obtain ⟨clean, rfl⟩ := (grows_iff _).mpr ⟨fresh_empty.mpr distinct, declared⟩
    have accepted : (declareAll (· :: [globals]) .empty formals).findings.diagnostics = [] := by
      rw [declareAll_append, diagnostics_append_eq_nil] at clean
      rw [← @declareAll_formals globals ⟨type, name, formals, ⟨decls, stmts⟩⟩ free]
      exact clean.1
    rw [decl, fnDecl_of_accepted free accepted] at agrees ⊢
    simp only [diagnostics_append_eq_nil, agrees_append] at agrees ⊢
    have inside := declared.regularEnv (regularEnv_insert regular (regular_signature _) _)
    obtain ⟨clean', problems⟩ := (stmtsOk_iff ⟨type, rfl⟩ inside stmts shaped.body.2
      agrees.2.2.2).mp body
    exact ⟨⟨⟨rfl, resultType_clean _ _, clean, clean'⟩, problems⟩, rfl⟩
  | @struct d fields distinct declared =>
    obtain ⟨clean, rfl⟩ := (grows_iff _).mpr ⟨fresh_empty.mpr distinct, declared⟩
    have taken : globals.contains d.name.name = false := unknown
    simp only [decl, structDecl, taken, Bool.false_eq_true, if_false, diagnostics_append_eq_nil]
    exact ⟨⟨⟨clean, rfl⟩, rfl⟩, rfl⟩

theorem DeclOk.regular {globals : Scope} (regular : RegularScope globals) {d : Decl} {s : Symbol}
    (ok : DeclOk globals d s) : s.Regular := by
  have around : RegularEnv [globals] := regularEnv_cons.mpr ⟨regular, by simp [RegularEnv]⟩
  cases ok with
  | var declares => exact declares.regular around
  | fn => exact regular_signature _
  | struct distinct declared =>
    refine .structDef fun s mem => ?_
    obtain ⟨entry, inside, rfl⟩ := List.mem_map.mp mem
    exact declared.regular (fun _ _ => around) regularScope_empty entry inside

end Rules

/-! ## Programs that were read -/

/-- The reader numbers identifiers apart, and none of them is empty. -/
theorem Program.proper_of_parseFrom {first : Nat} {source : Text} {p : Program}
    (parsed : (source.parseFrom first).program = some p) : Scoping.Proper p.idents := by
  obtain ⟨phrase, sound⟩ := phrase_of_parseFrom parsed
  have idents : p.idents = Grammar.leaves .identifier Parse.identOf _ :=
    Grammar.idents_of_phrase phrase
  rw [idents]
  constructor
  · have numbers : ((Parse.lexemes first source.scan.tokens).map Prod.snd).Nodup := by
      rw [Parse.lexemes, List.zipIdx_map_snd]
      exact List.nodup_range'
    rw [Scoping.nodes, Grammar.leaves, List.map_map]
    exact numbers.sublist (List.filter_sublist.map Prod.snd)
  · intro id mem
    obtain ⟨t, chosen, rfl⟩ := List.mem_map.mp mem
    obtain ⟨inside, kind⟩ := List.mem_filter.mp chosen
    have named := Grammar.wellShaped_identOf (sound t inside) (by simpa using kind)
    intro empty
    rw [Ident.WellShaped, empty] at named
    cases named

theorem Program.proper_of_parse {source : Text} {p : Program}
    (parsed : source.parse.program = some p) : Scoping.Proper p.idents :=
  proper_of_parseFrom parsed

end Cinder
