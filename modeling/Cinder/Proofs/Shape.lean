import Cinder.Proofs.Grammar
import Cinder.Proofs.Lexeme

/-!
# Shapes of programs

A program is well-shaped if it can be written down: its names, numbers and strings are lexemes, what
is selected from or stored to is a place, and structs have fields. Every phrase of sound tokens has
a well-shaped tree. Programs are compared up to positions by what is left of them without positions.
-/
namespace Cinder

/-! ## Well-shaped trees -/

def Ident.WellShaped (id : Ident) : Prop := id.name.isName

def TypeExp.WellShaped : TypeExp → Prop
  | struct name => name.WellShaped
  | _ => True

structure VarDecl.WellShaped (d : VarDecl) : Prop where
  type : d.type.WellShaped
  name : d.name.WellShaped

mutual

def Exp.WellShaped : Exp → Prop
  | .int value text _ => text.isDigits ∧ value = (min text.decimal maxInt : Nat)
  | .string text _ => text.isStringLiteral
  | .bool _ _ => True
  | .ident id => id.WellShaped
  | .dot base field => base.isPlace ∧ base.WellShaped ∧ field.WellShaped
  | .assign target value => target.isPlace ∧ target.WellShaped ∧ value.WellShaped
  | .call callee args => callee.WellShaped ∧ Exp.AllWellShaped args
  | .unary _ operand => operand.WellShaped
  | .binary _ left right => left.WellShaped ∧ right.WellShaped

def Exp.AllWellShaped : List Exp → Prop
  | [] => True
  | e :: rest => e.WellShaped ∧ Exp.AllWellShaped rest

end

mutual

def Stmt.WellShaped : Stmt → Prop
  | .assign target value => target.isPlace ∧ target.WellShaped ∧ value.WellShaped
  | .increment target => target.isPlace ∧ target.WellShaped
  | .decrement target => target.isPlace ∧ target.WellShaped
  | .read target => target.isPlace ∧ target.WellShaped
  | .write value => value.WellShaped
  | .ifThen condition body => condition.WellShaped ∧ body.WellShaped
  | .ifElse condition yes no => condition.WellShaped ∧ yes.WellShaped ∧ no.WellShaped
  | .whileLoop condition body => condition.WellShaped ∧ body.WellShaped
  | .repeatLoop count body => count.WellShaped ∧ body.WellShaped
  | .call callee args => callee.WellShaped ∧ Exp.AllWellShaped args
  | .giveBack none _ => True
  | .giveBack (some value) _ => value.WellShaped

def Block.WellShaped : Block → Prop
  | .mk decls stmts => (∀ d ∈ decls, d.WellShaped) ∧ Stmt.AllWellShaped stmts

def Stmt.AllWellShaped : List Stmt → Prop
  | [] => True
  | s :: rest => s.WellShaped ∧ Stmt.AllWellShaped rest

end

structure FnDecl.WellShaped (d : FnDecl) : Prop where
  resultType : d.resultType.WellShaped
  name : d.name.WellShaped
  formals : ∀ formal ∈ d.formals, formal.WellShaped
  body : d.body.WellShaped

structure StructDecl.WellShaped (d : StructDecl) : Prop where
  name : d.name.WellShaped
  nonempty : d.fields ≠ []
  fields : ∀ field ∈ d.fields, field.WellShaped

def Decl.WellShaped : Decl → Prop
  | var d => d.WellShaped
  | fn d => d.WellShaped
  | struct d => d.WellShaped

def Program.WellShaped (p : Program) : Prop := ∀ d ∈ p.decls, d.WellShaped

/-! ## Trees without positions -/

def Ident.unplaced (id : Ident) : Ident := ⟨0, id.name, .start⟩

def TypeExp.unplaced : TypeExp → TypeExp
  | struct name => struct name.unplaced
  | type => type

def VarDecl.unplaced (d : VarDecl) : VarDecl := ⟨d.type.unplaced, d.name.unplaced⟩

mutual

def Exp.unplaced : Exp → Exp
  | .int value text _ => .int value text .start
  | .string text _ => .string text .start
  | .bool value _ => .bool value .start
  | .ident id => .ident id.unplaced
  | .dot base field => .dot base.unplaced field.unplaced
  | .assign target value => .assign target.unplaced value.unplaced
  | .call callee args => .call callee.unplaced (Exp.unplacedAll args)
  | .unary op operand => .unary op operand.unplaced
  | .binary op left right => .binary op left.unplaced right.unplaced

def Exp.unplacedAll : List Exp → List Exp
  | [] => []
  | e :: rest => e.unplaced :: Exp.unplacedAll rest

end

mutual

def Stmt.unplaced : Stmt → Stmt
  | .assign target value => .assign target.unplaced value.unplaced
  | .increment target => .increment target.unplaced
  | .decrement target => .decrement target.unplaced
  | .read target => .read target.unplaced
  | .write value => .write value.unplaced
  | .ifThen condition body => .ifThen condition.unplaced body.unplaced
  | .ifElse condition yes no => .ifElse condition.unplaced yes.unplaced no.unplaced
  | .whileLoop condition body => .whileLoop condition.unplaced body.unplaced
  | .repeatLoop count body => .repeatLoop count.unplaced body.unplaced
  | .call callee args => .call callee.unplaced (Exp.unplacedAll args)
  | .giveBack none _ => .giveBack none .start
  | .giveBack (some value) _ => .giveBack (some value.unplaced) .start

def Block.unplaced : Block → Block
  | .mk decls stmts => .mk (decls.map VarDecl.unplaced) (Stmt.unplacedAll stmts)

def Stmt.unplacedAll : List Stmt → List Stmt
  | [] => []
  | s :: rest => s.unplaced :: Stmt.unplacedAll rest

end

def Decl.unplaced : Decl → Decl
  | var d => var d.unplaced
  | fn d =>
    fn ⟨d.resultType.unplaced, d.name.unplaced, d.formals.map VarDecl.unplaced, d.body.unplaced⟩
  | struct d => struct ⟨d.name.unplaced, d.fields.map VarDecl.unplaced⟩

/-- What programs that are equal up to positions have in common. -/
def Program.unplaced (p : Program) : Program := ⟨p.decls.map Decl.unplaced⟩

/-! ## Shapes of phrases -/

namespace Grammar

open Parse (Lexeme kindOf identOf)

def Nonterminal.WellShaped : (n : Nonterminal) → n.Tree → Prop
  | .program, ds => ∀ d ∈ ds, d.WellShaped
  | .decl, d => d.WellShaped
  | .varDecl, d | .formal, d => d.WellShaped
  | .structDecl, d => d.WellShaped
  | .fnDecl, d => d.WellShaped
  | .type, τ => τ.WellShaped
  | .fields, ds => ds ≠ [] ∧ ∀ d ∈ ds, d.WellShaped
  | .formals, ds | .varDecls, ds => ∀ d ∈ ds, d.WellShaped
  | .stmts, ss => Stmt.AllWellShaped ss
  | .stmt, s => s.WellShaped
  | .block, b => b.WellShaped
  | .exp, e | .operation _, e | .term, e => e.WellShaped
  | .target, e | .loc, e => e.isPlace ∧ e.WellShaped
  | .call, c => c.1.WellShaped ∧ Exp.AllWellShaped c.2
  | .args, es => Exp.AllWellShaped es

theorem wellShaped_identOf {t : Lexeme} (sound : t.1.Sound) (kind : kindOf t = .identifier) :
    (identOf t).WellShaped := by
  have spelled := sound.spelled
  rw [show t.1.kind = .identifier from kind] at spelled
  exact spelled

/-- Sound tokens make well-shaped trees. -/
theorem wellShaped_of_phrase {n : Nonterminal} {ts : List Lexeme} {v : n.Tree}
    (phrase : Phrase n ts v) (sound : ∀ t ∈ ts, t.1.Sound) : n.WellShaped v := by
  induction phrase with
  | varDecl _ kind _ type =>
    simp only [List.forall_mem_append, List.forall_mem_cons] at sound
    exact ⟨type sound.1, wellShaped_identOf sound.2.1 kind⟩
  | formal _ kind type =>
    simp only [List.forall_mem_append, List.forall_mem_cons] at sound
    exact ⟨type sound.1, wellShaped_identOf sound.2.1 kind⟩
  | structDecl _ kind _ _ _ _ fields =>
    simp only [List.forall_mem_append, List.forall_mem_cons] at sound
    obtain ⟨nonempty, fields⟩ := fields sound.1.2
    exact ⟨wellShaped_identOf sound.1.1.2.1 kind, nonempty, fields⟩
  | fnDeclPlain _ kind _ _ _ type body =>
    simp only [List.forall_mem_append, List.forall_mem_cons] at sound
    exact ⟨type sound.1.1, wellShaped_identOf sound.1.2.1 kind, by simp, body sound.2⟩
  | fnDecl _ kind _ _ _ _ type formals body =>
    simp only [List.forall_mem_append, List.forall_mem_cons] at sound
    obtain ⟨⟨⟨⟨first, name, _⟩, middle⟩, _⟩, last⟩ := sound
    exact ⟨type first, wellShaped_identOf name kind, formals middle, body last⟩
  | typeStruct _ kind => exact wellShaped_identOf (sound _ (by simp)) kind
  | @int t kind =>
    have token : t.1.Sound := sound t (by simp)
    have digits := token.spelled
    rw [show t.1.kind = .intLiteral from kind] at digits
    exact ⟨digits, by rw [token.value kind]; rfl⟩
  | @string t kind =>
    have literal := (sound t (by simp)).spelled
    rw [show t.1.kind = .stringLiteral from kind] at literal
    exact literal
  | ident kind => exact ⟨rfl, wellShaped_identOf (sound _ (by simp)) kind⟩
  | select _ _ kind base =>
    simp only [List.forall_mem_append, List.forall_mem_cons] at sound
    obtain ⟨place, base⟩ := base sound.1
    exact ⟨rfl, place, base, wellShaped_identOf sound.2.2.1 kind⟩
  | callPlain kind => exact ⟨wellShaped_identOf (sound _ (by simp)) kind, trivial⟩
  | call kind _ _ _ args =>
    simp only [List.forall_mem_append, List.forall_mem_cons] at sound
    exact ⟨wellShaped_identOf sound.1.1.1 kind, args sound.1.2⟩
  | _ =>
    simp_all only [List.forall_mem_append, List.forall_mem_cons, Nonterminal.WellShaped,
      Exp.WellShaped, Exp.AllWellShaped, Stmt.WellShaped, Stmt.AllWellShaped, Block.WellShaped,
      Decl.WellShaped, TypeExp.WellShaped, List.forall_mem_nil, forall_true_left, and_self,
      List.not_mem_nil, IsEmpty.forall_iff, ne_eq, reduceCtorEq, not_false_eq_true, implies_true]

end Grammar

end Cinder
