import Cinder.Program.Idents
import Cinder.Proofs.Grammar

/-!
# Leaves of programs

The identifiers and the integer literals of a phrase, in source order, are exactly its tokens of these
kinds. Parentheses and dropped marks neither hide nor repeat one.
-/
namespace Cinder

mutual

/-- The integer literals of an expression, in source order. -/
def Exp.integers : Exp → List (Text × Position)
  | .int _ text position => [(text, position)]
  | .string _ _ => []
  | .bool _ _ => []
  | .ident _ => []
  | .dot base _ => base.integers
  | .assign target value => target.integers ++ value.integers
  | .call _ args => Exp.integersAll args
  | .unary _ operand => operand.integers
  | .binary _ left right => left.integers ++ right.integers

def Exp.integersAll : List Exp → List (Text × Position)
  | [] => []
  | e :: rest => e.integers ++ Exp.integersAll rest

end

mutual

def Stmt.integers : Stmt → List (Text × Position)
  | .assign target value => target.integers ++ value.integers
  | .increment target => target.integers
  | .decrement target => target.integers
  | .read target => target.integers
  | .write value => value.integers
  | .ifThen condition body => condition.integers ++ body.integers
  | .ifElse condition yes no => condition.integers ++ yes.integers ++ no.integers
  | .whileLoop condition body => condition.integers ++ body.integers
  | .repeatLoop count body => count.integers ++ body.integers
  | .call _ args => Exp.integersAll args
  | .giveBack none _ => []
  | .giveBack (some value) _ => value.integers

def Block.integers : Block → List (Text × Position)
  | .mk _ stmts => Stmt.integersAll stmts

def Stmt.integersAll : List Stmt → List (Text × Position)
  | [] => []
  | s :: rest => s.integers ++ Stmt.integersAll rest

end

def Decl.integers : Decl → List (Text × Position)
  | .fn d => d.body.integers
  | _ => []

/-- The integer literals of a program, each with its digits and its position. -/
def Program.integers (p : Program) : List (Text × Position) := p.decls.flatMap Decl.integers

namespace Grammar

open Parse (Lexeme kindOf identOf)

def Nonterminal.integers : (n : Nonterminal) → n.Tree → List (Text × Position)
  | .program, ds => ds.flatMap Decl.integers
  | .decl, d => d.integers
  | .fnDecl, d => d.body.integers
  | .stmts, ss => Stmt.integersAll ss
  | .stmt, s => s.integers
  | .block, b => b.integers
  | .exp, e | .target, e | .operation _, e | .term, e | .loc, e => e.integers
  | .call, c => Exp.integersAll c.2
  | .args, es => Exp.integersAll es
  | .varDecl, _ | .formal, _ | .structDecl, _ | .type, _ | .fields, _ | .formals, _
  | .varDecls, _ => []

def Nonterminal.idents : (n : Nonterminal) → n.Tree → List Ident
  | .program, ds => ds.flatMap Decl.idents
  | .decl, d => d.idents
  | .varDecl, d | .formal, d => d.idents
  | .structDecl, d => (Decl.struct d).idents
  | .fnDecl, d => (Decl.fn d).idents
  | .type, τ => τ.idents
  | .fields, ds | .formals, ds | .varDecls, ds => ds.flatMap VarDecl.idents
  | .stmts, ss => Stmt.identsAll ss
  | .stmt, s => s.idents
  | .block, b => b.idents
  | .exp, e | .target, e | .operation _, e | .term, e | .loc, e => e.idents
  | .call, c => c.1 :: Exp.identsAll c.2
  | .args, es => Exp.identsAll es

section

variable {α : Type}

/-- What the tokens of one kind stand for. -/
def leaves (kind : Kind) (f : Lexeme → α) (ts : List Lexeme) : List α :=
  (ts.filter (kindOf · = kind)).map f

@[simp] theorem leaves_nil (kind : Kind) (f : Lexeme → α) : leaves kind f [] = [] := rfl

@[simp] theorem leaves_append (kind : Kind) (f : Lexeme → α) (ts us : List Lexeme) :
    leaves kind f (ts ++ us) = leaves kind f ts ++ leaves kind f us := by
  simp [leaves]

@[simp] theorem leaves_cons (kind : Kind) (f : Lexeme → α) (t : Lexeme) (ts : List Lexeme) :
    leaves kind f (t :: ts) = (if kindOf t = kind then [f t] else []) ++ leaves kind f ts := by
  by_cases same : kindOf t = kind <;> simp [leaves, same]

end

theorem ne_of_operator {level : Level} {kind : Kind} {op : BinaryOp}
    (written : (kind, op) ∈ level.operators) : kind ≠ .intLiteral ∧ kind ≠ .identifier := by
  obtain ⟨written, -⟩ := Level.mem_operators.mp written
  constructor
  · rintro rfl
    cases written
  · rintro rfl
    cases written

theorem integers_of_phrase {n : Nonterminal} {ts : List Lexeme} {v : n.Tree}
    (phrase : Phrase n ts v) :
    n.integers v = leaves .intLiteral (fun t => (t.1.text, t.1.position)) ts := by
  induction phrase with
  | chain _ written _ _ left right | comparison written _ _ left right =>
    have other := ne_of_operator written
    simp_all [Nonterminal.integers, Exp.integers]
  | _ =>
    simp_all [Nonterminal.integers, Exp.integers, Exp.integersAll, Stmt.integers, Stmt.integersAll,
      Block.integers, Decl.integers]

theorem idents_of_phrase {n : Nonterminal} {ts : List Lexeme} {v : n.Tree}
    (phrase : Phrase n ts v) : n.idents v = leaves .identifier identOf ts := by
  induction phrase with
  | chain _ written _ _ left right | comparison written _ _ left right =>
    have other := ne_of_operator written
    simp_all [Nonterminal.idents, Exp.idents]
  | _ =>
    simp_all [Nonterminal.idents, Exp.idents, Exp.identsAll, Stmt.idents, Stmt.identsAll,
      Block.idents, Decl.idents, VarDecl.idents, TypeExp.idents, identOf]

end Grammar

end Cinder
