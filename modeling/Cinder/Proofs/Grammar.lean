import Cinder.Program.Parse
import Mathlib.Computability.ContextFreeGrammar

/-!
# The grammar of Cinder

The documented grammar is a table of productions over token kinds, with repetition spelled out by
auxiliary nonterminals. The accepted grammar differs from it in one place: inside an expression, the
target of an assignment may stand in parentheses. `Phrase` adds the tree of each production, and
parentheses leave no trace in it.
-/
namespace Cinder

/-- The level just tighter than a level; the operands of products are unary operations. -/
def Level.tighter : Level → Option Level
  | disjunction => some conjunction
  | conjunction => some comparison
  | comparison => some sum
  | sum => some product
  | product => none

/-- The operators of a level, each with the token that writes it. -/
def Level.operators : Level → List (Kind × BinaryOp)
  | disjunction => [(.or, .or)]
  | conjunction => [(.and, .and)]
  | comparison =>
    [(.equal, .equal), (.notEqual, .notEqual), (.less, .less), (.greater, .greater),
      (.lessEqual, .lessEqual), (.greaterEqual, .greaterEqual)]
  | sum => [(.plus, .plus), (.minus, .minus)]
  | product => [(.times, .times), (.divide, .divide)]

theorem Level.mem_operators {level : Level} {kind : Kind} {op : BinaryOp} :
    (kind, op) ∈ level.operators ↔ kind.binaryOp? = some op ∧ op.level = level := by
  constructor
  · have all : ∀ entry ∈ level.operators,
        entry.1.binaryOp? = some entry.2 ∧ entry.2.level = level := by
      cases level <;> decide
    exact all (kind, op)
  · rintro ⟨written, rfl⟩
    cases kind <;> cases written <;> decide

theorem Level.operator?_eq_some {level : Level} {kind : Kind} {op : BinaryOp} :
    level.operator? kind = some op ↔ (kind, op) ∈ level.operators := by
  simp [operator?, Option.filter_eq_some_iff, mem_operators]

namespace Grammar

inductive Nonterminal where
  | program | decl | varDecl | structDecl | fnDecl | formal | type
  | fields | formals | varDecls | stmts | stmt | block
  | exp | target
  /-- Operations of this level or tighter; without a level, the unary operations. -/
  | operation (level : Option Level)
  | term | call | args | loc
  deriving DecidableEq

/-- What a production is made of. -/
inductive Piece where
  | token (kind : Kind)
  | phrase (n : Nonterminal)
  deriving DecidableEq

open Piece (token phrase)

/-- The productions of the binary operators of a level. Comparisons do not associate, and all others
associate to the left. -/
def operations (level : Level) : List (List Piece) :=
  level.operators.map fun (kind, _) =>
    [phrase (.operation (if level = .comparison then level.tighter else some level)), token kind,
      phrase (.operation level.tighter)]

/-- The documented grammar. -/
def documented : Nonterminal → List (List Piece)
  | .program => [[], [phrase .decl, phrase .program]]
  | .decl => [[phrase .varDecl], [phrase .fnDecl], [phrase .structDecl]]
  | .varDecl => [[phrase .type, token .identifier, token .semicolon]]
  | .structDecl =>
    [[token .structWord, token .identifier, token .leftBrace, phrase .fields, token .rightBrace,
      token .semicolon]]
  | .fnDecl =>
    [[phrase .type, token .identifier, token .leftParen, token .rightParen, phrase .block],
      [phrase .type, token .identifier, token .leftParen, phrase .formals, token .rightParen,
        phrase .block]]
  | .formal => [[phrase .type, token .identifier]]
  | .type =>
    [[token .intWord], [token .boolWord], [token .voidWord], [token .structWord, token .identifier]]
  | .fields => [[phrase .varDecl], [phrase .varDecl, phrase .fields]]
  | .formals => [[phrase .formal], [phrase .formal, token .comma, phrase .formals]]
  | .varDecls => [[], [phrase .varDecl, phrase .varDecls]]
  | .stmts => [[], [phrase .stmt, phrase .stmts]]
  | .stmt =>
    [[phrase .loc, token .assign, phrase .exp, token .semicolon],
      [phrase .loc, token .increment, token .semicolon],
      [phrase .loc, token .decrement, token .semicolon],
      [token .cinWord, token .read, phrase .loc, token .semicolon],
      [token .coutWord, token .write, phrase .exp, token .semicolon],
      [token .ifWord, token .leftParen, phrase .exp, token .rightParen, phrase .block],
      [token .ifWord, token .leftParen, phrase .exp, token .rightParen, phrase .block,
        token .elseWord, phrase .block],
      [token .whileWord, token .leftParen, phrase .exp, token .rightParen, phrase .block],
      [token .repeatWord, token .leftParen, phrase .exp, token .rightParen, phrase .block],
      [token .returnWord, token .semicolon],
      [token .returnWord, phrase .exp, token .semicolon],
      [phrase .call, token .semicolon]]
  | .block =>
    [[token .leftBrace, phrase .varDecls, phrase .stmts, token .rightBrace]]
  | .exp =>
    [[phrase .loc, token .assign, phrase .exp], [phrase (.operation (some .disjunction))]]
  | .target => []
  | .operation (some level) => [phrase (.operation level.tighter)] :: operations level
  | .operation none =>
    [[phrase .term], [token .not, phrase (.operation none)], [token .minus, phrase (.operation none)]]
  | .term =>
    [[phrase .loc], [token .intLiteral], [token .stringLiteral], [token .trueWord],
      [token .falseWord], [token .leftParen, phrase .exp, token .rightParen], [phrase .call]]
  | .call =>
    [[token .identifier, token .leftParen, token .rightParen],
      [token .identifier, token .leftParen, phrase .args, token .rightParen]]
  | .args => [[phrase .exp], [phrase .exp, token .comma, phrase .args]]
  | .loc => [[token .identifier], [phrase .loc, token .dot, token .identifier]]

/-- The documented grammar, but the target of an assignment inside an expression is a place in any
number of parentheses. -/
def accepted : Nonterminal → List (List Piece)
  | .exp =>
    [[phrase .target, token .assign, phrase .exp], [phrase (.operation (some .disjunction))]]
  | .target => [[phrase .loc], [token .leftParen, phrase .target, token .rightParen]]
  | n => documented n

def Nonterminal.all : List Nonterminal :=
  [.program, .decl, .varDecl, .structDecl, .fnDecl, .formal, .type, .fields, .formals, .varDecls,
    .stmts, .stmt, .block, .exp, .target, .operation none, .term, .call, .args, .loc]
    ++ Level.all.map fun level => .operation (some level)

theorem Nonterminal.mem_all (n : Nonterminal) : n ∈ Nonterminal.all := by
  cases n with
  | operation level =>
    cases level with
    | none => decide
    | some level => cases level <;> decide
  | _ => decide

/-- A production as a rewriting rule. -/
def rule (n : Nonterminal) (body : List Piece) : ContextFreeRule Kind Nonterminal :=
  ⟨n, body.map fun
    | token kind => .terminal kind
    | phrase m => .nonterminal m⟩

/-- The context-free grammar of a table of productions. -/
def ofTable (table : Nonterminal → List (List Piece)) : ContextFreeGrammar Kind where
  NT := Nonterminal
  initial := .program
  rules := (Nonterminal.all.flatMap fun n => (table n).map (rule n)).toFinset

/-! ## Trees -/

open Parse (Lexeme kindOf)

/-- What a phrase stands for. -/
@[reducible] def Nonterminal.Tree : Nonterminal → Type
  | .program => List Decl
  | .decl => Decl
  | .varDecl | .formal => VarDecl
  | .structDecl => StructDecl
  | .fnDecl => FnDecl
  | .type => TypeExp
  | .fields | .formals | .varDecls => List VarDecl
  | .stmts => List Stmt
  | .stmt => Stmt
  | .block => Block
  | .exp | .target | .operation _ | .term | .loc => Exp
  | .call => Ident × List Exp
  | .args => List Exp

/-- The lexemes are a phrase of the accepted grammar with the given tree. -/
inductive Phrase : (n : Nonterminal) → List Lexeme → n.Tree → Prop where
  | noDecls : Phrase .program [] []
  | moreDecls {ts us d ds} : Phrase .decl ts d → Phrase .program us ds →
      Phrase .program (ts ++ us) (d :: ds)
  | declVar {ts d} : Phrase .varDecl ts d → Phrase .decl ts (Decl.var d)
  | declFn {ts d} : Phrase .fnDecl ts d → Phrase .decl ts (Decl.fn d)
  | declStruct {ts d} : Phrase .structDecl ts d → Phrase .decl ts (Decl.struct d)
  | varDecl {ts τ t u} : Phrase .type ts τ → kindOf t = .identifier → kindOf u = .semicolon →
      Phrase .varDecl (ts ++ [t, u]) ⟨τ, ⟨t.2, t.1.text, t.1.position⟩⟩
  | structDecl {t name u fs ts v w} : kindOf t = .structWord → kindOf name = .identifier →
      kindOf u = .leftBrace → Phrase .fields ts fs → kindOf v = .rightBrace →
      kindOf w = .semicolon →
      Phrase .structDecl ([t, name, u] ++ ts ++ [v, w])
        ⟨⟨name.2, name.1.text, name.1.position⟩, fs⟩
  | fnDeclPlain {ts τ name t u us b} : Phrase .type ts τ → kindOf name = .identifier →
      kindOf t = .leftParen → kindOf u = .rightParen → Phrase .block us b →
      Phrase .fnDecl (ts ++ [name, t, u] ++ us)
        ⟨τ, ⟨name.2, name.1.text, name.1.position⟩, [], b⟩
  | fnDecl {ts τ name t vs ds u us b} : Phrase .type ts τ → kindOf name = .identifier →
      kindOf t = .leftParen → Phrase .formals vs ds → kindOf u = .rightParen →
      Phrase .block us b →
      Phrase .fnDecl (ts ++ [name, t] ++ vs ++ [u] ++ us)
        ⟨τ, ⟨name.2, name.1.text, name.1.position⟩, ds, b⟩
  | formal {ts τ t} : Phrase .type ts τ → kindOf t = .identifier →
      Phrase .formal (ts ++ [t]) ⟨τ, ⟨t.2, t.1.text, t.1.position⟩⟩
  | typeInt {t} : kindOf t = .intWord → Phrase .type [t] TypeExp.int
  | typeBool {t} : kindOf t = .boolWord → Phrase .type [t] TypeExp.bool
  | typeVoid {t} : kindOf t = .voidWord → Phrase .type [t] TypeExp.void
  | typeStruct {t u} : kindOf t = .structWord → kindOf u = .identifier →
      Phrase .type [t, u] (TypeExp.struct ⟨u.2, u.1.text, u.1.position⟩)
  | lastField {ts d} : Phrase .varDecl ts d → Phrase .fields ts [d]
  | moreFields {ts us d ds} : Phrase .varDecl ts d → Phrase .fields us ds →
      Phrase .fields (ts ++ us) (d :: ds)
  | lastFormal {ts d} : Phrase .formal ts d → Phrase .formals ts [d]
  | moreFormals {ts t us d ds} : Phrase .formal ts d → kindOf t = .comma →
      Phrase .formals us ds → Phrase .formals (ts ++ t :: us) (d :: ds)
  | noVars : Phrase .varDecls [] []
  | moreVars {ts us d ds} : Phrase .varDecl ts d → Phrase .varDecls us ds →
      Phrase .varDecls (ts ++ us) (d :: ds)
  | noStmts : Phrase .stmts [] []
  | moreStmts {ts us s ss} : Phrase .stmt ts s → Phrase .stmts us ss →
      Phrase .stmts (ts ++ us) (s :: ss)
  | assignStmt {ts t us u x e} : Phrase .loc ts x → kindOf t = .assign → Phrase .exp us e →
      kindOf u = .semicolon → Phrase .stmt (ts ++ t :: us ++ [u]) (Stmt.assign x e)
  | increment {ts t u x} : Phrase .loc ts x → kindOf t = .increment → kindOf u = .semicolon →
      Phrase .stmt (ts ++ [t, u]) (Stmt.increment x)
  | decrement {ts t u x} : Phrase .loc ts x → kindOf t = .decrement → kindOf u = .semicolon →
      Phrase .stmt (ts ++ [t, u]) (Stmt.decrement x)
  | read {t u ts v x} : kindOf t = .cinWord → kindOf u = .read → Phrase .loc ts x →
      kindOf v = .semicolon → Phrase .stmt ([t, u] ++ ts ++ [v]) (Stmt.read x)
  | write {t u ts v e} : kindOf t = .coutWord → kindOf u = .write → Phrase .exp ts e →
      kindOf v = .semicolon → Phrase .stmt ([t, u] ++ ts ++ [v]) (Stmt.write e)
  | ifThen {t u ts v us e b} : kindOf t = .ifWord → kindOf u = .leftParen → Phrase .exp ts e →
      kindOf v = .rightParen → Phrase .block us b →
      Phrase .stmt ([t, u] ++ ts ++ v :: us) (Stmt.ifThen e b)
  | ifElse {t u ts v us w vs e b c} : kindOf t = .ifWord → kindOf u = .leftParen →
      Phrase .exp ts e → kindOf v = .rightParen → Phrase .block us b → kindOf w = .elseWord →
      Phrase .block vs c →
      Phrase .stmt ([t, u] ++ ts ++ v :: us ++ w :: vs) (Stmt.ifElse e b c)
  | whileLoop {t u ts v us e b} : kindOf t = .whileWord → kindOf u = .leftParen →
      Phrase .exp ts e → kindOf v = .rightParen → Phrase .block us b →
      Phrase .stmt ([t, u] ++ ts ++ v :: us) (Stmt.whileLoop e b)
  | repeatLoop {t u ts v us e b} : kindOf t = .repeatWord → kindOf u = .leftParen →
      Phrase .exp ts e → kindOf v = .rightParen → Phrase .block us b →
      Phrase .stmt ([t, u] ++ ts ++ v :: us) (Stmt.repeatLoop e b)
  | returnPlain {t u} : kindOf t = .returnWord → kindOf u = .semicolon →
      Phrase .stmt [t, u] (Stmt.giveBack none t.1.position)
  | returnValue {t ts u e} : kindOf t = .returnWord → Phrase .exp ts e → kindOf u = .semicolon →
      Phrase .stmt (t :: ts ++ [u]) (Stmt.giveBack (some e) t.1.position)
  | callStmt {ts u f args} : Phrase .call ts (f, args) → kindOf u = .semicolon →
      Phrase .stmt (ts ++ [u]) (Stmt.call f args)
  | block {t ts us u ds ss} : kindOf t = .leftBrace → Phrase .varDecls ts ds →
      Phrase .stmts us ss → kindOf u = .rightBrace →
      Phrase .block (t :: ts ++ us ++ [u]) (Block.mk ds ss)
  | assign {ts t us x e} : Phrase .target ts x → kindOf t = .assign → Phrase .exp us e →
      Phrase .exp (ts ++ t :: us) (Exp.assign x e)
  | exp {ts e} : Phrase (.operation (some .disjunction)) ts e → Phrase .exp ts e
  | target {ts x} : Phrase .loc ts x → Phrase .target ts x
  | targetParens {t ts u x} : kindOf t = .leftParen → Phrase .target ts x →
      kindOf u = .rightParen → Phrase .target (t :: ts ++ [u]) x
  | operand {level : Level} {ts e} : Phrase (.operation level.tighter) ts e →
      Phrase (.operation (some level)) ts e
  | chain {level : Level} {op ts t us x y} : level ≠ .comparison →
      (kindOf t, op) ∈ level.operators → Phrase (.operation (some level)) ts x →
      Phrase (.operation level.tighter) us y →
      Phrase (.operation (some level)) (ts ++ t :: us) (Exp.binary op x y)
  | comparison {op ts t us x y} : (kindOf t, op) ∈ Level.comparison.operators →
      Phrase (.operation (some .sum)) ts x → Phrase (.operation (some .sum)) us y →
      Phrase (.operation (some .comparison)) (ts ++ t :: us) (Exp.binary op x y)
  | unaryTerm {ts e} : Phrase .term ts e → Phrase (.operation none) ts e
  | not {t ts e} : kindOf t = .not → Phrase (.operation none) ts e →
      Phrase (.operation none) (t :: ts) (Exp.unary .not e)
  | negate {t ts e} : kindOf t = .minus → Phrase (.operation none) ts e →
      Phrase (.operation none) (t :: ts) (Exp.unary .negate e)
  | termLoc {ts x} : Phrase .loc ts x → Phrase .term ts x
  | int {t} : kindOf t = .intLiteral →
      Phrase .term [t] (Exp.int (t.1.value.getD 0) t.1.text t.1.position)
  | string {t} : kindOf t = .stringLiteral →
      Phrase .term [t] (Exp.string t.1.text t.1.position)
  | true {t} : kindOf t = .trueWord → Phrase .term [t] (Exp.bool Bool.true t.1.position)
  | false {t} : kindOf t = .falseWord → Phrase .term [t] (Exp.bool Bool.false t.1.position)
  | parens {t ts u e} : kindOf t = .leftParen → Phrase .exp ts e → kindOf u = .rightParen →
      Phrase .term (t :: ts ++ [u]) e
  | termCall {ts f args} : Phrase .call ts (f, args) → Phrase .term ts (Exp.call f args)
  | callPlain {t u v} : kindOf t = .identifier → kindOf u = .leftParen →
      kindOf v = .rightParen → Phrase .call [t, u, v] (⟨t.2, t.1.text, t.1.position⟩, [])
  | call {t u ts v args} : kindOf t = .identifier → kindOf u = .leftParen → Phrase .args ts args →
      kindOf v = .rightParen →
      Phrase .call ([t, u] ++ ts ++ [v]) (⟨t.2, t.1.text, t.1.position⟩, args)
  | lastArg {ts e} : Phrase .exp ts e → Phrase .args ts [e]
  | moreArgs {ts t us e es} : Phrase .exp ts e → kindOf t = .comma → Phrase .args us es →
      Phrase .args (ts ++ t :: us) (e :: es)
  | ident {t} : kindOf t = .identifier → Phrase .loc [t] (Exp.ident ⟨t.2, t.1.text, t.1.position⟩)
  | select {ts t u x} : Phrase .loc ts x → kindOf t = .dot → kindOf u = .identifier →
      Phrase .loc (ts ++ [t, u]) (Exp.dot x ⟨u.2, u.1.text, u.1.position⟩)

end Grammar

end Cinder
