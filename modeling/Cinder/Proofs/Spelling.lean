import Cinder.Program.Format
import Cinder.Proofs.Shape

/-!
# Spelling

The tokens in which a program is written down, up to their positions: one sequence per tree, with
parentheses around every operation. The layout of a well-shaped program divides into exactly these
tokens, whatever the indent, because no lexeme is extended by what stands after it.
-/
namespace Cinder

def UnaryOp.kind : UnaryOp → Kind
  | negate => .minus
  | not => .not

def BinaryOp.kind : BinaryOp → Kind
  | plus => .plus
  | minus => .minus
  | times => .times
  | divide => .divide
  | and => .and
  | or => .or
  | equal => .equal
  | notEqual => .notEqual
  | less => .less
  | greater => .greater
  | lessEqual => .lessEqual
  | greaterEqual => .greaterEqual

namespace Token

def unplaced (t : Token) : Token := { t with position := .start }

/-- A keyword, operator or mark. -/
def mark (kind : Kind) : Token := ⟨kind, kind.spelling, .start, none⟩

def name (text : Text) : Token := ⟨.identifier, text, .start, none⟩

end Token

namespace Spelling

open Token (mark name)

def typeExp : TypeExp → List Token
  | .int => [mark .intWord]
  | .bool => [mark .boolWord]
  | .void => [mark .voidWord]
  | .struct id => [mark .structWord, name id.name]

def typed (d : VarDecl) : List Token := typeExp d.type ++ [name d.name.name]

def varDecl (d : VarDecl) : List Token := typed d ++ [mark .semicolon]

mutual

def exp : Exp → List Token
  | .int value text _ => [⟨.intLiteral, text, .start, some value⟩]
  | .string text _ => [⟨.stringLiteral, text, .start, none⟩]
  | .bool true _ => [mark .trueWord]
  | .bool false _ => [mark .falseWord]
  | .ident id => [name id.name]
  | .dot base field => exp base ++ [mark .dot, name field.name]
  | .assign target value =>
    mark .leftParen :: exp target ++ mark .assign :: exp value ++ [mark .rightParen]
  | .call callee args => name callee.name :: mark .leftParen :: exps args ++ [mark .rightParen]
  | .unary op operand => mark .leftParen :: mark op.kind :: exp operand ++ [mark .rightParen]
  | .binary op left right =>
    mark .leftParen :: exp left ++ mark op.kind :: exp right ++ [mark .rightParen]

def exps : List Exp → List Token
  | [] => []
  | [e] => exp e
  | e :: f :: rest => exp e ++ mark .comma :: exps (f :: rest)

end

mutual

def stmt : Stmt → List Token
  | .assign target value => exp target ++ mark .assign :: exp value ++ [mark .semicolon]
  | .increment target => exp target ++ [mark .increment, mark .semicolon]
  | .decrement target => exp target ++ [mark .decrement, mark .semicolon]
  | .read target => mark .cinWord :: mark .read :: exp target ++ [mark .semicolon]
  | .write value => mark .coutWord :: mark .write :: exp value ++ [mark .semicolon]
  | .ifThen condition body =>
    mark .ifWord :: mark .leftParen :: exp condition ++ mark .rightParen :: block body
  | .ifElse condition yes no =>
    mark .ifWord :: mark .leftParen :: exp condition ++ mark .rightParen :: block yes
      ++ mark .elseWord :: block no
  | .whileLoop condition body =>
    mark .whileWord :: mark .leftParen :: exp condition ++ mark .rightParen :: block body
  | .repeatLoop count body =>
    mark .repeatWord :: mark .leftParen :: exp count ++ mark .rightParen :: block body
  | .call callee args =>
    name callee.name :: mark .leftParen :: exps args ++ [mark .rightParen, mark .semicolon]
  | .giveBack none _ => [mark .returnWord, mark .semicolon]
  | .giveBack (some value) _ => mark .returnWord :: exp value ++ [mark .semicolon]

def block : Block → List Token
  | .mk decls body =>
    mark .leftBrace :: decls.flatMap varDecl ++ stmts body ++ [mark .rightBrace]

def stmts : List Stmt → List Token
  | [] => []
  | s :: rest => stmt s ++ stmts rest

end

/-- What stands between the braces of a block. -/
def inside (b : Block) : List Token := b.decls.flatMap varDecl ++ stmts b.stmts

theorem block_eq (b : Block) : block b = mark .leftBrace :: inside b ++ [mark .rightBrace] := by
  cases b with
  | mk decls body => simp [block, inside, Block.decls, Block.stmts]

def decl : Decl → List Token
  | .var d => varDecl d
  | .fn d =>
    typeExp d.resultType ++ name d.name.name :: mark .leftParen
      :: [mark .comma].intercalate (d.formals.map typed) ++ mark .rightParen :: block d.body
  | .struct d =>
    mark .structWord :: name d.name.name :: mark .leftBrace :: d.fields.flatMap varDecl
      ++ [mark .rightBrace, mark .semicolon]

def program (p : Program) : List Token := p.decls.flatMap decl

end Spelling

end Cinder
