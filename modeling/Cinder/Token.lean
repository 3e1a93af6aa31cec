import Cinder.Position
import Cinder.Text

/-!
Tokens: the kinds of lexemes of Cinder and how the fixed ones are spelled.
-/
namespace Cinder

inductive Kind where
  | intWord | boolWord | voidWord | trueWord | falseWord | structWord | cinWord | coutWord
  | ifWord | elseWord | whileWord | repeatWord | returnWord
  | identifier | intLiteral | stringLiteral
  | leftBrace | rightBrace | leftParen | rightParen | semicolon | comma | dot
  | write | read | increment | decrement
  | plus | minus | times | divide | not | and | or
  | equal | notEqual | less | greater | lessEqual | greaterEqual | assign
  | endOfInput
  deriving DecidableEq

namespace Kind

/-- The reserved words. -/
def keywords : List (Text × Kind) :=
  [("int", intWord), ("bool", boolWord), ("void", voidWord), ("true", trueWord),
    ("false", falseWord), ("struct", structWord), ("cin", cinWord), ("cout", coutWord),
    ("if", ifWord), ("else", elseWord), ("while", whileWord), ("repeat", repeatWord),
    ("return", returnWord)]

/-- A word is an identifier unless the whole of it is reserved. -/
def ofWord (word : Text) : Kind := (keywords.lookup word).getD identifier

/-- Operators of two units. They win over the operators of one unit. -/
def doubles : List (Text × Kind) :=
  [("<<", write), (">>", read), ("++", increment), ("--", decrement), ("&&", and), ("||", or),
    ("==", equal), ("!=", notEqual), ("<=", lessEqual), (">=", greaterEqual)]

/-- Operators and marks of one unit. -/
def singles : List (Text × Kind) :=
  [("\x7b", leftBrace), ("\x7d", rightBrace), ("(", leftParen), (")", rightParen),
    (";", semicolon), (",", comma), (".", dot), ("+", plus), ("-", minus), ("*", times),
    ("/", divide), ("!", not), ("<", less), (">", greater), ("=", assign)]

end Kind

structure Token where
  kind : Kind
  text : Text
  position : Position
  /-- The number of an integer literal. -/
  value : Option Int

/-- The largest value of an integer literal; larger ones are read as this one. -/
def maxInt : Nat := 2147483647

end Cinder
