import Cinder.Text

/-!
What can be wrong with a Cinder program, one constructor per cause, and the wording of each cause.
-/
namespace Cinder

/-- Why a string literal is dropped. -/
inductive StringFlaw where
  | badEscape
  | unterminated
  | unterminatedBadEscape
  deriving DecidableEq

inductive Problem where
  -- scanning
  | illegalCharacter (unit : CodeUnit)
  | integerTooLarge
  | droppedString (flaw : StringFlaw)
  -- parsing
  | syntaxError
  -- names
  | voidVariable
  | unknownStruct
  | redeclared
  | undeclared
  | notStruct
  | unknownField
  -- operators
  | arithmeticOperand
  | logicalOperand
  | relationalOperand
  | mismatch
  | equalityOfFunctions
  | equalityOfVoid
  | equalityOfStructNames
  | equalityOfStructVariables
  -- assignments
  | functionAssignment
  | structNameAssignment
  | structVariableAssignment
  -- calls
  | calledNonFunction
  | argumentCount
  | argumentType
  -- statements
  | readFunction
  | readStructName
  | readStructVariable
  | writeFunction
  | writeVoid
  | writeStructName
  | writeStructVariable
  | ifCondition
  | whileCondition
  | repeatCount
  | valueFromVoid
  | missingValue
  | returnType
  /-- A problem that somebody else has put into words. -/
  | stated (message : Text)
  deriving DecidableEq

def StringFlaw.message : StringFlaw → Text
  | .badEscape => "string literal with bad escaped character ignored"
  | .unterminated => "unterminated string literal ignored"
  | .unterminatedBadEscape => "unterminated string literal with bad escaped character ignored"

def Problem.message : Problem → Text
  | .illegalCharacter unit => "ignoring illegal character: " ++ [unit]
  | .integerTooLarge => "integer literal too large; using max value"
  | .droppedString flaw => flaw.message
  | .syntaxError => "syntax error"
  | .voidVariable => "Non-function declared void"
  | .unknownStruct => "Invalid name of struct type"
  | .redeclared => "Multiply declared identifier"
  | .undeclared => "Undeclared identifier"
  | .notStruct => "Dot-access of non-struct type"
  | .unknownField => "Invalid struct field name"
  | .arithmeticOperand => "Arithmetic operator applied to non-numeric operand"
  | .logicalOperand => "Logical operator applied to non-bool operand"
  | .relationalOperand => "Relational operator applied to non-numeric operand"
  | .mismatch => "Type mismatch"
  | .equalityOfFunctions => "Equality operator applied to functions"
  | .equalityOfVoid => "Equality operator applied to void functions"
  | .equalityOfStructNames => "Equality operator applied to struct names"
  | .equalityOfStructVariables => "Equality operator applied to struct variables"
  | .functionAssignment => "Function assignment"
  | .structNameAssignment => "Struct name assignment"
  | .structVariableAssignment => "Struct variable assignment"
  | .calledNonFunction => "Attempt to call a non-function"
  | .argumentCount => "Function call with wrong number of args"
  | .argumentType => "Type of actual does not match type of formal"
  | .readFunction => "Attempt to read a function"
  | .readStructName => "Attempt to read a struct name"
  | .readStructVariable => "Attempt to read a struct variable"
  | .writeFunction => "Attempt to write a function"
  | .writeVoid => "Attempt to write void"
  | .writeStructName => "Attempt to write a struct name"
  | .writeStructVariable => "Attempt to write a struct variable"
  | .ifCondition => "Non-bool expression used as an if condition"
  | .whileCondition => "Non-bool expression used as a while condition"
  | .repeatCount => "Non-integer expression used as a repeat clause"
  | .valueFromVoid => "Return with a value in a void function"
  | .missingValue => "Missing return value"
  | .returnType => "Bad return value"
  | .stated message => message

end Cinder
