/-
  Violations of the static rules.

  Each has a fixed message and a fixed exit status; `17` stands for two of them.
-/

namespace ProcLang

/-- The ways in which a program can violate the static rules. -/
inductive Violation where
  | noMain
  | nonVoidMain
  | duplicateProcedure
  | duplicateVariable
  | procedureUndefined
  | variableUndefined
  | argumentCountMismatch
  | argumentTypeMismatch
  | returnTypeMismatch
  | callTypeMismatch
  | ifPredicate
  | whilePredicate
  | arrayIndex
  | notAnArray
  | incompatibleAssignment
  | expressionType
  | absoluteValue
  | pointerArithmetic
  | addressOf
  | invalidDeref
  | unclassified
deriving DecidableEq, Repr

namespace Violation

/-- The name of a violation. -/
def name : Violation → String
  | noMain => "NoMain"
  | nonVoidMain => "NonVoidMain"
  | duplicateProcedure => "DuplicateProcedure"
  | duplicateVariable => "DuplicateVariable"
  | procedureUndefined => "ProcedureUndefined"
  | variableUndefined => "VariableUndefined"
  | argumentCountMismatch => "ArgumentCountMismatch"
  | argumentTypeMismatch => "ArgumentTypeMismatch"
  | returnTypeMismatch => "ReturnTypeMismatch"
  | callTypeMismatch => "CallTypeMismatch"
  | ifPredicate => "IfPredicate"
  | whilePredicate => "WhilePredicate"
  | arrayIndex => "ArrayIndex"
  | notAnArray => "NotAnArray"
  | incompatibleAssignment => "IncompatibleAssignment"
  | expressionType => "ExpressionType"
  | absoluteValue => "AbsoluteValue"
  | pointerArithmetic => "PointerArithmetic"
  | addressOf => "AddressOf"
  | invalidDeref => "InvalidDeref"
  | unclassified => "Unclassified"

/-- The message of a violation. -/
def message : Violation → String
  | noMain => "no main"
  | nonVoidMain => "the Main procedure has arguments"
  | duplicateProcedure => "duplicate procedure names in same scope"
  | duplicateVariable => "duplicate variable names in same scope"
  | procedureUndefined => "call to undefined procedure"
  | variableUndefined => "undefined variable"
  | argumentCountMismatch => "procedure call has different number of args than declartion"
  | argumentTypeMismatch => "argument type mismatch"
  | returnTypeMismatch => "type mismatch in return statement"
  | callTypeMismatch => "type mismatch in procedure call args"
  | ifPredicate => "predicate of if statement is not boolean"
  | whilePredicate => "predicate of while statement is not boolean"
  | arrayIndex => "array index not integer"
  | notAnArray => "attempt to index non-array variable"
  | incompatibleAssignment => "type of expr and var do not match in assignment"
  | expressionType => "incompatible types used in expression"
  | absoluteValue => "absolute value can only be applied to integers and strings"
  | pointerArithmetic => "invalid pointer arithmetic"
  | addressOf => "AddressOf can only be applied to integers, chars, and indexed strings"
  | invalidDeref => "Deref can only be applied to integer pointers and char pointers"
  | unclassified => "no good reason"

/-- The exit status of a violation. -/
def exitCode : Violation → Nat
  | noMain => 2
  | nonVoidMain => 3
  | duplicateProcedure => 4
  | duplicateVariable => 5
  | procedureUndefined => 6
  | variableUndefined => 7
  | argumentCountMismatch => 8
  | argumentTypeMismatch => 9
  | returnTypeMismatch => 10
  | callTypeMismatch => 11
  | ifPredicate => 12
  | whilePredicate => 13
  | arrayIndex => 14
  | notAnArray => 15
  | incompatibleAssignment => 16
  | expressionType => 17
  | absoluteValue => 17
  | pointerArithmetic => 18
  | addressOf => 19
  | invalidDeref => 20
  | unclassified => 21

end Violation

/-- A violation, and the source line that it is found on. -/
structure SemanticError where
  violation : Violation
  line : Nat
deriving DecidableEq, Repr

/-- The message shown for a semantic error. -/
def SemanticError.message (e : SemanticError) : String :=
  "on line number " ++ toString e.line ++ ", error: " ++ e.violation.message

end ProcLang
