import LoxLang.Diagnostic

/-!
# Errors of a running program

A running program fails for a cause, and the error names the token nearest to it.  The wording is a
function of the cause.
-/

namespace LoxLang

/-- Why a running program fails. -/
inductive RuntimeCause where
  | operandNotNumber
  | operandsNotNumbers
  | operandsNotAddable
  | divisionByZero
  | invalidUnary (lexeme : String)
  | invalidBinary (lexeme : String)
  | undefinedVariable (name : String)
  | undefinedProperty (name : String)
  | noProperties
  | noFields
  | notCallable
  | wrongArity (expected got : Nat)
  | stackOverflow
  | superclassNotClass
  | superWithoutThis
  | noReceiver
  | indexNotNumber
  | indexOutOfBounds (index : Float)
  | endOfInput
  | undecodableInput
  | notANumber (text : String)
  deriving DecidableEq

/-- The wording of an error. -/
def RuntimeCause.message : RuntimeCause → String
  | .operandNotNumber => "Operand must be a number."
  | .operandsNotNumbers => "Operands must be numbers."
  | .operandsNotAddable => "Operands must be two numbers or two strings."
  | .divisionByZero => "Division by zero."
  | .invalidUnary lexeme => "Invalid unary operator '" ++ lexeme ++ "'."
  | .invalidBinary lexeme => "Invalid binary operator '" ++ lexeme ++ "'."
  | .undefinedVariable name => "Undefined variable '" ++ name ++ "'."
  | .undefinedProperty name => "Undefined property '" ++ name ++ "'."
  | .noProperties => "Only instances have properties."
  | .noFields => "Only instances have fields."
  | .notCallable => "Can only call functions and classes."
  | .wrongArity expected got =>
    "Expected " ++ toString expected ++ " arguments but got " ++ toString got ++ "."
  | .stackOverflow => "Stack overflow."
  | .superclassNotClass => "Superclass must be a class."
  | .superWithoutThis => "Cannot use 'super' without 'this'."
  | .noReceiver => "Method called without an instance."
  | .indexNotNumber => "Array index must be a number."
  | .indexOutOfBounds index =>
    "Array index " ++ String.ofList (Number.plainText (.of index)) ++ " out of bounds."
  | .endOfInput => "Unexpected end of input."
  | .undecodableInput => "Could not read input: stream did not contain valid UTF-8"
  | .notANumber text => "Input '" ++ text ++ "' is not a number."

/-- An error, with the token nearest to it. -/
structure RuntimeError where
  token : Token
  cause : RuntimeCause
  deriving DecidableEq

/-- The diagnostic of an error. -/
def RuntimeError.diagnostic (e : RuntimeError) : Diagnostic := .runtime e.token e.cause.message

end LoxLang
