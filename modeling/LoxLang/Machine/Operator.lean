import LoxLang.Machine.Basic

/-!
# Operators

What an operator does to the values of its operands.  The operator is a token, because that is
where a failure is reported; a token that is no operator is a failure of its own.
-/

namespace LoxLang

/-- The negation of a number, or the opposite of a truth value. -/
def applyUnary (operator : Token) (right : Value) : Effect Value :=
  match operator.kind with
  | .mark .minus =>
    match right with
    | .number x => pure (.number (-x))
    | _ => .raise operator .operandNotNumber
  | .mark .bang => pure (.bool (!right.isTruthy))
  | _ => .raise operator (.invalidUnary operator.lexeme)

/-- Adds two numbers or puts two texts together. -/
def applyPlus (operator : Token) (left right : Value) : Effect Value :=
  match left, right with
  | .number a, .number b => pure (.number (a + b))
  | .string a, .string b => pure (.string (a ++ b))
  | _, _ => .raise operator .operandsNotAddable

/-- An operation on two numbers. -/
def onNumbers (operator : Token) (left right : Value) (f : Float → Float → Effect Value) :
    Effect Value :=
  match left, right with
  | .number a, .number b => f a b
  | _, _ => .raise operator .operandsNotNumbers

/-- Divides; a divisor that equals zero is refused, whatever its sign. -/
def applySlash (operator : Token) (a b : Float) : Effect Value :=
  if b == 0 then .raise operator .divisionByZero else pure (.number (a / b))

/-- Arithmetic, comparison and equality. -/
def applyBinary (operator : Token) (left right : Value) : Effect Value :=
  match operator.kind with
  | .mark .plus => applyPlus operator left right
  | .mark .minus => onNumbers operator left right fun a b => pure (.number (a - b))
  | .mark .star => onNumbers operator left right fun a b => pure (.number (a * b))
  | .mark .slash => onNumbers operator left right (applySlash operator)
  | .mark .greater => onNumbers operator left right fun a b => pure (.bool (a > b))
  | .mark .greaterEqual => onNumbers operator left right fun a b => pure (.bool (a ≥ b))
  | .mark .less => onNumbers operator left right fun a b => pure (.bool (a < b))
  | .mark .lessEqual => onNumbers operator left right fun a b => pure (.bool (a ≤ b))
  | .mark .equalEqual => pure (.bool (left.same right))
  | .mark .bangEqual => pure (.bool (!left.same right))
  | _ => .raise operator (.invalidBinary operator.lexeme)

/-- Does the left operand of `or` decide the result?  Every other operator acts as `and`. -/
def isDecided (operator : Token) (left : Value) : Bool :=
  if operator.isKeyword .or_ then left.isTruthy else !left.isTruthy

end LoxLang
