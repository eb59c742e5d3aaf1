import LoxLang.Number.Decimal

/-!
# The four texts of a number

A number is written in four places, each with its own layout: as a printed value, beside a
token, in the parenthesised text of a program, and in JSON.  The layouts share one function,
`plainText`, which writes the shortest digits without an exponent; they differ in what they do
to whole numbers, to negative zero, to ties, and to values that are not finite.

The file also holds the reader for a line of input (`ofText?`), which accepts more than the
language's own number literals: a sign, an exponent, a missing digit before or after the point.
-/

namespace LoxLang.Number

/-- A minus sign before the text of a negative number. -/
def signed (negative : Bool) (text : List Char) : List Char :=
  if negative then '-' :: text else text

/-- A decimal in positional notation, filled with zeros on either side of the point. -/
def Decimal.plain (d : Decimal) : List Char :=
  let ds := digitsOf d.digits
  let places := (-d.exponent).toNat
  if places = 0 then ds ++ List.replicate d.exponent.toNat '0'
  else if places < ds.length then
    ds.take (ds.length - places) ++ '.' :: ds.drop (ds.length - places)
  else '0' :: '.' :: (List.replicate (places - ds.length) '0' ++ ds)

/-- The decimal of a magnitude: zero, or the shortest digits that read back. -/
def decimalOf (tie : Tie) (mantissa : Nat) (exponent : Int) : Decimal :=
  if mantissa = 0 then ⟨0, 0⟩ else shortest tie mantissa exponent

/-- **The plain text of a number**: the fewest digits that read back, never an exponent.  Of two
equally near texts it is the larger. -/
def plainText : Shape → List Char
  | .notANumber => ['N', 'a', 'N']
  | .infinite negative => signed negative ['i', 'n', 'f']
  | .finite negative mantissa exponent => signed negative (decimalOf .up mantissa exponent).plain

/-- Whole numbers below this magnitude are written by their own digits. -/
def wholeBound : Nat := tenPow 15

/-- The magnitude of a whole number below `wholeBound`. -/
def Shape.smallWhole? (s : Shape) : Option Nat :=
  s.magnitude?.filter (· < wholeBound)

/-- Is the sign bit of a value set? -/
def Shape.isNegative : Shape → Bool
  | .finite negative .. => negative
  | .infinite negative => negative
  | .notANumber => false

/-! ## Layouts -/

/-- A printed value: small whole numbers have no point, and negative zero keeps its sign. -/
def valueText (x : Float) : String :=
  let s := Shape.of x
  match s.smallWhole? with
  | some n => String.ofList (signed s.isNegative (digitsOf n))
  | none => String.ofList (plainText s)

/-- The text beside a token: small whole numbers end in `.0`, and zero has no sign. -/
def tokenText (x : Float) : String :=
  let s := Shape.of x
  match s.smallWhole? with
  | some n => String.ofList (signed (s.isNegative && n != 0) (digitsOf n) ++ ['.', '0'])
  | none => String.ofList (plainText s)

/-- The text in a program tree: every whole number is written exactly and ends in `.0`. -/
def treeText (x : Float) : String :=
  let s := Shape.of x
  match s.magnitude? with
  | some n => String.ofList (signed s.isNegative (digitsOf n) ++ ['.', '0'])
  | none => String.ofList (plainText s)

/-- The exponents of the first digit that JSON text writes without an exponent. -/
def jsonPlainRange (leading : Int) : Bool := -5 ≤ leading ∧ leading ≤ 15

/-- The digits of a decimal in scientific notation, with a point behind the first digit when
more follow. -/
def scientific (ds : List Char) (leading : Int) : List Char :=
  let mantissa := match ds with
    | [] => []
    | [d] => [d]
    | d :: rest => d :: '.' :: rest
  let exponent := (if leading < 0 then '-' else '+') :: digitsOf leading.natAbs
  mantissa ++ 'e' :: exponent

/-- A number in JSON: always with a fraction part or an exponent, `null` when not finite.  Of two
equally near texts it is the one that ends in an even digit. -/
def jsonText (x : Float) : String :=
  match Shape.of x with
  | .finite negative mantissa exponent =>
    let d := decimalOf .toEven mantissa exponent
    let ds := digitsOf d.digits
    let leading := d.exponent + (ds.length : Int) - 1
    let body :=
      if jsonPlainRange leading then
        if 0 ≤ d.exponent then d.plain ++ ['.', '0'] else d.plain
      else scientific ds leading
    String.ofList (signed negative body)
  | _ => "null"

/-! ## Reading a number from a line of input -/

/-- Splits a run of digits off the front. -/
def spanDigits (cs : List Char) : List Char × List Char :=
  (cs.takeWhile Char.isDigit, cs.dropWhile Char.isDigit)

/-- A sign, if one stands in front: is it a minus, and what follows? -/
def spanSign : List Char → Bool × List Char
  | '-' :: rest => (true, rest)
  | '+' :: rest => (false, rest)
  | rest => (false, rest)

/-- An exponent part, which has to reach the end of the text: nothing, or a mark, an optional
sign and at least one digit. -/
def exponentPart? : List Char → Option Int
  | [] => some 0
  | c :: rest =>
    if c = 'e' ∨ c = 'E' then
      let (negative, body) := spanSign rest
      let (ds, after) := spanDigits body
      if ds.isEmpty || !after.isEmpty then none
      else if negative then some (-(ofDigits ds : Int))
      else some (ofDigits ds)
    else none

/-- The unsigned decimal that a text writes, if it writes one. -/
def decimal? (cs : List Char) : Option Decimal :=
  let (whole, afterWhole) := spanDigits cs
  let (places, rest) := match afterWhole with
    | '.' :: afterPoint => spanDigits afterPoint
    | other => ([], other)
  if whole.isEmpty && places.isEmpty then none
  else (exponentPart? rest).map fun e =>
    ⟨ofDigits (whole ++ places), e - (places.length : Int)⟩

/-- The finite number that a text writes: an optional sign, digits with an optional point, an
optional exponent. -/
def ofText? (cs : List Char) : Option Float :=
  let (negative, body) := spanSign cs
  match decimal? body with
  | none => none
  | some d =>
    let x := d.toFloat
    if (Shape.of x).isFinite then some (if negative then -x else x) else none

end LoxLang.Number
