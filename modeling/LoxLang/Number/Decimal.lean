import LoxLang.Number.Binary64

/-!
# Decimals: shortest digits of a value, nearest value of digits

A decimal is a string of digits with a power of ten.  Two functions tie decimals to binary64
values, in exact arithmetic on natural numbers:

* `shortest` gives the decimal with the fewest digits that reads back as the value, and among
  those the nearest one; which of two equally near ones is up to the layout that asks (`Tie`);
* `Decimal.toFloat` gives the value nearest to a decimal.

`shortest` looks at the interval of reals that round to the value.  For one digit, two digits,
and so on, it tests the two neighbours of the value on that decimal grid; the first grid with a
neighbour in the interval wins.  If any point of a grid lies in the interval then so does one of
the two neighbours, which is why no shorter decimal is missed.
-/

namespace LoxLang.Number

/-- The nonnegative number `digits * 10 ^ exponent`. -/
structure Decimal where
  digits : Nat
  exponent : Int
  deriving DecidableEq, Repr

/-- The digits of a natural number in base ten, most significant first; zero has one digit. -/
def digitsOf (n : Nat) : List Char := Nat.toDigits 10 n

/-- How many digits a natural number is written with. -/
def digitCount (n : Nat) : Nat := (digitsOf n).length

/-- The value of a digit character. -/
def digitValue (c : Char) : Nat := c.toNat - '0'.toNat

/-- The natural number that a list of digits writes. -/
def ofDigits (cs : List Char) : Nat := cs.foldl (fun n c => 10 * n + digitValue c) 0

@[simp] theorem ofDigits_nil : ofDigits [] = 0 := rfl

/-! ## The interval of reals that round to a value -/

/-- The reals that round to one value, over a common denominator: from `low / unit` to
`high / unit`, around `value / unit`.  The ends belong to it when `closed`. -/
structure Interval where
  low : Nat
  value : Nat
  high : Nat
  unit : Nat
  closed : Bool

/-- The reals that round to `mantissa * 2 ^ exponent`.  Half a step up and half a step down,
except that the step down from a power of two is half as long; a tie goes to an even mantissa. -/
def Interval.around (mantissa : Nat) (exponent : Int) : Interval :=
  let scale := twoPow exponent.toNat
  let below := if mantissa = twoPow storedBits ∧ minExponent < exponent then 1 else 2
  { low := (4 * mantissa - below) * scale
    value := 4 * mantissa * scale
    high := (4 * mantissa + 2) * scale
    unit := 4 * twoPow (-exponent).toNat
    closed := mantissa % 2 = 0 }

/-- Does `n / d` lie in the interval? -/
def Interval.contains (i : Interval) (n d : Nat) : Bool :=
  if i.closed then i.low * d ≤ n * i.unit ∧ n * i.unit ≤ i.high * d
  else i.low * d < n * i.unit ∧ n * i.unit < i.high * d

/-! ## Shortest digits -/

/-- Which of two equally near decimals is taken. -/
inductive Tie where
  | up
  | toEven
  deriving DecidableEq, Repr

/-- Does a tie between `d` and `d + 1` go to `d`? -/
def Tie.goesDown : Tie → Nat → Bool
  | .up, _ => false
  | .toEven, d => d % 2 = 0

/-- The power of ten of the first digit of a positive fraction.  Above one it is read off the
digits of the whole part; below one, off those of the inverse. -/
def leadingPower (num den : Nat) : Int :=
  if den ≤ num then (digitCount (num / den) : Int) - 1
  else
    let places := digitCount (den / num)
    if den ≤ num * tenPow (places - 1) then 1 - (places : Int) else -places

/-- The neighbour of the interval's value that lies in the interval, on the grid of multiples of
`10 ^ grid`; of two such neighbours the nearer. -/
def Interval.neighbour? (i : Interval) (tie : Tie) (grid : Int) : Option Nat :=
  let up := tenPow grid.toNat
  let down := tenPow (-grid).toNat
  let d := i.value * down / (i.unit * up)
  let lower := i.contains (d * up) down
  let upper := i.contains ((d + 1) * up) down
  if lower && upper then
    let below := i.value * down - d * up * i.unit
    let above := (d + 1) * up * i.unit - i.value * down
    if below < above ∨ (below = above ∧ tie.goesDown d) then some d else some (d + 1)
  else if lower then some d
  else if upper then some (d + 1)
  else none

/-- Seventeen digits tell any two binary64 values apart. -/
def maxDigits : Nat := 17

/-- Moves trailing zeros of the digits into the exponent, at most `fuel` of them. -/
def Decimal.strip : Nat → Decimal → Decimal
  | 0, d => d
  | fuel + 1, d =>
    if d.digits % 10 = 0 then Decimal.strip fuel ⟨d.digits / 10, d.exponent + 1⟩ else d

/-- The shortest decimal that reads back as the positive value `mantissa * 2 ^ exponent`. -/
def shortest (tie : Tie) (mantissa : Nat) (exponent : Int) : Decimal :=
  let i := Interval.around mantissa exponent
  let leading := leadingPower i.value i.unit
  let found := (List.range maxDigits).findSome? fun (k : Nat) =>
    let grid := leading - (k : Int)
    (i.neighbour? tie grid).map fun d => (⟨d, grid⟩ : Decimal)
  (found.getD ⟨0, 0⟩).strip maxDigits

/-! ## Reading a decimal -/

/-- Decimals of this many places or more before the point are beyond every finite value. -/
def hugePlaces : Int := 310

/-- Decimals whose first digit is this far behind the point are nearer to zero than to any
positive value. -/
def tinyPlaces : Int := -330

/-- The value nearest to a decimal, infinity beyond the largest value.  Far exponents are decided
by the place of the first digit, so no power of ten is ever large. -/
def Decimal.toFloat (d : Decimal) : Float :=
  let places := d.exponent + digitCount d.digits
  if d.digits = 0 then nearest 0 1
  else if hugePlaces < places then .ofBits infinityPattern.toUInt64
  else if places < tinyPlaces then nearest 0 1
  else nearest (d.digits * tenPow d.exponent.toNat) (tenPow (-d.exponent).toNat)

end LoxLang.Number
