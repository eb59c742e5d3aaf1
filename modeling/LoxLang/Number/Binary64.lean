/-!
# Binary64 numbers as exact fractions

A number of the language is a binary64 value.  Every text the language writes for a number,
and every number it reads from a text, is decided by exact arithmetic on natural numbers, so
this file fixes the two directions between a value and its fraction:

* `Shape.of` takes a value apart into a sign, a mantissa and a power of two;
* `nearest` gives the value closest to a fraction, a tie going to the even mantissa.

Nothing here rounds in binary64 itself.  A law about printing or reading can therefore be
stated about natural numbers, with `Float.toBits` as the only bridge to the values.
-/

namespace LoxLang.Number

/-- The `n`-th power of two. -/
def twoPow (n : Nat) : Nat := Nat.pow 2 n

/-- The `n`-th power of ten. -/
def tenPow (n : Nat) : Nat := Nat.pow 10 n

@[simp] theorem twoPow_zero : twoPow 0 = 1 := rfl

theorem twoPow_succ (n : Nat) : twoPow (n + 1) = twoPow n * 2 := rfl

@[simp] theorem tenPow_zero : tenPow 0 = 1 := rfl

theorem tenPow_succ (n : Nat) : tenPow (n + 1) = tenPow n * 10 := rfl

theorem twoPow_pos (n : Nat) : 0 < twoPow n := by
  induction n with
  | zero => decide
  | succ n ih => rw [twoPow_succ]; omega

theorem tenPow_pos (n : Nat) : 0 < tenPow n := by
  induction n with
  | zero => decide
  | succ n ih => rw [tenPow_succ]; omega

/-- What a bit pattern stands for.  A finite value is `± mantissa * 2 ^ exponent`, with the
exponent never below `-1074` and the mantissa below `2 ^ 53`. -/
inductive Shape where
  | notANumber
  | infinite (negative : Bool)
  | finite (negative : Bool) (mantissa : Nat) (exponent : Int)
  deriving DecidableEq, Repr

/-- The least power of two that scales a mantissa. -/
def minExponent : Int := -1074

/-- The number of mantissa bits that a bit pattern stores. -/
def storedBits : Nat := 52

/-- The shape of a bit pattern: one sign bit, eleven exponent bits, fifty-two mantissa bits.
A pattern with the lowest exponent has no implicit leading bit. -/
def Shape.ofPattern (bits : Nat) : Shape :=
  let negative := bits / twoPow 63 % 2 == 1
  let field := bits / twoPow storedBits % twoPow 11
  let stored := bits % twoPow storedBits
  if field = 2047 then
    if stored = 0 then .infinite negative else .notANumber
  else if field = 0 then .finite negative stored minExponent
  else .finite negative (twoPow storedBits + stored) (minExponent + (field - 1 : Nat))

/-- The shape of a value. -/
def Shape.of (x : Float) : Shape := .ofPattern x.toBits.toNat

/-- Is the value a whole number?  If so, its magnitude. -/
def Shape.magnitude? : Shape → Option Nat
  | .finite _ mantissa exponent =>
    let divisor := twoPow (-exponent).toNat
    if mantissa % divisor = 0 then some (mantissa / divisor * twoPow exponent.toNat) else none
  | _ => none

/-- Is the value finite? -/
def Shape.isFinite : Shape → Bool
  | .finite .. => true
  | _ => false

/-! ## From a fraction to the nearest value -/

/-- The quotient rounded to the nearest whole number, a half going to the even neighbour. -/
def roundHalfEven (num den : Nat) : Nat :=
  let quotient := num / den
  let twice := 2 * (num % den)
  if twice < den ∨ (twice = den ∧ quotient % 2 = 0) then quotient else quotient + 1

/-- The largest `k` with `2 ^ k ≤ num / den`, for a positive fraction. -/
def binaryExponent (num den : Nat) : Int :=
  let k : Int := (num.log2 : Int) - den.log2
  if den * twoPow k.toNat ≤ num * twoPow (-k).toNat then k else k - 1

/-- The pattern of positive infinity. -/
def infinityPattern : Nat := 2047 * twoPow storedBits

/-- The pattern of the nonnegative value nearest to `num / den`.

**One formula serves normal and subnormal values**: consecutive patterns are consecutive
values, so a mantissa that rounds up to the next power of two carries into the exponent by
itself, and a fraction beyond the largest value ends at infinity. -/
def nearestPattern (num den : Nat) : Nat :=
  if num = 0 then 0
  else
    let q := max minExponent (binaryExponent num den - storedBits)
    let mantissa := roundHalfEven (num * twoPow (-q).toNat) (den * twoPow q.toNat)
    min ((q - minExponent).toNat * twoPow storedBits + mantissa) infinityPattern

/-- The nonnegative value nearest to the fraction `num / den`. -/
def nearest (num den : Nat) : Float := .ofBits (nearestPattern num den).toUInt64

end LoxLang.Number
