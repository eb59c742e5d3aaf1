import LoxLang.Proofs.Number.Rounding
import Mathlib

/-!
# Values and their bits

A value is known by its bits, and its shape is read off them.  The operations on values go another
way: they take the bits apart into a sign, a mantissa and an exponent, with zero as a case of its
own, and put the result together again.  This file compares the two (`unpack_toBitVec`), so that an
operation on values becomes one on shapes.

A finite shape has one pattern (`ofPattern_patternOf`, `canonical_of_ofPattern`), and a value is the
one that is put together from its shape (`toFloat_of`).  A shape is that of the value put together
from it if it is finite (`of_toFloat`); values that are not a number have many patterns, of which
only one is used.
-/

namespace LoxLang.Number

open Float.Model Float.Model.UnpackedFloat

/-! ## Shapes taken apart -/

/-- The sign of a value. -/
def signOf (negative : Bool) : Sign := if negative then .negative else .positive

/-- The sign bit of a value, at its place. -/
def signBit (negative : Bool) : ℕ := if negative then twoPow 63 else 0

/-- The parts of a shape. -/
def Shape.unpacked : Shape → UnpackedFloat
  | .notANumber => .notANumber
  | .infinite negative => .infinity (signOf negative)
  | .finite negative m e =>
    if h : m = 0 then .zero (signOf negative)
    else .finite (signOf negative) m e (Nat.pos_of_ne_zero h)

/-- The value of a shape. -/
def Shape.toFloat (s : Shape) : Float := ⟨Float.Model.pack s.unpacked⟩

/-- A shape with the other sign. -/
def Shape.opposite : Shape → Shape
  | .notANumber => .notANumber
  | .infinite negative => .infinite (!negative)
  | .finite negative m e => .finite (!negative) m e

lemma unpacked_opposite (s : Shape) : s.opposite.unpacked = s.unpacked.neg := by
  have hsign : ∀ negative, signOf (!negative) = -signOf negative := by
    rintro (_ | _) <;> rfl
  cases s with
  | notANumber => rfl
  | infinite negative => simp only [Shape.opposite, Shape.unpacked, UnpackedFloat.neg, hsign]
  | finite negative m e =>
    simp only [Shape.opposite, Shape.unpacked, hsign]
    split <;> rfl

/-! ## Bits taken apart -/

section Unpack

variable (bits : UInt64)

lemma toNat_unpackMantissa :
    (@unpackMantissa .binary64 bits.toBitVec).toNat = bits.toNat % twoPow storedBits := by
  simp [unpackMantissa, storedBits, twoPow]

lemma toNat_unpackExponent : (@unpackExponent .binary64 bits.toBitVec).toNat =
    bits.toNat / twoPow storedBits % twoPow 11 := by
  simp [unpackExponent, storedBits, twoPow, Nat.shiftRight_eq_div_pow]

lemma ofBitVec_unpackSign : Sign.ofBitVec (@unpackSign .binary64 bits.toBitVec) =
    signOf (bits.toNat / twoPow 63 % 2 == 1) := by
  have hsign : (@unpackSign .binary64 bits.toBitVec).toNat =
      bits.toNat / twoPow 63 % 2 := by
    simp [unpackSign, twoPow, Nat.shiftRight_eq_div_pow]
  rcases Nat.mod_two_eq_zero_or_one (bits.toNat / twoPow 63) with hbit | hbit
  all_goals
    rw [hbit] at hsign ⊢
    simp [Sign.ofBitVec, signOf, ← BitVec.toNat_inj, hsign]

/-- **The parts of a bit pattern are those of its shape.** -/
lemma unpack_toBitVec :
    UnpackedFloat.unpack .binary64 bits.toBitVec = (Shape.ofPattern bits.toNat).unpacked := by
  have hm := toNat_unpackMantissa bits
  have he := toNat_unpackExponent bits
  have hmzero : @unpackMantissa .binary64 bits.toBitVec = 0#52 ↔
      bits.toNat % twoPow storedBits = 0 := by
    rw [← BitVec.toNat_inj, hm]
    rfl
  have hezero : @unpackExponent .binary64 bits.toBitVec = 0#11 ↔
      bits.toNat / twoPow storedBits % twoPow 11 = 0 := by
    rw [← BitVec.toNat_inj, he]
    rfl
  have hefull : @unpackExponent .binary64 bits.toBitVec = -1#11 ↔
      bits.toNat / twoPow storedBits % twoPow 11 = 2047 := by
    rw [← BitVec.toNat_inj, he]
    rfl
  simp only [UnpackedFloat.unpack, Shape.ofPattern, ofBitVec_unpackSign, hmzero, hezero, hefull]
  by_cases hfull : bits.toNat / twoPow storedBits % twoPow 11 = 2047
  · rw [if_pos hfull, if_pos hfull]
    split <;> rfl
  rw [if_neg hfull, if_neg hfull]
  by_cases hzero : bits.toNat / twoPow storedBits % twoPow 11 = 0
  · rw [if_pos hzero, if_pos hzero]
    by_cases hstored : bits.toNat % twoPow storedBits = 0
    · rw [dif_pos hstored, Shape.unpacked, dif_pos hstored]
    · rw [dif_neg hstored, Shape.unpacked, dif_neg hstored]
      simp only [finite.injEq, true_and, hm, he, hzero]
      rfl
  · have hmantissa : (1#1 ++ @unpackMantissa .binary64 bits.toBitVec).toNat =
        twoPow storedBits + bits.toNat % twoPow storedBits := by
      rw [BitVec.toNat_append, hm]
      exact (Nat.shiftLeft_add_eq_or_of_lt (Nat.mod_lt _ (twoPow_pos storedBits)) 1).symm
    have hne : ¬ twoPow storedBits + bits.toNat % twoPow storedBits = 0 := by
      have := twoPow_pos storedBits
      omega
    have hbias : ((Format.exponentBias .binary64 : ℕ) : ℤ) = 1023 := rfl
    rw [if_neg hzero, if_neg hzero, Shape.unpacked, dif_neg hne]
    simp only [finite.injEq, true_and, he, hmantissa]
    rw [hbias, minExponent]
    omega

end Unpack

/-! ## Finite shapes and their patterns -/

section Finite

variable {m bits : ℕ} {e : ℤ} {negative : Bool}

/-- A pattern of a finite value holds a canonical pair and the sign, and nothing else. -/
lemma canonical_of_ofPattern (hbits : bits < 2 ^ 64)
    (h : Shape.ofPattern bits = .finite negative m e) :
    Canonical m e ∧ bits = signBit negative + patternOf m e := by
  have h63 : twoPow 63 = 2 ^ 63 := rfl
  have h52 : twoPow storedBits = 2 ^ 52 := rfl
  have h11 : twoPow 11 = 2 ^ 11 := rfl
  have hsign : signBit (bits / twoPow 63 % 2 == 1) = bits / 2 ^ 63 * 2 ^ 63 := by
    obtain h | h : bits / 2 ^ 63 = 0 ∨ bits / 2 ^ 63 = 1 := by omega
    all_goals
      rw [signBit, h63, h]
      rfl
  simp only [Shape.ofPattern, h52, h11] at h
  by_cases hfull : bits / 2 ^ 52 % 2 ^ 11 = 2047
  · rw [if_pos hfull] at h
    split at h <;> cases h
  rw [if_neg hfull] at h
  by_cases hzero : bits / 2 ^ 52 % 2 ^ 11 = 0
  · rw [if_pos hzero] at h
    cases h
    refine ⟨⟨by omega, le_refl _, by decide, fun h => absurd h (lt_irrefl _)⟩, ?_⟩
    rw [hsign, patternOf, h52]
    omega
  · rw [if_neg hzero] at h
    cases h
    refine ⟨⟨by omega, by omega, by rw [minExponent]; omega, fun _ => by omega⟩, ?_⟩
    rw [hsign, patternOf, h52]
    omega

/-- The pattern that is made of a canonical pair has it as its shape. -/
lemma ofPattern_patternOf (h : Canonical m e) (negative : Bool) :
    Shape.ofPattern (signBit negative + patternOf m e) = .finite negative m e := by
  have h63 : twoPow 63 = 2 ^ 63 := rfl
  have h52 : twoPow storedBits = 2 ^ 52 := rfl
  have h11 : twoPow 11 = 2 ^ 11 := rfl
  obtain ⟨hlt, hmin, hmax, hnormal⟩ := h
  rw [minExponent] at hmin hnormal
  generalize hbits : signBit negative + patternOf m e = bits
  have hrest : bits % 2 ^ 63 = patternOf m e ∧ (bits / twoPow 63 % 2 == 1) = negative := by
    have hpattern : patternOf m e < 2 ^ 63 := by
      rw [patternOf, h52, minExponent]
      omega
    rw [← hbits, h63]
    cases negative <;> simp [signBit, h63] <;> omega
  obtain ⟨hpattern, hnegative⟩ := hrest
  rw [patternOf, h52, minExponent] at hpattern
  simp only [Shape.ofPattern, hnegative, h52, h11]
  rw [if_neg (by omega)]
  by_cases hfull : 2 ^ 52 ≤ m
  · rw [if_neg (by omega), minExponent]
    congr 1 <;> omega
  · rw [if_pos (by omega), minExponent]
    congr 1 <;> omega

/-- The sign bit is the first one. -/
lemma signBit_iff (hbits : bits = signBit negative + patternOf m e) (h : Canonical m e) :
    2 ^ 63 ≤ bits ↔ negative = true := by
  have hpattern := h.patternOf_lt
  have h63 : twoPow 63 = 2 ^ 63 := rfl
  have hinfinity : infinityPattern = 2047 * 2 ^ 52 := rfl
  rw [hbits, signBit, h63]
  cases negative with
  | false =>
    simp only [Bool.false_eq_true, if_false, iff_false]
    omega
  | true => simp

end Finite

/-! ## Whole numbers -/

/-- The magnitude of a whole number is exact. -/
lemma magnitude?_eq_some_iff {m n : ℕ} {e : ℤ} {negative : Bool} :
    (Shape.finite negative m e).magnitude? = some n ↔ (n : ℚ) = m * 2 ^ e := by
  have hpower : (2 : ℚ) ^ e = 2 ^ e.toNat / 2 ^ (-e).toNat := zpow_eq_div 2 e
  have hcast : (n : ℚ) = m * 2 ^ e ↔ n * twoPow (-e).toNat = m * twoPow e.toNat := by
    rw [hpower, ← mul_div_assoc, eq_div_iff (by positivity), ← cast_twoPow, ← cast_twoPow]
    exact_mod_cast Iff.rfl
  rw [hcast, Shape.magnitude?]
  -- One of the two powers is one.
  rcases le_total 0 e with he | he
  · have hone : twoPow (-e).toNat = 1 := by rw [Int.toNat_eq_zero.mpr (by omega), twoPow_zero]
    simp only [hone, Nat.mod_one, Nat.div_one, mul_one, if_true, Option.some.injEq]
    exact eq_comm
  · have hone : twoPow e.toNat = 1 := by rw [Int.toNat_eq_zero.mpr he, twoPow_zero]
    have hpos := twoPow_pos (-e).toNat
    simp only [hone, mul_one]
    constructor
    · intro h
      split at h
      · next hmod =>
        cases h
        exact Nat.div_mul_cancel (Nat.dvd_of_mod_eq_zero hmod)
      · cases h
    · intro h
      rw [← h, if_pos (Nat.mul_mod_left _ _), Nat.mul_div_cancel _ hpos]

/-! ## Values -/

lemma unpack_toModel (x : Float) : x.toModel.unpack = (Shape.of x).unpacked :=
  unpack_toBitVec x.toBits

lemma ofBits_eq_toFloat (bits : UInt64) :
    Float.ofBits bits = (Shape.ofPattern bits.toNat).toFloat := by
  rw [Shape.toFloat, ← unpack_toBitVec]
  rfl

lemma neg_eq_toFloat (x : Float) : -x = (Shape.of x).opposite.toFloat := by
  rw [Shape.toFloat, unpacked_opposite, Shape.of, ← unpack_toBitVec]
  rfl

/-- **A value is what its shape makes.** -/
lemma toFloat_of (x : Float) : (Shape.of x).toFloat = x := by
  rw [Shape.of, ← ofBits_eq_toFloat, Float.ofBits_toBits]

section Values

variable {x : Float} {m : ℕ} {e : ℤ} {negative : Bool}

lemma canonical_of_shape (hx : Shape.of x = .finite negative m e) : Canonical m e :=
  (canonical_of_ofPattern x.toBits.toNat_lt hx).1

lemma signBit_toBits (hx : Shape.of x = .finite negative m e) :
    2 ^ 63 ≤ x.toBits.toNat ↔ negative = true := by
  obtain ⟨hcanonical, hbits⟩ := canonical_of_ofPattern x.toBits.toNat_lt hx
  exact signBit_iff hbits hcanonical

lemma exists_shape_of_isFinite (hx : x.isFinite = true) :
    ∃ negative m e, Shape.of x = .finite negative m e := by
  have hunpacked : (Shape.of x).unpacked.isFinite = true := by
    rw [← unpack_toModel]
    exact hx
  cases hshape : Shape.of x with
  | notANumber =>
    rw [hshape] at hunpacked
    cases hunpacked
  | infinite negative =>
    rw [hshape] at hunpacked
    cases hunpacked
  | finite negative m e => exact ⟨negative, m, e, rfl⟩

lemma toNat_patternOf (h : Canonical m e) :
    (patternOf m e).toUInt64.toNat = patternOf m e := by
  apply UInt64.toNat_ofNat_of_lt'
  exact lt_trans h.patternOf_lt (by decide)

/-- The value of a pattern without a sign is the value of the pair. -/
lemma ofBits_patternOf (h : Canonical m e) :
    Float.ofBits (patternOf m e).toUInt64 = (Shape.finite false m e).toFloat := by
  have hshape := ofPattern_patternOf h false
  rw [signBit, if_neg Bool.false_ne_true, Nat.zero_add] at hshape
  rw [ofBits_eq_toFloat, toNat_patternOf h, hshape]

/-- **The magnitude of a value, as a value**: the value itself, or its opposite when its sign bit is
set. -/
lemma ofBits_patternOf_of_shape (hx : Shape.of x = .finite negative m e) :
    Float.ofBits (patternOf m e).toUInt64 = if negative then -x else x := by
  rw [ofBits_patternOf (canonical_of_shape hx)]
  cases negative with
  | false => rw [← hx, toFloat_of, if_neg Bool.false_ne_true]
  | true => rw [if_pos rfl, neg_eq_toFloat, hx, Shape.opposite, Bool.not_true]

end Values

end LoxLang.Number
