import LoxLang.Number.Decimal
import Mathlib.Algebra.Order.Field.Power
import Mathlib.Data.Int.Log
import Mathlib.Data.Rat.Floor
import Mathlib.Tactic.FieldSimp
import Mathlib.Tactic.Linarith
import Mathlib.Tactic.Positivity

/-!
# Rounding to a value

The model rounds fractions with natural numbers: shifted numerators, a quotient and a remainder.
This file says what that does in rational numbers.

A finite value is `m * 2 ^ e` for a `Canonical` pair, and its pattern is `patternOf m e`.  Around it
lie the fractions that round to it (`RoundsTo`): half a step up, half a step down, and only a
quarter of a step down from a power of two, where the steps below are half as long.  The ends
belong to the value with the even mantissa.

The one fact that printing and reading share is `nearestPattern_of_roundsTo`: whatever rounds to a
value is read as that value.  The only case with a carry is a fraction just below a power of two.
Its exponent is the lower one, its mantissa is rounded up to `2 ^ 53`, and the pattern that this
makes is the pattern of the power of two.
-/

namespace LoxLang.Number

/-! ## Powers -/

section Powers

@[simp] lemma cast_twoPow (n : ℕ) : (twoPow n : ℚ) = 2 ^ n := by simp [twoPow]

@[simp] lemma cast_tenPow (n : ℕ) : (tenPow n : ℚ) = 10 ^ n := by simp [tenPow]

/-- A power with any exponent is a quotient of two with natural exponents, one of them zero. -/
lemma zpow_eq_div (b : ℚ) (e : ℤ) : b ^ e = b ^ e.toNat / b ^ (-e).toNat := by
  rcases le_total 0 e with he | he
  · obtain ⟨n, rfl⟩ := Int.eq_ofNat_of_zero_le he
    simp
  · obtain ⟨n, hn⟩ := Int.eq_ofNat_of_zero_le (neg_nonneg.mpr he)
    have hpos : e.toNat = 0 := Int.toNat_eq_zero.mpr he
    rw [hpos, hn, ← neg_neg e, hn]
    simp

/-- A fraction scaled by a power of two, as the model scales it. -/
lemma scaled_eq (n d : ℕ) (q : ℤ) :
    ((n * twoPow (-q).toNat : ℕ) : ℚ) / (d * twoPow q.toNat : ℕ) = n / d / 2 ^ q := by
  rw [zpow_eq_div, Nat.cast_mul, Nat.cast_mul, cast_twoPow, cast_twoPow]
  field_simp

end Powers

/-! ## Pairs and patterns -/

/-- **The mantissas and exponents of finite values.**  Every value but the smallest has a full
mantissa, so no value is written in two ways. -/
structure Canonical (m : ℕ) (e : ℤ) : Prop where
  mantissa_lt : m < 2 ^ 53
  minExponent_le : minExponent ≤ e
  exponent_le : e ≤ 971
  full : minExponent < e → 2 ^ 52 ≤ m

/-- The bits of a value without its sign. -/
def patternOf (m : ℕ) (e : ℤ) : ℕ := (e - minExponent).toNat * twoPow storedBits + m

/-- How far the fractions that round to a value reach below it, in steps. -/
def reachBelow (m : ℕ) (e : ℤ) : ℚ :=
  if m = twoPow storedBits ∧ minExponent < e then 1 / 4 else 1 / 2

/-- **The fractions that round to `m * 2 ^ e`.** -/
structure RoundsTo (m : ℕ) (e : ℤ) (r : ℚ) : Prop where
  low : (m - reachBelow m e) * 2 ^ e ≤ r
  high : r ≤ (m + 1 / 2) * 2 ^ e
  /-- The ends of the interval go to an even mantissa. -/
  tie : r = (m - reachBelow m e) * 2 ^ e ∨ r = (m + 1 / 2) * 2 ^ e → m % 2 = 0

lemma reachBelow_le (m : ℕ) (e : ℤ) : reachBelow m e ≤ 1 / 2 := by
  unfold reachBelow
  split <;> norm_num

lemma reachBelow_pos (m : ℕ) (e : ℤ) : 0 < reachBelow m e := by
  unfold reachBelow
  split <;> norm_num

lemma Canonical.patternOf_lt {m : ℕ} {e : ℤ} (h : Canonical m e) :
    patternOf m e < infinityPattern := by
  have hlt := h.mantissa_lt
  have hmin := h.minExponent_le
  have hmax := h.exponent_le
  rw [minExponent] at hmin
  have hstored : twoPow storedBits = 2 ^ 52 := rfl
  rw [patternOf, infinityPattern, hstored, minExponent]
  omega

/-- A value rounds to itself. -/
lemma roundsTo_self (m : ℕ) (e : ℤ) : RoundsTo m e (m * 2 ^ e) := by
  have hscale : (0 : ℚ) < 2 ^ e := by positivity
  have hbelow := reachBelow_pos m e
  constructor
  · nlinarith
  · nlinarith
  · rintro (h | h) <;> nlinarith

section RoundsTo

variable {m : ℕ} {e : ℤ} {r : ℚ}

lemma RoundsTo.pos (h : RoundsTo m e r) (hm : 0 < m) : 0 < r := by
  have hm' : (1 : ℚ) ≤ m := by exact_mod_cast hm
  have hbelow := reachBelow_le m e
  have hscale : (0 : ℚ) < 2 ^ e := by positivity
  exact lt_of_lt_of_le (mul_pos (by linarith) hscale) h.low

/-- The fractions that round to a value lie below the next power of two. -/
lemma RoundsTo.lt_zpow (h : RoundsTo m e r) (hm : m < 2 ^ 53) : r < 2 ^ (e + 53) := by
  have hm' : (m : ℚ) + 1 ≤ 2 ^ 53 := by exact_mod_cast hm
  have hscale : (0 : ℚ) < 2 ^ e := by positivity
  calc r ≤ (m + 1 / 2) * 2 ^ e := h.high
    _ < 2 ^ 53 * 2 ^ e := by nlinarith
    _ = 2 ^ (e + 53) := by rw [zpow_add₀ two_ne_zero, mul_comm]; norm_num

end RoundsTo

/-! ## What the model computes -/

/-- The rounded quotient is the nearest whole number. -/
lemma roundHalfEven_eq {n d m : ℕ} (hd : 0 < d) (low : (m : ℚ) - 1 / 2 ≤ n / d)
    (high : (n : ℚ) / d ≤ m + 1 / 2)
    (tie : (n : ℚ) / d = m - 1 / 2 ∨ (n : ℚ) / d = m + 1 / 2 → m % 2 = 0) :
    roundHalfEven n d = m := by
  have hd' : (0 : ℚ) < d := by exact_mod_cast hd
  have hlow : 2 * (m * d) ≤ 2 * n + d := by
    rw [le_div_iff₀ hd'] at low
    have h : 2 * ((m : ℚ) * d) ≤ 2 * n + d := by linarith
    exact_mod_cast h
  have hhigh : 2 * n ≤ 2 * (m * d) + d := by
    rw [div_le_iff₀ hd'] at high
    have h : 2 * (n : ℚ) ≤ 2 * (m * d) + d := by linarith
    exact_mod_cast h
  have htie : 2 * (m * d) = 2 * n + d ∨ 2 * n = 2 * (m * d) + d → m % 2 = 0 := by
    intro h
    apply tie
    rw [div_eq_iff hd'.ne', div_eq_iff hd'.ne']
    rcases h with h | h
    · have h' : 2 * ((m : ℚ) * d) = 2 * n + d := by exact_mod_cast h
      exact .inl (by linarith)
    · have h' : 2 * (n : ℚ) = 2 * (m * d) + d := by exact_mod_cast h
      exact .inr (by linarith)
  have hdiv : d * (n / d) + n % d = n := Nat.div_add_mod n d
  have hmod : n % d < d := Nat.mod_lt n hd
  -- The quotient is the whole number or the one below it.
  have hle : n / d ≤ m := by
    by_contra hlt
    have := Nat.mul_le_mul_left d (Nat.succ_le_of_lt (not_le.mp hlt))
    rw [Nat.mul_succ, Nat.mul_comm d m] at this
    omega
  have hge : m ≤ n / d + 1 := by
    by_contra hlt
    have := Nat.mul_le_mul_left d (Nat.succ_le_of_lt (not_le.mp hlt))
    rw [Nat.mul_succ, Nat.mul_succ, Nat.mul_comm d m] at this
    omega
  unfold roundHalfEven
  obtain heq | heq : m = n / d ∨ m = n / d + 1 := by omega
  · have hmd : m * d = d * (n / d) := by rw [heq, Nat.mul_comm]
    rw [← heq, if_pos]
    omega
  · have hmd : m * d = d * (n / d) + d := by rw [heq, Nat.add_mul, one_mul, Nat.mul_comm]
    rw [heq, if_neg]
    omega

/-- The binary exponent is the logarithm. -/
lemma binaryExponent_eq_log {n d : ℕ} (hn : 0 < n) (hd : 0 < d) :
    binaryExponent n d = Int.log 2 ((n : ℚ) / d) := by
  have hn' : (0 : ℚ) < n := by exact_mod_cast hn
  have hd' : (0 : ℚ) < d := by exact_mod_cast hd
  have hpos : (0 : ℚ) < n / d := div_pos hn' hd'
  have hnlow : (2 : ℚ) ^ n.log2 ≤ n := by exact_mod_cast Nat.log2_self_le hn.ne'
  have hnhigh : (n : ℚ) < 2 ^ (n.log2 + 1) := by exact_mod_cast Nat.lt_log2_self
  have hdlow : (2 : ℚ) ^ d.log2 ≤ d := by exact_mod_cast Nat.log2_self_le hd.ne'
  have hdhigh : (d : ℚ) < 2 ^ (d.log2 + 1) := by exact_mod_cast Nat.lt_log2_self
  generalize hk : (n.log2 : ℤ) - d.log2 = k
  have hlt : (n : ℚ) / d < 2 ^ (k + 1) := by
    calc (n : ℚ) / d < 2 ^ (n.log2 + 1) / 2 ^ d.log2 := by gcongr
      _ = 2 ^ (k + 1) := by
        rw [← hk, ← zpow_natCast, ← zpow_natCast, ← zpow_sub₀ two_ne_zero]
        congr 1
        push_cast
        ring
  have hge : (2 : ℚ) ^ (k - 1) ≤ n / d := by
    calc (2 : ℚ) ^ (k - 1) = 2 ^ n.log2 / 2 ^ (d.log2 + 1) := by
          rw [← hk, ← zpow_natCast, ← zpow_natCast, ← zpow_sub₀ two_ne_zero]
          congr 1
          push_cast
          ring
      _ ≤ n / d := by gcongr
  have hcond : d * twoPow k.toNat ≤ n * twoPow (-k).toNat ↔ (2 : ℚ) ^ k ≤ n / d := by
    rw [le_div_iff₀ hd', zpow_eq_div, div_mul_eq_mul_div, div_le_iff₀ (by positivity),
      mul_comm _ (d : ℚ), ← cast_twoPow, ← cast_twoPow]
    exact_mod_cast Iff.rfl
  have hlog : Int.log 2 ((n : ℚ) / d) < k + 1 :=
    (Int.lt_zpow_iff_log_lt Nat.one_lt_two hpos).mp (by exact_mod_cast hlt)
  have hlog' : k - 1 ≤ Int.log 2 ((n : ℚ) / d) :=
    (Int.zpow_le_iff_le_log Nat.one_lt_two hpos).mp (by exact_mod_cast hge)
  have hiff : (2 : ℚ) ^ k ≤ n / d ↔ k ≤ Int.log 2 ((n : ℚ) / d) := by
    rw [← Int.zpow_le_iff_le_log Nat.one_lt_two hpos]
    exact_mod_cast Iff.rfl
  simp only [binaryExponent, hk, hcond, hiff]
  split <;> omega

section Nearest

variable {m n d : ℕ} {e : ℤ}

/-- The mantissa that a fraction is rounded to, on the grid of the multiples of `2 ^ q`. -/
lemma roundHalfEven_scaled (hd : 0 < d) (q : ℤ) (low : ((m : ℚ) - 1 / 2) * 2 ^ q ≤ n / d)
    (high : (n : ℚ) / d ≤ (m + 1 / 2) * 2 ^ q)
    (tie : (n : ℚ) / d = (m - 1 / 2) * 2 ^ q ∨ (n : ℚ) / d = (m + 1 / 2) * 2 ^ q → m % 2 = 0) :
    roundHalfEven (n * twoPow (-q).toNat) (d * twoPow q.toNat) = m := by
  have hscale : (0 : ℚ) < 2 ^ q := by positivity
  apply roundHalfEven_eq (Nat.mul_pos hd (twoPow_pos _))
  · rwa [scaled_eq, le_div_iff₀ hscale]
  · rwa [scaled_eq, div_le_iff₀ hscale]
  · rwa [scaled_eq, div_eq_iff hscale.ne', div_eq_iff hscale.ne']

lemma nearestPattern_eq (hn : 0 < n) (hd : 0 < d) {q : ℤ}
    (hq : max minExponent (Int.log 2 ((n : ℚ) / d) - 52) = q) :
    nearestPattern n d = min ((q - minExponent).toNat * twoPow storedBits +
      roundHalfEven (n * twoPow (-q).toNat) (d * twoPow q.toNat)) infinityPattern := by
  have hstored : ((storedBits : ℕ) : ℤ) = 52 := rfl
  simp only [nearestPattern, if_neg hn.ne', binaryExponent_eq_log hn hd, hstored, hq]

lemma log_lt_iff (hn : 0 < n) (hd : 0 < d) (k : ℤ) :
    Int.log 2 ((n : ℚ) / d) < k ↔ (n : ℚ) / d < 2 ^ k := by
  rw [← Int.lt_zpow_iff_log_lt Nat.one_lt_two (by positivity)]
  exact_mod_cast Iff.rfl

/-- Below a power of two the mantissa is rounded up, and the carry makes the power's pattern. -/
lemma nearestPattern_of_carry (h : Canonical m e) (hn : 0 < n) (hd : 0 < d)
    (hr : RoundsTo m e (n / d)) (he : minExponent < e) (hlt : (n : ℚ) / d < 2 ^ (e + 52)) :
    nearestPattern n d = patternOf m e := by
  have hscale : (0 : ℚ) < 2 ^ (e - 1) := by positivity
  have hdouble : (2 : ℚ) ^ e = 2 * 2 ^ (e - 1) := by
    rw [← zpow_one_add₀ two_ne_zero]
    congr 1
    ring
  have hpower : (2 : ℚ) ^ (e + 52) = 2 ^ 52 * 2 ^ e := by
    rw [zpow_add₀ two_ne_zero, mul_comm]
    norm_num
  have hlow := hr.low
  have hm : m = 2 ^ 52 := by
    have hle : (m : ℚ) < 2 ^ 52 + 1 := by
      have hbelow := reachBelow_le m e
      by_contra hge
      nlinarith
    have hle' : m < 2 ^ 52 + 1 := by exact_mod_cast hle
    have hfull := h.full he
    omega
  have hbelow : reachBelow m e = 1 / 4 := if_pos ⟨hm, he⟩
  rw [hbelow, hdouble, hm] at hlow
  push_cast at hlow
  have hlog : Int.log 2 ((n : ℚ) / d) = e + 51 := by
    have hupper := (log_lt_iff hn hd _).mpr hlt
    have hlower : ¬ Int.log 2 ((n : ℚ) / d) < e + 51 := by
      have hsmall : (2 : ℚ) ^ (e + 51) = 2 ^ 52 * 2 ^ (e - 1) := by
        rw [← zpow_natCast, ← zpow_add₀ two_ne_zero]
        congr 1
        push_cast
        ring
      rw [log_lt_iff hn hd, hsmall]
      linarith
    omega
  have hmantissa := roundHalfEven_scaled (m := 2 ^ 53) (n := n) hd (e - 1)
    (by push_cast; linarith) (by push_cast; linarith) (fun _ => by norm_num)
  have hpattern : (e - 1 - minExponent).toNat * twoPow storedBits + 2 ^ 53 = patternOf m e := by
    have hstored : twoPow storedBits = 2 ^ 52 := rfl
    rw [patternOf, hm, hstored]
    omega
  have hq : max minExponent (Int.log 2 ((n : ℚ) / d) - 52) = e - 1 := by omega
  rw [nearestPattern_eq hn hd hq, hmantissa, hpattern]
  exact min_eq_left h.patternOf_lt.le

/-- **Whatever rounds to a value is read as that value.** -/
lemma nearestPattern_of_roundsTo (h : Canonical m e) (hn : 0 < n) (hd : 0 < d)
    (hr : RoundsTo m e (n / d)) : nearestPattern n d = patternOf m e := by
  by_cases hcarry : minExponent < e ∧ (n : ℚ) / d < 2 ^ (e + 52)
  · exact nearestPattern_of_carry h hn hd hr hcarry.1 hcarry.2
  have hscale : (0 : ℚ) < 2 ^ e := by positivity
  have hupper : Int.log 2 ((n : ℚ) / d) < e + 53 :=
    (log_lt_iff hn hd _).mpr (hr.lt_zpow h.mantissa_lt)
  rw [← log_lt_iff hn hd] at hcarry
  have hmin := h.minExponent_le
  have hbelow := reachBelow_le m e
  have hmantissa : roundHalfEven (n * twoPow (-e).toNat) (d * twoPow e.toNat) = m := by
    apply roundHalfEven_scaled hd e
    · exact le_trans (by gcongr) hr.low
    · exact hr.high
    · rintro (hlow | hhigh)
      · have hend := hr.low
        rw [hlow, mul_le_mul_iff_left₀ hscale] at hend
        have hhalf : reachBelow m e = 1 / 2 := by linarith
        exact hr.tie (.inl (by rw [hhalf, hlow]))
      · exact hr.tie (.inr hhigh)
  have hq : max minExponent (Int.log 2 ((n : ℚ) / d) - 52) = e := by omega
  rw [nearestPattern_eq hn hd hq, hmantissa, ← patternOf]
  exact min_eq_left h.patternOf_lt.le

end Nearest

end LoxLang.Number
