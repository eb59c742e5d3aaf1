import LoxLang.Number.Text
import LoxLang.Proofs.Number.Rounding
import Mathlib.Algebra.Order.Floor.Semifield
import Mathlib.Data.Nat.Cast.Order.Field

/-!
# Shortest digits read back

The digits of a value are searched on one decimal grid after the other, each ten times as fine as
the one before.  What is found rounds to the value, because nothing else is looked for
(`roundsTo_of_neighbour?`); the point is that something is found.

Seventeen digits are enough (`roundsTo_neighbour`).  On that grid the steps are at most `10 ^ -16`
times the value, so the nearer neighbour of the value is at most half of that away.  The mantissa is
below `2 ^ 53`, which is less than `10 ^ 16`: half a step of the value is more.  Where the fractions
that round to the value reach down only a quarter of a step, the mantissa is `2 ^ 52`, and
`2 ^ 52 / (2 * 10 ^ 16)` is still less than a quarter.

`Decimal.toFloat_of_roundsTo` is the other direction: a decimal is read as the value that it rounds
to.  The bounds behind which no digit is looked at are never reached by such a decimal, except by
those that round to zero.
-/

namespace LoxLang.Number

/-- The number that a decimal writes. -/
def Decimal.value (d : Decimal) : ℚ := d.digits * 10 ^ d.exponent

/-! ## The interval -/

section Interval

variable {m n d : ℕ} {e : ℤ}

lemma quarter_le_iff (hd : 0 < d) (a : ℕ) : (a : ℚ) / 4 * 2 ^ e ≤ n / d ↔
    a * twoPow e.toNat * d ≤ n * (4 * twoPow (-e).toNat) := by
  have hd' : (0 : ℚ) < d := by exact_mod_cast hd
  rw [zpow_eq_div, div_mul_div_comm, div_le_div_iff₀ (by positivity) hd', ← cast_twoPow,
    ← cast_twoPow]
  exact_mod_cast Iff.rfl

lemma le_quarter_iff (hd : 0 < d) (a : ℕ) : (n : ℚ) / d ≤ a / 4 * 2 ^ e ↔
    n * (4 * twoPow (-e).toNat) ≤ a * twoPow e.toNat * d := by
  have hd' : (0 : ℚ) < d := by exact_mod_cast hd
  rw [zpow_eq_div, div_mul_div_comm, div_le_div_iff₀ hd' (by positivity), ← cast_twoPow,
    ← cast_twoPow]
  exact_mod_cast Iff.rfl

lemma Interval.contains_iff (i : Interval) : i.contains n d = true ↔
    (i.low * d ≤ n * i.unit ∧ n * i.unit ≤ i.high * d) ∧
      (i.closed = true ∨ ¬ n * i.unit ≤ i.low * d ∧ ¬ i.high * d ≤ n * i.unit) := by
  unfold Interval.contains
  split
  · next hclosed => simp [hclosed]
  · next hopen =>
    simp only [decide_eq_true_eq, hopen, Bool.false_eq_true, false_or]
    omega

/-- **The interval around a value holds the fractions that round to it.** -/
lemma contains_around (hm : 0 < m) (hd : 0 < d) :
    (Interval.around m e).contains n d = true ↔ RoundsTo m e (n / d) := by
  have hlow : (m - reachBelow m e) =
      ((4 * m - if m = twoPow storedBits ∧ minExponent < e then 1 else 2 : ℕ) : ℚ) / 4 := by
    unfold reachBelow
    split
    · rw [Nat.cast_sub (by omega)]
      push_cast
      ring
    · rw [Nat.cast_sub (by omega)]
      push_cast
      ring
  have hhigh : (m : ℚ) + 1 / 2 = ((4 * m + 2 : ℕ) : ℚ) / 4 := by
    push_cast
    ring
  have hiff : RoundsTo m e (n / d) ↔ ((m - reachBelow m e) * 2 ^ e ≤ (n : ℚ) / d ∧
      (n : ℚ) / d ≤ (m + 1 / 2) * 2 ^ e) ∧
        (m % 2 = 0 ∨ ¬ (n : ℚ) / d ≤ (m - reachBelow m e) * 2 ^ e ∧
          ¬ (m + 1 / 2) * 2 ^ e ≤ (n : ℚ) / d) := by
    constructor
    · rintro ⟨low, high, tie⟩
      refine ⟨⟨low, high⟩, or_iff_not_imp_left.mpr fun hodd => ⟨fun h => ?_, fun h => ?_⟩⟩
      · exact hodd (tie (.inl (le_antisymm h low)))
      · exact hodd (tie (.inr (le_antisymm high h)))
    · rintro ⟨⟨low, high⟩, heven | ⟨hne, hne'⟩⟩
      · exact ⟨low, high, fun _ => heven⟩
      · exact ⟨low, high, fun h => by rcases h with h | h <;> simp [h] at hne hne'⟩
  rw [hiff, hlow, hhigh, quarter_le_iff hd, le_quarter_iff hd, quarter_le_iff hd,
    le_quarter_iff hd, Interval.contains_iff]
  simp only [Interval.around, decide_eq_true_eq]

end Interval

/-! ## Leading powers -/

section Digits

variable {n : ℕ}

lemma digitCount_pos (n : ℕ) : 0 < digitCount n := Nat.length_toDigits_pos

lemma lt_tenPow_digitCount (n : ℕ) : n < 10 ^ digitCount n :=
  (Nat.length_toDigits_le_iff (by decide) (digitCount_pos n)).mp (le_refl _)

lemma tenPow_digitCount_le (hn : 0 < n) : 10 ^ (digitCount n - 1) ≤ n := by
  by_contra hlt
  rcases Nat.eq_zero_or_pos (digitCount n - 1) with hzero | hpos
  · rw [hzero] at hlt
    omega
  · have hle := (Nat.length_toDigits_le_iff (by decide) hpos).mpr (not_le.mp hlt)
    have : digitCount n ≤ digitCount n - 1 := hle
    omega

/-- The first digit of a fraction is not in front of its leading power. -/
lemma tenPow_leadingPower_le {d : ℕ} (hn : 0 < n) (hd : 0 < d) :
    (10 : ℚ) ^ leadingPower n d ≤ n / d := by
  have hn' : (0 : ℚ) < n := by exact_mod_cast hn
  have hd' : (0 : ℚ) < d := by exact_mod_cast hd
  unfold leadingPower
  split
  · next hle =>
    have hcount := tenPow_digitCount_le (Nat.div_pos hle hd)
    have hpos := digitCount_pos (n / d)
    obtain ⟨k, hk⟩ : ∃ k, digitCount (n / d) = k + 1 := ⟨_, (Nat.sub_add_cancel hpos).symm⟩
    rw [hk, Nat.add_sub_cancel] at hcount
    have hpower : ((k + 1 : ℕ) : ℤ) - 1 = k := by push_cast; ring
    rw [hk, hpower, zpow_natCast]
    calc (10 : ℚ) ^ k ≤ (n / d : ℕ) := by exact_mod_cast hcount
      _ ≤ n / d := Nat.cast_div_le
  · next hlt =>
    have hcount := lt_tenPow_digitCount (d / n)
    have hpos := digitCount_pos (d / n)
    obtain ⟨k, hk⟩ : ∃ k, digitCount (d / n) = k + 1 := ⟨_, (Nat.sub_add_cancel hpos).symm⟩
    simp only [hk, Nat.add_sub_cancel] at hcount ⊢
    split
    · next hle =>
      have hpower : 1 - ((k + 1 : ℕ) : ℤ) = -k := by push_cast; ring
      rw [hpower, zpow_neg, zpow_natCast, inv_eq_one_div, div_le_div_iff₀ (by positivity) hd',
        one_mul, ← cast_tenPow]
      exact_mod_cast hle
    · have hle : d ≤ n * 10 ^ (k + 1) := by
        calc d ≤ n * (d / n + 1) := by
              have := Nat.div_add_mod d n
              have := Nat.mod_lt d hn
              rw [Nat.mul_add]
              omega
          _ ≤ n * 10 ^ (k + 1) := Nat.mul_le_mul_left n hcount
      rw [zpow_neg, zpow_natCast, inv_eq_one_div, div_le_div_iff₀ (by positivity) hd', one_mul]
      exact_mod_cast hle

end Digits

/-! ## Neighbours on a grid -/

/-- A decimal as a fraction of natural numbers. -/
lemma value_eq_div (digits : ℕ) (exponent : ℤ) : (⟨digits, exponent⟩ : Decimal).value =
    ((digits * tenPow exponent.toNat : ℕ) : ℚ) / (tenPow (-exponent).toNat : ℕ) := by
  rw [Decimal.value, zpow_eq_div]
  push_cast [cast_tenPow]
  ring

section Neighbours

variable {i : Interval} {tie : Tie} {grid : ℤ}

/-- The multiple of `10 ^ grid` at or below the value of an interval. -/
def Interval.floor (i : Interval) (grid : ℤ) : ℕ :=
  i.value * tenPow (-grid).toNat / (i.unit * tenPow grid.toNat)

lemma contains_of_neighbour? {digits : ℕ} (h : i.neighbour? tie grid = some digits) :
    i.contains (digits * tenPow grid.toNat) (tenPow (-grid).toNat) = true := by
  simp only [Interval.neighbour?] at h
  split at h
  · next hboth =>
    rw [Bool.and_eq_true] at hboth
    split at h <;> cases h
    · exact hboth.1
    · exact hboth.2
  · split at h
    · next hlower =>
      cases h
      exact hlower
    · split at h
      · next hupper =>
        cases h
        exact hupper
      · cases h

/-- A neighbour in the interval is found, if there is one. -/
lemma isSome_neighbour? {digits : ℕ}
    (hdigits : digits = i.floor grid ∨ digits = i.floor grid + 1)
    (h : i.contains (digits * tenPow grid.toNat) (tenPow (-grid).toNat) = true) :
    (i.neighbour? tie grid).isSome = true := by
  unfold Interval.floor at hdigits
  simp only [Interval.neighbour?]
  split
  · split <;> rfl
  · split
    · rfl
    · split
      · rfl
      · next hlower hupper =>
        rcases hdigits with rfl | rfl
        · exact absurd h hlower
        · exact absurd h hupper

end Neighbours

section Value

variable {m : ℕ} {e : ℤ}

lemma value_around (m : ℕ) (e : ℤ) :
    ((Interval.around m e).value : ℚ) / (Interval.around m e).unit = m * 2 ^ e := by
  simp only [Interval.around]
  rw [zpow_eq_div]
  push_cast [cast_twoPow]
  field_simp

lemma unit_around_pos (m : ℕ) (e : ℤ) : 0 < (Interval.around m e).unit :=
  Nat.mul_pos (by decide) (twoPow_pos _)

lemma value_around_pos (hm : 0 < m) (e : ℤ) : 0 < (Interval.around m e).value :=
  Nat.mul_pos (Nat.mul_pos (by decide) hm) (twoPow_pos _)

/-- The value lies between its neighbours on a grid. -/
lemma floor_around (m : ℕ) (e grid : ℤ) :
    (((Interval.around m e).floor grid : ℕ) : ℚ) * 10 ^ grid ≤ m * 2 ^ e ∧
      (m : ℚ) * 2 ^ e < ((Interval.around m e).floor grid + 1) * 10 ^ grid := by
  have hgrid : (0 : ℚ) < 10 ^ grid := by positivity
  have hfloor : (Interval.around m e).floor grid = ⌊(m : ℚ) * 2 ^ e / 10 ^ grid⌋₊ := by
    rw [← value_around, Interval.floor, ← Nat.floor_div_eq_div (K := ℚ), zpow_eq_div 10]
    congr 1
    push_cast [cast_tenPow]
    field_simp
  constructor
  · rw [hfloor, ← le_div_iff₀ hgrid]
    exact Nat.floor_le (by positivity)
  · rw [hfloor, ← div_lt_iff₀ hgrid]
    exact Nat.lt_floor_add_one _

/-- A multiple that is near enough rounds to the value. -/
lemma roundsTo_of_near {r : ℚ} (hlow : m * 2 ^ e - r < reachBelow m e * 2 ^ e)
    (hhigh : r - m * 2 ^ e < 1 / 2 * 2 ^ e) : RoundsTo m e r where
  low := by linarith
  high := by linarith
  tie h := by rcases h with h | h <;> linarith

/-- Half a step on the grid of seventeen digits is less than what the fractions that round to a
value reach below it. -/
lemma mantissa_lt_reachBelow (h : Canonical m e) : (m : ℚ) / (2 * 10 ^ 16) < reachBelow m e := by
  have hm : (m : ℚ) < 2 ^ 53 := by exact_mod_cast h.mantissa_lt
  rw [div_lt_iff₀ (by norm_num)]
  unfold reachBelow
  split
  · next hpower =>
    rw [hpower.1, cast_twoPow, storedBits]
    norm_num
  · calc (m : ℚ) < 2 ^ 53 := hm
      _ ≤ 1 / 2 * (2 * 10 ^ 16) := by norm_num

/-- **Seventeen digits are enough**: one of the neighbours on their grid rounds to the value. -/
lemma exists_near (h : Canonical m e) {grid : ℤ} (hgrid : (10 : ℚ) ^ (grid + 16) ≤ m * 2 ^ e) :
    ∃ digits, (digits = (Interval.around m e).floor grid ∨
      digits = (Interval.around m e).floor grid + 1) ∧
        RoundsTo m e (⟨digits, grid⟩ : Decimal).value := by
  obtain ⟨hbelow, habove⟩ := floor_around m e grid
  have hreach := mantissa_lt_reachBelow h
  have hle := reachBelow_le m e
  have hscale : (0 : ℚ) < 2 ^ e := by positivity
  rw [zpow_add₀ (by norm_num)] at hgrid
  norm_num at hgrid
  -- Half a step on the grid, in steps of the value.
  have hhalf : (10 : ℚ) ^ grid / 2 < reachBelow m e * 2 ^ e := by
    calc (10 : ℚ) ^ grid / 2 ≤ m / (2 * 10 ^ 16) * 2 ^ e := by linarith
      _ < reachBelow m e * 2 ^ e := by gcongr
  have hhalf' : (10 : ℚ) ^ grid / 2 < 1 / 2 * 2 ^ e := lt_of_lt_of_le hhalf (by gcongr)
  generalize (Interval.around m e).floor grid = digits at hbelow habove ⊢
  rcases le_total ((m : ℚ) * 2 ^ e - digits * 10 ^ grid) (10 ^ grid / 2) with hnear | hfar
  · refine ⟨digits, .inl rfl, roundsTo_of_near ?_ ?_⟩
    · exact lt_of_le_of_lt hnear hhalf
    · rw [Decimal.value]
      linarith
  · refine ⟨digits + 1, .inr rfl, roundsTo_of_near ?_ ?_⟩
    · rw [Decimal.value]
      push_cast
      linarith
    · rw [Decimal.value]
      push_cast
      linarith

/-- What is found on a grid rounds to the value. -/
lemma roundsTo_of_neighbour? (hm : 0 < m) {tie : Tie} {grid : ℤ} {digits : ℕ}
    (h : (Interval.around m e).neighbour? tie grid = some digits) :
    RoundsTo m e (⟨digits, grid⟩ : Decimal).value := by
  rw [value_eq_div, ← contains_around hm (tenPow_pos _)]
  exact contains_of_neighbour? h

lemma value_strip (fuel : ℕ) (d : Decimal) : (d.strip fuel).value = d.value := by
  induction fuel generalizing d with
  | zero => rfl
  | succ fuel ih =>
    rw [Decimal.strip]
    split
    · next hzero =>
      have hdigits : (d.digits : ℚ) = (d.digits / 10 : ℕ) * 10 := by
        exact_mod_cast (Nat.div_mul_cancel (Nat.dvd_of_mod_eq_zero hzero)).symm
      rw [ih, Decimal.value, Decimal.value, hdigits, zpow_add_one₀ (by norm_num)]
      ring
    · rfl

/-- **The shortest decimal of a value rounds to it.** -/
lemma roundsTo_shortest (h : Canonical m e) (hm : 0 < m) (tie : Tie) :
    RoundsTo m e (shortest tie m e).value := by
  rw [shortest]
  simp only
  rw [value_strip]
  generalize hleading :
    leadingPower (Interval.around m e).value (Interval.around m e).unit = leading
  have hpower : (10 : ℚ) ^ leading ≤ m * 2 ^ e := by
    rw [← hleading, ← value_around]
    exact tenPow_leadingPower_le (value_around_pos hm e) (unit_around_pos m e)
  generalize hfound : ((List.range maxDigits).findSome? fun (k : ℕ) =>
    ((Interval.around m e).neighbour? tie (leading - (k : ℤ))).map
      fun d => (⟨d, leading - (k : ℤ)⟩ : Decimal)) = found
  cases found with
  | none =>
    -- The last grid of the search has a neighbour that rounds to the value.
    have hgrid : (10 : ℚ) ^ (leading - 16 + 16) ≤ m * 2 ^ e := by simpa using hpower
    obtain ⟨digits, hdigits, hnear⟩ := exists_near h hgrid
    rw [value_eq_div, ← contains_around hm (tenPow_pos _)] at hnear
    have hsome : ((Interval.around m e).neighbour? tie (leading - 16)).isSome = true :=
      isSome_neighbour? hdigits hnear
    have hnone := List.findSome?_eq_none_iff.mp hfound 16 (by decide)
    rw [Option.map_eq_none_iff] at hnone
    rw [show ((16 : ℕ) : ℤ) = 16 from rfl] at hnone
    simp [hnone] at hsome
  | some d =>
    obtain ⟨k, -, hk⟩ := List.exists_of_findSome?_eq_some hfound
    obtain ⟨digits, hneighbour, rfl⟩ := Option.map_eq_some_iff.mp hk
    exact roundsTo_of_neighbour? hm hneighbour

/-- The decimal of a magnitude rounds to it. -/
lemma roundsTo_decimalOf (h : Canonical m e) (tie : Tie) :
    RoundsTo m e (decimalOf tie m e).value := by
  unfold decimalOf
  split
  · next hzero =>
    have hvalue : (⟨0, 0⟩ : Decimal).value = (m : ℚ) * 2 ^ e := by simp [Decimal.value, hzero]
    rw [hvalue]
    exact roundsTo_self m e
  · next hm => exact roundsTo_shortest h (Nat.pos_of_ne_zero hm) tie

end Value

/-! ## Reading a decimal -/

section Reading

variable {m : ℕ} {e : ℤ} {d : Decimal}

/-- How many places a decimal has before the point, zeros behind the point counted down. -/
def Decimal.places (d : Decimal) : ℤ := d.exponent + digitCount d.digits

lemma value_lt_places (d : Decimal) : d.value < 10 ^ d.places := by
  have hdigits : (d.digits : ℚ) < 10 ^ digitCount d.digits := by
    exact_mod_cast lt_tenPow_digitCount d.digits
  rw [Decimal.value, Decimal.places, zpow_add₀ (by norm_num), zpow_natCast, mul_comm]
  gcongr

lemma places_le_value (hd : 0 < d.digits) : (10 : ℚ) ^ (d.places - 1) ≤ d.value := by
  have hdigits : (10 : ℚ) ^ (digitCount d.digits - 1) ≤ d.digits := by
    exact_mod_cast tenPow_digitCount_le hd
  have hpos := digitCount_pos d.digits
  have hplaces : d.places - 1 = d.exponent + (digitCount d.digits - 1 : ℕ) := by
    rw [Decimal.places, Nat.cast_sub hpos]
    push_cast
    ring
  rw [hplaces, Decimal.value, zpow_add₀ (by norm_num), zpow_natCast, mul_comm]
  gcongr

/-- Between the largest value and the decimals that are not looked at lies a power of ten. -/
lemma twoPow_lt_tenPow : (2 : ℚ) ^ (1024 : ℤ) < 10 ^ (309 : ℤ) := by
  have hnat : 2 ^ 1024 < 10 ^ 309 := by decide +kernel
  exact_mod_cast hnat

/-- And so it is between the smallest value and those. -/
lemma tenPow_lt_twoPow : (10 : ℚ) ^ (-324 : ℤ) < 2 ^ (-1075 : ℤ) := by
  have hnat : 2 ^ 1075 < 10 ^ 324 := by decide +kernel
  have hrat : (2 : ℚ) ^ 1075 < 10 ^ 324 := by exact_mod_cast hnat
  rw [zpow_neg, zpow_neg]
  exact inv_strictAnti₀ (by positivity) hrat

/-- A decimal that rounds to a value is not beyond the largest value. -/
lemma RoundsTo.places_le (hr : RoundsTo m e d.value) (h : Canonical m e) (hd : 0 < d.digits) :
    d.places ≤ hugePlaces := by
  have hlt : (10 : ℚ) ^ (d.places - 1) < 10 ^ (309 : ℤ) := by
    have hexponent := h.exponent_le
    calc (10 : ℚ) ^ (d.places - 1) ≤ d.value := places_le_value hd
      _ < 2 ^ (e + 53) := hr.lt_zpow h.mantissa_lt
      _ ≤ 2 ^ (1024 : ℤ) := zpow_le_zpow_right₀ (by norm_num) (by omega)
      _ < 10 ^ (309 : ℤ) := twoPow_lt_tenPow
  have hplaces := (zpow_lt_zpow_iff_right₀ (by norm_num)).mp hlt
  rw [hugePlaces]
  omega

/-- A decimal that rounds to a positive value is not below the smallest one. -/
lemma RoundsTo.le_places (hr : RoundsTo m e d.value) (h : Canonical m e) (hm : 0 < m) :
    tinyPlaces ≤ d.places := by
  have hlt : (10 : ℚ) ^ (-324 : ℤ) < 10 ^ d.places := by
    have hm' : (1 : ℚ) ≤ m := by exact_mod_cast hm
    have hexponent := h.minExponent_le
    rw [minExponent] at hexponent
    have hbelow := reachBelow_le m e
    have hscale : (2 : ℚ) ^ (-1074 : ℤ) ≤ 2 ^ e := zpow_le_zpow_right₀ (by norm_num) hexponent
    have hhalf : (2 : ℚ) ^ (-1075 : ℤ) = 1 / 2 * 2 ^ (-1074 : ℤ) := by
      rw [show (-1074 : ℤ) = -1075 + 1 by norm_num, zpow_add_one₀ two_ne_zero]
      ring
    calc (10 : ℚ) ^ (-324 : ℤ) < 2 ^ (-1075 : ℤ) := tenPow_lt_twoPow
      _ = 1 / 2 * 2 ^ (-1074 : ℤ) := hhalf
      _ ≤ 1 / 2 * 2 ^ e := by gcongr
      _ ≤ (m - reachBelow m e) * 2 ^ e := by
        gcongr
        linarith
      _ ≤ d.value := hr.low
      _ < 10 ^ d.places := value_lt_places d
  have hplaces := (zpow_lt_zpow_iff_right₀ (by norm_num)).mp hlt
  rw [tinyPlaces]
  omega

/-- **A decimal is read as the value that it rounds to.** -/
lemma Decimal.toFloat_of_roundsTo (h : Canonical m e) (hr : RoundsTo m e d.value) :
    d.toFloat = .ofBits (patternOf m e).toUInt64 := by
  have hzero : m = 0 → nearest 0 1 = .ofBits (patternOf m e).toUInt64 := by
    rintro rfl
    have he : e = minExponent := by
      by_contra hne
      have hfull := h.full (lt_of_le_of_ne h.minExponent_le (Ne.symm hne))
      omega
    rw [he]
    rfl
  unfold Decimal.toFloat
  have hplaces : d.exponent + digitCount d.digits = d.places := rfl
  simp only [hplaces]
  split
  · next hdigits =>
    apply hzero
    by_contra hm
    have hpos := hr.pos (Nat.pos_of_ne_zero hm)
    rw [Decimal.value, hdigits] at hpos
    simp at hpos
  · next hdigits =>
    have hd := Nat.pos_of_ne_zero hdigits
    rw [if_neg (not_lt.mpr (hr.places_le h hd))]
    split
    · next htiny =>
      apply hzero
      by_contra hm
      exact absurd (hr.le_places h (Nat.pos_of_ne_zero hm)) (not_le.mpr htiny)
    · have hn : 0 < d.digits * tenPow d.exponent.toNat := Nat.mul_pos hd (tenPow_pos _)
      rw [nearest, nearestPattern_of_roundsTo h hn (tenPow_pos _)]
      rwa [← value_eq_div]

end Reading

end LoxLang.Number
