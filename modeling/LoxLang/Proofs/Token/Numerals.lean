import LoxLang.Proofs.Number.Patterns
import LoxLang.Proofs.Number.Shortest
import LoxLang.Proofs.Token.Division

/-!
# Printed numbers scan back

A printed number is its own literal.  The language has no negative literals, so the text of a number
with its sign bit set is read as a minus and the literal of the opposite number; the bits of a
number come back either way, those of negative zero among them (`scan_valueText`).

There are two ways to write a number.  A small whole number is written by its own digits, and a
decimal without an exponent is what that comes to (`plain_whole`).  All other numbers are written by
their shortest digits.  Both are decimals that round to the number, and that is all that reading
needs (`Number.Decimal.toFloat_of_roundsTo`).  What is left is a matter of text: zeros filled in on
either side of the point change neither the number nor the fact that the text is one numeral
(`exists_numeral`).
-/

namespace LoxLang

open Number

/-! ## Digits -/

section Digits

lemma ofDigits_eq (cs : List Char) : ofDigits cs = Nat.ofDigitChars 10 cs 0 := rfl

lemma ofDigits_digitsOf (n : ℕ) : ofDigits (digitsOf n) = n := Nat.ofDigitChars_ten_toDigits

/-- Zeros behind digits are a power of ten. -/
lemma ofDigits_append_zeros (cs : List Char) (k : ℕ) :
    ofDigits (cs ++ List.replicate k '0') = ofDigits cs * 10 ^ k := by
  rw [ofDigits_eq, Nat.ofDigitChars_append, Nat.ofDigitChars_replicate_zero, ← ofDigits_eq,
    mul_comm]

/-- Zeros in front of digits are nothing. -/
lemma ofDigits_zeros_append (k : ℕ) (cs : List Char) :
    ofDigits (List.replicate k '0' ++ cs) = ofDigits cs := by
  rw [ofDigits_eq, Nat.ofDigitChars_append, Nat.ofDigitChars_replicate_zero, Nat.mul_zero,
    ← ofDigits_eq]

lemma isDigit_of_mem_digitsOf {n : ℕ} {c : Char} (h : c ∈ digitsOf n) : c.isDigit = true :=
  Nat.isDigit_of_mem_toDigits (by decide) (by decide) h

lemma isDigit_of_mem_zeros {k : ℕ} {c : Char} (h : c ∈ List.replicate k '0') :
    c.isDigit = true := by
  rw [(List.mem_replicate.mp h).2]
  rfl

lemma digitsOf_ne_nil (n : ℕ) : digitsOf n ≠ [] := Nat.toDigits_ne_nil

end Digits

/-! ## Numerals -/

/-- The number that digits before and behind a point write. -/
def writtenDecimal (whole places : List Char) : Decimal :=
  ⟨ofDigits (whole ++ places), -(places.length : ℤ)⟩

/-- **The text of a numeral**: digits, and a point with more digits if there are any. -/
def numeralText (whole places : List Char) : List Char :=
  if places = [] then whole else whole ++ '.' :: places

/-- **A decimal in positional notation is a numeral**, and it writes the same number. -/
lemma exists_numeral (d : Decimal) : ∃ whole places, whole ≠ [] ∧
    (∀ c ∈ whole ++ places, c.isDigit = true) ∧ d.plain = numeralText whole places ∧
      (writtenDecimal whole places).value = d.value := by
  have hdigits : ∀ c ∈ digitsOf d.digits, c.isDigit = true := fun c hc => isDigit_of_mem_digitsOf hc
  unfold Decimal.plain
  by_cases hwhole : (-d.exponent).toNat = 0
  · -- No place behind the point: zeros are filled in before it.
    refine ⟨digitsOf d.digits ++ List.replicate d.exponent.toNat '0', [], ?_, ?_, ?_, ?_⟩
    · exact fun h => digitsOf_ne_nil _ (List.append_eq_nil_iff.mp h).1
    · rw [List.append_nil, List.forall_mem_append]
      exact ⟨hdigits, fun c hc => isDigit_of_mem_zeros hc⟩
    · rw [if_pos hwhole, numeralText, if_pos rfl]
    · obtain ⟨k, hk⟩ : ∃ k : ℕ, d.exponent = k := ⟨d.exponent.toNat, by omega⟩
      rw [writtenDecimal, Decimal.value, Decimal.value, List.append_nil, ofDigits_append_zeros,
        ofDigits_digitsOf, hk]
      simp
  obtain ⟨k, hk⟩ : ∃ k : ℕ, d.exponent = -k := ⟨(-d.exponent).toNat, by omega⟩
  have hplaces : (-d.exponent).toNat = k := by omega
  have hpos : k ≠ 0 := by omega
  simp only [hplaces, if_neg hpos]
  by_cases hlt : k < (digitsOf d.digits).length
  · -- The point stands between the digits.
    have hlength : ((digitsOf d.digits).drop ((digitsOf d.digits).length - k)).length = k := by
      rw [List.length_drop]
      omega
    refine ⟨(digitsOf d.digits).take ((digitsOf d.digits).length - k),
      (digitsOf d.digits).drop ((digitsOf d.digits).length - k), ?_, ?_, ?_, ?_⟩
    · rw [← List.length_pos_iff, List.length_take]
      omega
    · rwa [List.take_append_drop]
    · have hne : (digitsOf d.digits).drop ((digitsOf d.digits).length - k) ≠ [] := by
        rw [← List.length_pos_iff]
        omega
      rw [if_pos hlt, numeralText, if_neg hne]
    · rw [writtenDecimal, Decimal.value, Decimal.value, List.take_append_drop, ofDigits_digitsOf,
        hlength, hk]
  · -- All digits stand behind the point, and zeros are filled in between.
    have hne : List.replicate (k - (digitsOf d.digits).length) '0' ++ digitsOf d.digits ≠ [] :=
      fun h => digitsOf_ne_nil _ (List.append_eq_nil_iff.mp h).2
    refine ⟨['0'], List.replicate (k - (digitsOf d.digits).length) '0' ++ digitsOf d.digits,
      List.cons_ne_nil _ _, ?_, ?_, ?_⟩
    · rw [List.forall_mem_append, List.forall_mem_append]
      exact ⟨List.forall_mem_singleton.mpr rfl, fun c hc => isDigit_of_mem_zeros hc, hdigits⟩
    · rw [if_neg hlt, numeralText, if_neg hne]
      rfl
    · have hzero : ofDigits (['0'] ++ (List.replicate (k - (digitsOf d.digits).length) '0' ++
          digitsOf d.digits)) = d.digits := by
        have hone : ['0'] = List.replicate 1 '0' := rfl
        rw [hone, ofDigits_zeros_append, ofDigits_zeros_append, ofDigits_digitsOf]
      rw [writtenDecimal, Decimal.value, Decimal.value, hzero, List.length_append,
        List.length_replicate, Nat.sub_add_cancel (not_lt.mp hlt), hk]

section Scan

variable {whole places : List Char}

/-- A numeral is one segment. -/
lemma segments_numeralText (hne : whole ≠ []) (hdigits : ∀ c ∈ whole ++ places, c.isDigit = true) :
    segments (numeralText whole places) = [⟨.number, numeralText whole places⟩] := by
  have hnumeral : ∀ c ∈ whole ++ places, IsNumeral c := fun c hc =>
    (isDigit_iff c).mp (hdigits c hc)
  have hend : EndsRun IsNumeral [] := by simp [EndsRun]
  have hstands : Segment.StandsBefore ⟨.number, numeralText whole places⟩ [] := by
    unfold numeralText
    split
    · next hplaces =>
      rw [hplaces, List.append_nil] at hnumeral
      exact .whole hne hnumeral hend fun _ h => by cases h
    · next hplaces => exact .fraction hne hplaces hnumeral hend
  have hdivided := Divided.cons hstands .nil
  rw [List.append_nil] at hdivided
  exact hdivided.eq_segments.symm

lemma literalValue_numeralText (hne : whole ≠ [])
    (hdigits : ∀ c ∈ whole ++ places, c.isDigit = true) :
    literalValue (numeralText whole places) = (writtenDecimal whole places).toFloat := by
  unfold numeralText
  split
  · next hplaces =>
    rw [hplaces, List.append_nil] at hdigits
    rw [hplaces]
    exact literalValue_whole hne hdigits
  · rw [List.forall_mem_append] at hdigits
    exact literalValue_fraction hne hdigits.1 hdigits.2

end Scan

/-! ## The text of a number -/

/-- The decimal that a magnitude is written as: its digits if it is a small whole number, and its
shortest digits otherwise. -/
def Number.Shape.printed (negative : Bool) (m : ℕ) (e : ℤ) : Decimal :=
  match (Shape.finite negative m e).smallWhole? with
  | some n => ⟨n, 0⟩
  | none => decimalOf .up m e

lemma plain_whole (n : ℕ) : (⟨n, 0⟩ : Decimal).plain = digitsOf n := by
  simp [Decimal.plain]

section Printed

variable {m : ℕ} {e : ℤ} {negative : Bool}

/-- What is written rounds to the number. -/
lemma roundsTo_printed (h : Canonical m e) :
    RoundsTo m e (Shape.printed negative m e).value := by
  unfold Shape.printed
  split
  · next n hsmall =>
    have hmagnitude : (Shape.finite negative m e).magnitude? = some n :=
      (Option.filter_eq_some_iff.mp hsmall).1
    have hvalue : (⟨n, 0⟩ : Decimal).value = (m : ℚ) * 2 ^ e := by
      rw [Decimal.value, zpow_zero, mul_one, magnitude?_eq_some_iff.mp hmagnitude]
    rw [hvalue]
    exact roundsTo_self m e
  · exact roundsTo_decimalOf h .up

lemma valueText_eq {x : Float} (hx : Shape.of x = .finite negative m e) :
    valueText x = String.ofList (signed negative (Shape.printed negative m e).plain) := by
  simp only [valueText, hx, Shape.printed]
  cases (Shape.finite negative m e).smallWhole? with
  | none => rfl
  | some n =>
    simp only [plain_whole]
    rfl

end Printed

/-- **A printed magnitude is one number token**, and its payload is the value of that magnitude. -/
lemma scan_printed {m : ℕ} {e : ℤ} (h : Canonical m e) (negative : Bool) :
    itemsFrom 1 (segments (Shape.printed negative m e).plain) =
      [.token ⟨.number (.ofBits (patternOf m e).toUInt64),
        String.ofList (Shape.printed negative m e).plain, 1⟩, .token ⟨.eof, "", 1⟩] := by
  obtain ⟨whole, places, hne, hdigits, hplain, hvalue⟩ :=
    exists_numeral (Shape.printed negative m e)
  have hrounds : RoundsTo m e (Shape.printed negative m e).value := roundsTo_printed h
  rw [← hvalue] at hrounds
  rw [hplain, segments_numeralText hne hdigits]
  simp only [itemsFrom, Segment.item?, Segment.linesPassed, Nat.add_zero,
    literalValue_numeralText hne hdigits, Decimal.toFloat_of_roundsTo h hrounds]

/-- **Printed numbers scan back.**  The text of a finite number is read as one number token with
the bits of the number, if its sign bit is clear.  If it is set, the text is a minus, and behind it
one number token with the bits of the opposite number.  There is no complaint either way, and
nothing but the end of the source behind it. -/
theorem scan_valueText (x : Float) (hx : x.isFinite = true) :
    (x.toBits.toNat < 2 ^ 63 → scan (valueText x) =
      [.token ⟨.number x, valueText x, 1⟩, .token ⟨.eof, "", 1⟩]) ∧
    (2 ^ 63 ≤ x.toBits.toNat → ∃ text, valueText x = "-" ++ text ∧ scan (valueText x) =
      [.token ⟨.mark .minus, "-", 1⟩, .token ⟨.number (-x), text, 1⟩,
        .token ⟨.eof, "", 1⟩]) := by
  obtain ⟨negative, m, e, hshape⟩ := exists_shape_of_isFinite hx
  have hcanonical := canonical_of_shape hshape
  have hscan := scan_printed hcanonical negative
  have hsign := signBit_toBits hshape
  rw [ofBits_patternOf_of_shape hshape] at hscan
  rw [valueText_eq hshape, scan, String.toList_ofList]
  constructor
  · intro hclear
    have hnegative : negative = false := by
      rw [← Bool.not_eq_true, ← hsign]
      omega
    subst hnegative
    exact hscan
  · intro hset
    have hnegative : negative = true := hsign.mp hset
    subst hnegative
    refine ⟨String.ofList (Shape.printed true m e).plain, ?_, ?_⟩
    · rw [← String.toList_inj]
      simp [signed]
    · have hminus : ∀ cs, nextSegment '-' cs = (⟨.mark .minus, ['-']⟩, cs) := fun cs => rfl
      rw [signed, if_pos rfl, segments_cons, hminus]
      simp only [itemsFrom, Segment.item?, Segment.linesPassed, Nat.add_zero]
      rw [hscan]
      rfl

/-- A tenth has no finite text in base two and a short one in base ten; zero has a sign. -/
theorem scan_valueText_tenth :
    scan "0.1" = [.token ⟨.number (.ofBits 0x3FB999999999999A), "0.1", 1⟩,
      .token ⟨.eof, "", 1⟩] ∧
    scan "-0" = [.token ⟨.mark .minus, "-", 1⟩, .token ⟨.number (.ofBits 0), "0", 1⟩,
      .token ⟨.eof, "", 1⟩] := by
  constructor
  · have htext : valueText (.ofBits 0x3FB999999999999A) = "0.1" := by decide +kernel
    have hscan := (scan_valueText (.ofBits 0x3FB999999999999A) (by decide +kernel)).1
      (by decide +kernel)
    rwa [htext] at hscan
  · have htext : valueText (.ofBits 0x8000000000000000) = "-" ++ "0" := by decide +kernel
    have hopposite : -Float.ofBits 0x8000000000000000 = .ofBits 0 := by decide +kernel
    obtain ⟨text, hsigned, hscan⟩ :=
      (scan_valueText (.ofBits 0x8000000000000000) (by decide +kernel)).2 (by decide +kernel)
    rw [hsigned, String.append_right_inj] at htext
    rwa [hsigned, htext, hopposite] at hscan

end LoxLang
