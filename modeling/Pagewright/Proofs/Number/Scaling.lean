import Pagewright.Proofs.Number.Layout

/-!
# Scaling by a power of ten

A whole number and a power of ten become doubles before they are multiplied, and their product is
rounded once more. What is said here about the three roundings is that they do not add up to a
number too large for a double (`mul_value_lt_limit`), where the exact product rounds to a double
that is not the largest.
-/

namespace Pagewright

/-! ## Doubles near to a number -/

section Bounds

variable {q : ℚ} {a c : Binary}

/-- A number that is not above a double does not round to one above it. -/
theorem RoundsTo.value_le (hq : RoundsTo q a) (ha : a.IsDouble) (hpos : 0 < a.mantissa)
    (hc : c.IsDouble) (hcpos : 0 < c.mantissa) (hle : q ≤ c.value) : a.value ≤ c.value := by
  obtain ⟨hlow, -⟩ := hq.bounds hpos
  rw [← a.lower_value hpos] at hlow
  rcases Binary.eq_or_apart ha hc hpos hcpos with rfl | hapart | hapart
  · exact le_rfl
  · linarith [a.lt_upper, Binary.lower_lt hcpos]
  · linarith [c.lt_upper]

theorem RoundsTo.normal (hq : RoundsTo q a) (ha : a.IsDouble) (hpos : 0 < a.mantissa)
    (hone : 1 ≤ q) : 2 ^ 52 ≤ a.mantissa := by
  refine ha.normal.resolve_right fun hleast => ?_
  have hlt := hq.lt_two_zpow ha hpos
  rw [hleast] at hlt
  have hsmall : (2 : ℚ) ^ (-1074 + 53 : ℤ) ≤ 2 ^ (0 : ℤ) := two_zpow_le.2 (by decide)
  rw [zpow_zero] at hsmall
  linarith

/-- **Rounding adds half a place at most**, and a double has `2 ^ 53` of them. -/
theorem RoundsTo.mul_value_le (hq : RoundsTo q a) (hnormal : 2 ^ 52 ≤ a.mantissa) :
    (2 ^ 53 - 1) * a.value ≤ 2 ^ 53 * q := by
  have hhalf := hq.half_le (by omega)
  have hmantissa : (2 : ℚ) ^ 52 ≤ a.mantissa := by exact_mod_cast hnormal
  have hunit := mul_le_mul_of_nonneg_right hmantissa (two_zpow_pos a.exponent).le
  unfold Binary.value
  linarith

end Bounds

/-- A number that is read as a decimal is the double it rounds to. -/
theorem ofFloat_ofScientific {m k : ℕ} {b : Binary} (hb : b.IsDouble) (hpos : 0 < b.mantissa)
    (hq : RoundsTo (m * 10 ^ (k : ℤ)) b) :
    Double.ofFloat (Float.ofScientific m false k) = .finite false b := by
  have hfloat : Float.ofScientific m false k = (Double.finite false b).toFloat :=
    ofScientific_eq hb hpos hq
  rw [hfloat, Double.ofFloat_toFloat false hb]

/-- A decimal with a point behind it has a double near to it, if it is not too large. -/
theorem exists_ofScientific {m k : ℕ} (hm : 0 < m)
    (hmost : (m : ℚ) * 10 ^ (k : ℤ) < roundingLimit) :
    ∃ b : Binary, b.IsDouble ∧ 2 ^ 52 ≤ b.mantissa ∧ RoundsTo (m * 10 ^ (k : ℤ)) b ∧
      Double.ofFloat (Float.ofScientific m false k) = .finite false b := by
  have hone : (1 : ℚ) ≤ m * 10 ^ (k : ℤ) := by
    rw [zpow_natCast]
    exact_mod_cast Nat.mul_pos hm (Nat.pow_pos (by decide))
  have hleast : (2 : ℚ) ^ (-1074 : ℤ) ≤ m * 10 ^ (k : ℤ) := by
    refine le_trans ?_ hone
    rw [← zpow_zero (2 : ℚ)]
    exact two_zpow_le.2 (by decide)
  obtain ⟨b, hb, hpos, hq⟩ := exists_roundsTo hleast hmost
  exact ⟨b, hb, hq.normal hb hpos hone, hq, ofFloat_ofScientific hb hpos hq⟩

theorem RoundsTo.le_two_mul {q : ℚ} {a : Binary} (hq : RoundsTo q a) (hpos : 0 < a.mantissa) :
    q ≤ 2 * a.value := by
  have hone : (1 : ℚ) ≤ a.mantissa := by exact_mod_cast hpos
  have hunit := two_zpow_pos a.exponent
  have hle := mul_le_mul_of_nonneg_right hone hunit.le
  have hhigh := (hq.bounds hpos).2
  unfold Binary.value
  linarith

theorem isInf_mul_eq_false {x y : Float} {a c : Binary} (hx : Double.ofFloat x = .finite false a)
    (hy : Double.ofFloat y = .finite false c) (ha : 2 ^ 52 ≤ a.mantissa) (hc : 0 < c.mantissa)
    (hleast : 2 ^ (-1074 : ℤ) ≤ a.value * c.value) (hmost : a.value * c.value < roundingLimit) :
    (x * y).isInf = false := by
  obtain ⟨b, hb, hpos, hq⟩ := exists_roundsTo hleast hmost
  rw [mul_eq_toFloat hx hy ha hc hb hpos hq]
  exact isInf_toFloat false hb

/-- The largest double. -/
def Binary.largest : Binary :=
  ⟨2 ^ 53 - 1, 971⟩

theorem Binary.isDouble_largest : largest.IsDouble :=
  ⟨by decide, by decide, by decide, .inl (by decide)⟩

theorem Binary.lower_largest : largest.lower.value = (2 ^ 53 - 3 / 2) * 2 ^ (971 : ℤ) := by
  rw [lower_value _ (by decide), show largest.lowerQuarters = 2 from rfl]
  show (((2 ^ 53 - 1 : ℕ) : ℚ) - ((2 : ℕ) : ℚ) / 4) * 2 ^ (971 : ℤ) = _
  norm_num

/-- A decimal that rounds to a double other than the largest is below the numbers that round to the
largest. -/
theorem RoundsTo.le_lower_largest {q : ℚ} {b : Binary} (hq : RoundsTo q b) (hb : b.IsDouble)
    (hpos : 0 < b.mantissa) (hne : b ≠ .largest) : q ≤ Binary.largest.lower.value := by
  obtain ⟨-, hhigh⟩ := hq.bounds hpos
  rw [← b.upper_value] at hhigh
  refine hhigh.trans ?_
  by_cases he : b.exponent = 971
  · refine Binary.upper_le_lower_of_mantissa (by decide) he ?_
    refine lt_of_le_of_ne (Nat.le_of_lt_succ hb.lt) fun hm => hne ?_
    cases b
    cases he
    cases hm
    rfl
  · exact Binary.upper_le_lower_of_exponent hb Binary.isDouble_largest (by decide)
      (lt_of_le_of_ne hb.most he)

section Products

variable {n k : ℕ} {q : ℚ} {a p : Binary}

theorem two_zpow_last : (2 : ℚ) ^ (971 : ℤ) = 2 ^ 971 :=
  zpow_natCast 2 971

theorem ten_pow_le_two_pow {c d i j : ℕ} (h : c * 10 ^ i ≤ d * 2 ^ j) :
    (c : ℚ) * 10 ^ i ≤ d * 2 ^ j := by
  exact_mod_cast h

theorem two_pow_lt_ten_pow {c d i j : ℕ} (h : c * 2 ^ i < d * 10 ^ j) :
    (c : ℚ) * 2 ^ i < d * 10 ^ j := by
  exact_mod_cast h

theorem RoundsTo.value_le_mul (hq : RoundsTo q a) (ha : a.IsDouble) (hapos : 2 ^ 52 ≤ a.mantissa)
    {m : ℕ} (e : ℕ) (hm : 0 < m) (hlt : m < 2 ^ 53) (he : e ≤ 971) (hle : q ≤ m * 2 ^ e) :
    a.value ≤ m * 2 ^ e := by
  have hpos : 0 < (Binary.ofBits53 m e).mantissa := Binary.ofBits53_pos hm
  have hdouble := Binary.isDouble_ofBits53 (e := e) hm hlt (by omega) (by omega)
  have hle' := hq.value_le ha (by omega) hdouble hpos
    (by rwa [Binary.ofBits53_value, zpow_natCast])
  rwa [Binary.ofBits53_value, zpow_natCast] at hle'

/-- Only the power of ten is rounded if the whole number is a double. -/
theorem mul_value_lt_of_lt (ha : a.IsDouble) (hapos : 2 ^ 52 ≤ a.mantissa) (hn : RoundsTo n a)
    (hp : (2 ^ 53 - 1) * p.value ≤ 2 ^ 53 * 10 ^ k) (hpos : 0 < n) (hlt : n < 2 ^ 53)
    (hvalue : (n : ℚ) * 10 ^ k ≤ Binary.largest.lower.value) :
    a.value * p.value < roundingLimit := by
  have hle := hn.value_le_mul ha hapos 0 hpos hlt (by decide) (by rw [pow_zero, mul_one])
  rw [pow_zero, mul_one] at hle
  have hproduct := mul_le_mul_of_nonneg_right hle p.value_nonneg
  have hscaled := mul_le_mul_of_nonneg_left hp (Nat.cast_nonneg n)
  have hunit := two_zpow_pos 971
  rw [Binary.lower_largest] at hvalue
  unfold roundingLimit
  generalize (2 : ℚ) ^ (971 : ℤ) = unit at hvalue hunit ⊢
  linarith

/-- There is room enough for both roundings up to the power `10 ^ 291`. -/
theorem mul_value_lt_of_le (ha : a.IsDouble) (hapos : 2 ^ 52 ≤ a.mantissa) (hn : RoundsTo n a)
    (hp : (2 ^ 53 - 1) * p.value ≤ 2 ^ 53 * 10 ^ k) (hlt : n < 10 ^ 17) (hk : k ≤ 291) :
    a.value * p.value < roundingLimit := by
  have hle := hn.value_le_mul ha hapos (m := 5 ^ 17) 17 (by decide) (by decide) (by decide)
    (by exact_mod_cast hlt.le)
  have hproduct := mul_le_mul_of_nonneg_right hle p.value_nonneg
  have hpower : (10 : ℚ) ^ k ≤ 10 ^ 291 := pow_le_pow_right₀ (by norm_num) hk
  have hroom := ten_pow_le_two_pow (c := 199) (d := 10) (i := 291) (j := 971) (by decide +kernel)
  have hunit : (0 : ℚ) < 2 ^ 971 := pow_pos (by norm_num) _
  rw [roundingLimit, two_zpow_last]
  generalize (2 : ℚ) ^ 971 = unit at hroom hunit ⊢
  generalize (10 : ℚ) ^ 291 = power at hroom hpower
  push_cast at hproduct hroom
  linarith

/-- There is room enough for both roundings at `10 ^ 292`, although the double taken for it lies
above it. -/
theorem mul_value_lt_of_eq (ha : a.IsDouble) (hapos : 2 ^ 52 ≤ a.mantissa) (hn : RoundsTo n a)
    (hp : p.IsDouble) (hppos : 2 ^ 52 ≤ p.mantissa) (hk : RoundsTo (10 ^ 292) p)
    (hvalue : (n : ℚ) * 10 ^ 292 ≤ Binary.largest.lower.value) :
    a.value * p.value < roundingLimit := by
  have hpower := ten_pow_le_two_pow (c := 1) (d := 4512985939662074) (i := 292) (j := 918)
    (by decide +kernel)
  rw [Nat.cast_one, one_mul] at hpower
  have hple := hk.value_le_mul hp hppos 918 (by decide) (by decide) (by decide) hpower
  have hnle : n ≤ 8988465674311578 * 2 ^ 1 := by
    by_contra hlarge
    have hless := two_pow_lt_ten_pow (c := 2 ^ 54 - 3) (d := 2 * 17976931348623157) (i := 971)
      (j := 292) (by decide +kernel)
    have hmore : (17976931348623157 : ℚ) ≤ n := by exact_mod_cast Nat.lt_of_not_le hlarge
    have hmul := mul_le_mul_of_nonneg_right hmore (pow_nonneg (by norm_num : (0 : ℚ) ≤ 10) 292)
    rw [Binary.lower_largest, two_zpow_last] at hvalue
    generalize (2 : ℚ) ^ 971 = unit at hvalue hless
    generalize (10 : ℚ) ^ 292 = power at hvalue hmul hless
    norm_num at hless
    linarith
  have hle := hn.value_le_mul ha hapos (m := 8988465674311578) 1 (by decide) (by decide) (by decide)
    (by exact_mod_cast hnle)
  have hproduct := mul_le_mul hle hple p.value_nonneg (by norm_num)
  rw [roundingLimit, two_zpow_last, show 971 = 53 + 918 from rfl, pow_add]
  have hpos : (0 : ℚ) < 2 ^ 918 := pow_pos (by norm_num) _
  generalize (2 : ℚ) ^ 918 = unit at hproduct hpos ⊢
  push_cast at hproduct
  linarith

/-- **The product of a whole number and a power of ten** that were both rounded is no larger than
can be rounded to a double, if the exact product rounds to a double that is not the largest. -/
theorem mul_value_lt_limit (ha : a.IsDouble) (hapos : 2 ^ 52 ≤ a.mantissa) (hn : RoundsTo n a)
    (hp : p.IsDouble) (hppos : 2 ^ 52 ≤ p.mantissa) (hk : RoundsTo (10 ^ k) p) (hpos : 0 < n)
    (hlt : n < 10 ^ 17) (hvalue : (n : ℚ) * 10 ^ k ≤ Binary.largest.lower.value) :
    a.value * p.value < roundingLimit := by
  have hpower := hk.mul_value_le hppos
  obtain hsmall | hlarge := Nat.lt_or_ge n (2 ^ 53)
  · exact mul_value_lt_of_lt ha hapos hn hpower hpos hsmall hvalue
  obtain hless | heq | hmore := lt_trichotomy k 292
  · exact mul_value_lt_of_le ha hapos hn hpower hlt (by omega)
  · subst heq
    exact mul_value_lt_of_eq ha hapos hn hp hppos hk hvalue
  · -- the number would be larger than any double
    have hleast := two_pow_lt_ten_pow (c := 1) (d := 1) (i := 971) (j := 293) (by decide +kernel)
    have hten : (10 : ℚ) ^ 293 ≤ 10 ^ k := pow_le_pow_right₀ (by norm_num) hmore
    have hn' : ((2 : ℚ) ^ 53) ≤ n := by exact_mod_cast hlarge
    have hmul := mul_le_mul hn' hten (by positivity) (Nat.cast_nonneg n)
    rw [Binary.lower_largest, two_zpow_last] at hvalue
    have hunit : (0 : ℚ) < 2 ^ 971 := pow_pos (by norm_num) _
    generalize (2 : ℚ) ^ 971 = unit at hvalue hleast hunit
    generalize (10 : ℚ) ^ 293 = power at hmul hleast hten
    push_cast at hleast
    linarith

end Products

end Pagewright
