import Pagewright.Proofs.Number.Rounding

/-!
# Reading a decimal

A decimal is read as a product with a power of ten or a quotient by one, rounded once. So it gives
the double in whose rounding interval the decimal lies, the short way and the long way.
-/

namespace Pagewright

open Float.Model Float.Model.UnpackedFloat

/-! ## Whole numbers and powers of ten as doubles -/

/-- The number `m · 2 ^ e` with a mantissa of 53 bits, for an `m` of at most as many. -/
def Binary.ofBits53 (m : ℕ) (e : ℤ) : Binary :=
  ⟨m * 2 ^ (52 - m.log2), e - (52 - m.log2 : ℕ)⟩

section Normal

variable {m : ℕ} {e : ℤ}

theorem Binary.ofBits53_value : (ofBits53 m e).value = m * 2 ^ e := by
  have hunit : (2 : ℚ) ^ (e - (52 - m.log2 : ℕ) + (52 - m.log2 : ℕ)) = 2 ^ e := by
    rw [sub_add_cancel]
  unfold value ofBits53
  rw [← hunit, two_zpow_add]
  push_cast
  ring

theorem Binary.two_pow_le_ofBits53 (hm : 0 < m) : 2 ^ 52 ≤ (ofBits53 m e).mantissa := by
  have hlow := Nat.log2_self_le hm.ne'
  calc 2 ^ 52 ≤ 2 ^ (m.log2 + (52 - m.log2)) := Nat.pow_le_pow_right (by decide) (by omega)
    _ = 2 ^ m.log2 * 2 ^ (52 - m.log2) := pow_add _ _ _
    _ ≤ m * 2 ^ (52 - m.log2) := Nat.mul_le_mul_right _ hlow

theorem Binary.ofBits53_pos (hm : 0 < m) : 0 < (ofBits53 m e).mantissa :=
  (by decide : 0 < 2 ^ 52).trans_le (two_pow_le_ofBits53 hm)

/-- A power of ten has the bits of a power of five. -/
theorem Binary.ofBits53_five_value (k : ℕ) : (ofBits53 (5 ^ k) k).value = 10 ^ k := by
  rw [ofBits53_value, zpow_natCast]
  push_cast
  rw [← mul_pow]
  norm_num

theorem Binary.isDouble_ofBits53 (hm : 0 < m) (hlt : m < 2 ^ 53) (hleast : -1000 ≤ e)
    (hmost : e ≤ 971) : (ofBits53 m e).IsDouble := by
  have hlog : m.log2 < 53 := (Nat.log2_lt hm.ne').2 hlt
  refine ⟨?_, ?_, ?_, .inl (two_pow_le_ofBits53 hm)⟩
  · calc m * 2 ^ (52 - m.log2) < 2 ^ (m.log2 + 1) * 2 ^ (52 - m.log2) :=
          Nat.mul_lt_mul_of_pos_right Nat.lt_log2_self (by positivity)
      _ = 2 ^ 53 := by rw [← pow_add]; congr 1; omega
  · show -1074 ≤ e - (52 - m.log2 : ℕ)
    omega
  · show e - (52 - m.log2 : ℕ) ≤ 971
    omega

end Normal

theorem ofNat_eq_unpacked {m : ℕ} (hm : 0 < m) (hlt : m < 2 ^ 53) :
    UnpackedFloat.ofNat Format.binary64 m = (Double.finite false (.ofBits53 m 0)).unpacked := by
  have hbits : 2 ^ 52 ≤ (Binary.ofBits53 m 0).mantissa := Binary.two_pow_le_ofBits53 hm
  have hpos : 0 < (Binary.ofBits53 m 0).mantissa := by omega
  have hlog : m.log2 < 53 := (Nat.log2_lt hm.ne').2 hlt
  have hcompare : compare (m : ℤ) 0 = .gt := Int.compare_eq_gt.2 (by omega)
  rw [Double.unpacked_of_pos _ hpos]
  unfold UnpackedFloat.ofNat UnpackedFloat.ofInt UnpackedFloat.normalize
  rw [hcompare]
  unfold UnpackedFloat.round decreaseExponent
  dsimp only
  rw [Int.toNat_natCast, targetExponent_eq]
  rw [show (0 - max ((m.log2 : ℤ) + 0 - 52) (-1074)).toNat = 52 - m.log2 by omega,
    Nat.shiftLeft_eq]
  have hvalue : (Binary.ofBits53 m 0).value = m := by rw [Binary.ofBits53_value, zpow_zero, mul_one]
  have hq := Binary.roundsTo_value hpos
  rw [hvalue] at hq
  refine roundWithAccuracy_eq (Binary.isDouble_ofBits53 hm hlt (by decide) (by decide)) hpos hq _
    ?_ ?_
  · show (m : ℚ) / 2 ^ (Binary.ofBits53 m 0).exponent = ((Binary.ofBits53 m 0).mantissa : ℚ)
    rw [div_eq_iff (two_zpow_pos _).ne']
    exact hvalue.symm
  · have hlog' : 52 ≤ (m * 2 ^ (52 - m.log2)).log2 := (Nat.le_log2 hpos.ne').2 hbits
    rw [targetExponent_eq]
    omega

theorem ofFloat_powerOfTen (e : Fin Float.exactlyRepresentablePowersOfTen.size) :
    Double.ofFloat Float.exactlyRepresentablePowersOfTen[e] =
      .finite false (.ofBits53 (5 ^ e.val) e.val) := by
  revert e
  decide

/-! ## Reading a decimal -/

section Decimal

variable {b : Binary} {m : ℕ} {e : ℤ}

/-- A decimal that rounds to a double is neither too large nor too small to be computed. -/
theorem exponent_bounds (hb : b.IsDouble) (hpos : 0 < b.mantissa)
    (hq : RoundsTo (m * 10 ^ e) b) : e ≤ 2 ^ 11 ∧ -(2 ^ 11 + m.log2) ≤ e := by
  have hm := pos_of_roundsTo hb hpos hq
  have hone : (1 : ℚ) ≤ m := by exact_mod_cast hm
  constructor
  · by_contra hlarge
    have hten : (2 : ℚ) ^ e ≤ 10 ^ e := zpow_le_zpow_left₀ (by omega) (by norm_num) (by norm_num)
    have hle : (2 : ℚ) ^ e ≤ m * 10 ^ e :=
      hten.trans (le_mul_of_one_le_left (zpow_nonneg (by norm_num) e) hone)
    have := two_zpow_lt.1 (hle.trans_lt (hq.lt_two_zpow hb hpos))
    have hmost := hb.most
    omega
  · by_contra hsmall
    obtain ⟨n, rfl⟩ : ∃ n : ℕ, e = -n := ⟨(-e).toNat, by omega⟩
    have hten : (10 : ℚ) ^ (-n : ℤ) ≤ 2 ^ (-n : ℤ) := by
      rw [zpow_neg, zpow_neg, zpow_natCast, zpow_natCast]
      exact inv_anti₀ (by positivity) (pow_le_pow_left₀ (by norm_num) (by norm_num) n)
    have hlog : (m : ℚ) < 2 ^ ((m.log2 + 1 : ℕ) : ℤ) := by
      rw [zpow_natCast]
      exact_mod_cast Nat.lt_log2_self
    have hlt : (2 : ℚ) ^ (-1075 : ℤ) < 2 ^ ((m.log2 + 1 : ℕ) + (-n : ℤ)) := by
      refine lt_of_le_of_lt (hq.least_le hb hpos) ?_
      rw [zpow_add₀ (by norm_num)]
      calc (m : ℚ) * 10 ^ (-n : ℤ) ≤ m * 2 ^ (-n : ℤ) :=
          mul_le_mul_of_nonneg_left hten (by linarith)
        _ < _ := mul_lt_mul_of_pos_right hlog (two_zpow_pos _)
    have := two_zpow_lt.1 hlt
    omega

theorem model_ofScientific_eq (hb : b.IsDouble) (hpos : 0 < b.mantissa)
    (hq : RoundsTo (m * 10 ^ e) b) :
    UnpackedFloat.ofScientific Format.binary64 m e =
      .finite .positive b.mantissa b.exponent hpos := by
  have hm := pos_of_roundsTo hb hpos hq
  obtain ⟨hmost, hleast⟩ := exponent_bounds hb hpos hq
  unfold UnpackedFloat.ofScientific
  rw [dif_neg hm.ne', if_neg (not_lt.2 hmost), if_neg (not_lt.2 hleast)]
  by_cases he : 0 ≤ e
  · obtain ⟨n, rfl⟩ := Int.eq_ofNat_of_zero_le he
    rw [if_pos he]
    refine mul_eq_of_roundsTo hb hpos hq _ _ ?_ ?_
    · rw [Nat.shiftLeft_eq, Int.toNat_natCast, zpow_natCast]
      show (m : ℚ) * 10 ^ n = (m * 2 ^ 53 : ℕ) * 2 ^ (-53 : ℤ) * ((10 ^ n : ℕ) * 2 ^ (0 : ℤ))
      rw [zpow_neg, zpow_zero]
      push_cast
      field_simp
    · rw [Nat.shiftLeft_eq]
      calc 2 ^ 52 ≤ 1 * 2 ^ 53 * 1 := by decide
        _ ≤ m * 2 ^ 53 * 10 ^ (n : ℤ).toNat :=
          Nat.mul_le_mul (Nat.mul_le_mul_right _ hm) (Nat.pow_pos (by decide))
  · obtain ⟨n, rfl⟩ : ∃ n : ℕ, e = -n := ⟨(-e).toNat, by omega⟩
    rw [if_neg he]
    refine div_eq_of_roundsTo hb hpos hq _ _ ?_
    rw [neg_neg, Int.toNat_natCast, zpow_neg, zpow_natCast, zpow_zero, mul_one, mul_one,
      div_eq_mul_inv]
    push_cast
    rfl

theorem toFloat_toUInt64 (hm : 0 < m) (hlt : m < 2 ^ 53) :
    m.toUInt64.toFloat = (Double.finite false (.ofBits53 m 0)).toFloat := by
  have hsame : m.toUInt64.toNat = m := by
    rw [Nat.toUInt64_eq, UInt64.toNat_ofNat']
    omega
  show Float.ofModel (Float.Model.pack (UnpackedFloat.ofNat Format.binary64 m.toUInt64.toNat)) = _
  rw [hsame, ofNat_eq_unpacked hm hlt]
  rfl

/-- The short way of reading a decimal: both its parts are doubles. -/
theorem ofScientific_of_small (hb : b.IsDouble) (hpos : 0 < b.mantissa)
    (hq : RoundsTo (m * 10 ^ e) b) (hlt : m < 2 ^ 53) (he : e.natAbs ≤ 22) :
    Float.ofScientific m (e < 0) e.natAbs = (Double.finite false b).toFloat := by
  have hm := pos_of_roundsTo hb hpos hq
  have hfive : 0 < 5 ^ e.natAbs := Nat.pow_pos (by decide)
  have hdouble := Binary.isDouble_ofBits53 (e := 0) hm hlt (by decide) (by decide)
  have hx : Double.ofFloat m.toUInt64.toFloat = .finite false (.ofBits53 m 0) := by
    rw [toFloat_toUInt64 hm hlt, Double.ofFloat_toFloat false hdouble]
  have hy := ofFloat_powerOfTen ⟨e.natAbs, Nat.lt_succ_of_le he⟩
  have hbits : 2 ^ 52 ≤ (Binary.ofBits53 m 0).mantissa := Binary.two_pow_le_ofBits53 hm
  have hpower : 0 < (Binary.ofBits53 (5 ^ e.natAbs) e.natAbs).mantissa := Binary.ofBits53_pos hfive
  have hone : (Binary.ofBits53 m 0).value = m := by rw [Binary.ofBits53_value, zpow_zero, mul_one]
  have hten := Binary.ofBits53_five_value e.natAbs
  unfold Float.ofScientific
  rw [dif_pos ⟨hlt, he⟩]
  by_cases hneg : e < 0
  · rw [if_pos (decide_eq_true hneg)]
    refine div_eq_toFloat hx hy (by omega) hpower hb hpos ?_
    have hexponent : e = -(e.natAbs : ℤ) := by omega
    rw [hexponent, zpow_neg, zpow_natCast, ← div_eq_mul_inv] at hq
    show RoundsTo (_ / (Binary.ofBits53 (5 ^ e.natAbs) e.natAbs).value) b
    rw [hone, hten]
    exact hq
  · rw [if_neg (by simpa using hneg)]
    refine mul_eq_toFloat hx hy hbits hpower hb hpos ?_
    have hexponent : e = (e.natAbs : ℤ) := by omega
    rw [hexponent, zpow_natCast] at hq
    show RoundsTo (_ * (Binary.ofBits53 (5 ^ e.natAbs) e.natAbs).value) b
    rw [hone, hten]
    exact hq

/-- **Reading a decimal gives the double in whose interval it lies.** -/
theorem ofScientific_eq (hb : b.IsDouble) (hpos : 0 < b.mantissa)
    (hq : RoundsTo (m * 10 ^ e) b) :
    Float.ofScientific m (e < 0) e.natAbs = (Double.finite false b).toFloat := by
  by_cases hfast : m < 2 ^ 53 ∧ e.natAbs ≤ 22
  · exact ofScientific_of_small hb hpos hq hfast.1 hfast.2
  · unfold Float.ofScientific Double.toFloat
    rw [dif_neg hfast, Double.unpacked_of_pos _ hpos]
    have hexponent : (if (decide (e < 0)) = true then Int.negOfNat e.natAbs
        else Int.ofNat e.natAbs) = e := by
      by_cases hneg : e < 0
      · rw [if_pos (decide_eq_true hneg), Int.negOfNat_eq]
        show -(e.natAbs : ℤ) = e
        omega
      · rw [if_neg (by simpa using hneg)]
        show (e.natAbs : ℤ) = e
        omega
    dsimp only
    rw [hexponent]
    exact congrArg (fun u => Float.ofModel (Float.Model.pack u)) (model_ofScientific_eq hb hpos hq)

end Decimal

end Pagewright
