import Pagewright.Number.Text
import Pagewright.Proofs.Number.Decimals
import Pagewright.Proofs.Number.Fewest

/-!
# Where the point and the exponent go

A number is written by its shortest decimal `0.d₁d₂…dₖ · 10 ^ e`, and how it is written depends on
`k` and `e` alone (`Decimal.layout`). The text of a number is made in another way: which form it
takes is decided on the double itself, by comparison with `10²¹` and with the double nearest to
`10⁻⁶`, and a whole number below `10¹⁵` is written digit by digit without a search for its shortest
decimal. Here these are shown to be the same.

The comparisons agree since rounding keeps the order: a decimal below a power of ten rounds to the
double of that power at the most. It does not round to that double itself, for then the power of ten
would be shorter. And the digits of a whole number below `10¹⁵` are those of its shortest decimal,
because doubles of that size lie so close that only one whole number rounds to each.
-/

namespace Pagewright

/-! ## The layout -/

namespace Decimal

/-- **How a decimal `0.d₁d₂…dₖ · 10 ^ e` is written.** -/
def layout (d : Decimal) : List Char :=
  let k : Int := d.digits.length
  let e := d.point
  if k ≤ e ∧ e ≤ 21 then d.digits ++ List.replicate (e - k).toNat '0'
  else if 0 < e ∧ e ≤ 21 then d.digits.take e.toNat ++ '.' :: d.digits.drop e.toNat
  else if -6 < e ∧ e ≤ 0 then '0' :: '.' :: List.replicate (-e).toNat '0' ++ d.digits
  else
    let mantissa := d.digits.take 1 ++ if k = 1 then [] else '.' :: d.digits.drop 1
    let sign := if 0 ≤ e - 1 then '+' else '-'
    mantissa ++ 'e' :: sign :: Nat.toDigits 10 (e - 1).natAbs

theorem layout_eq_positional {d : Decimal} (hd : d.IsNormal) (hlow : -5 ≤ d.point)
    (hhigh : d.point ≤ 21) : d.layout = d.positional := by
  have hlength := hd.length_pos
  unfold layout positional
  dsimp only
  by_cases hpoint : d.point ≤ 0
  · rw [if_pos hpoint, if_neg (by omega), if_neg (by omega), if_pos (by omega)]
  · rw [if_neg hpoint]
    by_cases hwhole : d.digits.length ≤ d.point.toNat
    · have hzeros : (d.point - d.digits.length).toNat = d.point.toNat - d.digits.length := by omega
      rw [if_pos hwhole, if_pos (by omega), hzeros]
    · rw [if_neg hwhole, if_neg (by omega), if_pos (by omega)]

theorem layout_eq_scientific {d : Decimal} (hd : d.IsNormal)
    (h : d.point ≤ -6 ∨ 21 < d.point) : d.layout = d.scientific := by
  have hlength := hd.length_pos
  have hsignificand : d.significand =
      d.digits.take 1 ++ if (d.digits.length : Int) = 1 then [] else '.' :: d.digits.drop 1 := by
    obtain ⟨c, rest, hhead, -⟩ := hd.head
    unfold significand
    rw [hhead]
    cases rest with
    | nil => rfl
    | cons c' rest => rw [if_neg (by simp; omega)]; rfl
  unfold layout scientific exponent
  dsimp only
  rw [if_neg (by omega), if_neg (by omega), if_neg (by omega), ← hsignificand]
  by_cases hneg : d.point - 1 < 0
  · have habs : (d.point - 1).natAbs = (-(d.point - 1)).toNat := by omega
    rw [if_pos hneg, if_neg (by omega), habs]
  · have habs : (d.point - 1).natAbs = (d.point - 1).toNat := by omega
    rw [if_neg hneg, if_pos (by omega), habs]

end Decimal

/-! ## Doubles apart from each other -/

namespace Binary

theorem blt_iff (a b : Binary) : a.blt b = true ↔ a.value < b.value := by
  have ha : (0 : ℚ) < a.denominator := by exact_mod_cast a.denominator_pos
  have hb : (0 : ℚ) < b.denominator := by exact_mod_cast b.denominator_pos
  rw [blt, decide_eq_true_iff, a.value_eq_div, b.value_eq_div, div_lt_div_iff₀ ha hb]
  exact_mod_cast Iff.rfl

variable {b c : Binary}

/-- The interval of a double reaches down no further than to the doubles with a smaller exponent. -/
theorem upper_le_lower_of_exponent (hb : b.IsDouble) (hc : c.IsDouble) (hpos : 0 < c.mantissa)
    (h : b.exponent < c.exponent) : b.upper.value ≤ c.lower.value := by
  have hunit := two_zpow_pos b.exponent
  have hleast := hb.least
  have hnormal : 2 ^ 52 ≤ c.mantissa := hc.normal.resolve_right (by omega)
  have hmantissa : (b.mantissa : ℚ) + 1 ≤ 2 ^ 53 := by exact_mod_cast hb.lt
  -- a quarter below a power of two is what is left of the half
  have hquarters : (2 : ℚ) ^ 52 - 1 / 4 ≤ c.mantissa - c.lowerQuarters / 4 := by
    by_cases hpower : c.mantissa = 2 ^ 52
    · have hquarter : c.lowerQuarters = 1 := if_pos ⟨hpower, by omega⟩
      rw [hquarter, hpower]
      norm_num
    · have hmore : ((2 : ℚ) ^ 52) + 1 ≤ c.mantissa := by
        exact_mod_cast (by omega : 2 ^ 52 + 1 ≤ c.mantissa)
      have htwo : (c.lowerQuarters : ℚ) ≤ 2 := by exact_mod_cast c.lowerQuarters_le
      linarith
  have hdouble : 2 * (2 : ℚ) ^ b.exponent ≤ 2 ^ c.exponent := by
    have hstep : (2 : ℚ) ^ (b.exponent + (1 : ℕ)) ≤ 2 ^ c.exponent := two_zpow_le.mpr (by omega)
    rwa [two_zpow_add, pow_one] at hstep
  rw [b.upper_value, c.lower_value hpos]
  calc ((b.mantissa : ℚ) + 1 / 2) * 2 ^ b.exponent
      ≤ (2 ^ 52 - 1 / 4) * (2 * 2 ^ b.exponent) := by nlinarith
    _ ≤ (2 ^ 52 - 1 / 4) * 2 ^ c.exponent := mul_le_mul_of_nonneg_left hdouble (by norm_num)
    _ ≤ (c.mantissa - c.lowerQuarters / 4) * 2 ^ c.exponent :=
        mul_le_mul_of_nonneg_right hquarters (two_zpow_pos _).le

theorem upper_le_lower_of_mantissa (hpos : 0 < c.mantissa) (he : b.exponent = c.exponent)
    (h : b.mantissa < c.mantissa) : b.upper.value ≤ c.lower.value := by
  have hless : (b.mantissa : ℚ) + 1 ≤ c.mantissa := by exact_mod_cast h
  have htwo : (c.lowerQuarters : ℚ) ≤ 2 := by exact_mod_cast c.lowerQuarters_le
  rw [b.upper_value, c.lower_value hpos, he]
  exact mul_le_mul_of_nonneg_right (by linarith) (two_zpow_pos _).le

/-- **Doubles are equal, or their intervals have at most an end in common.** -/
theorem eq_or_apart (hb : b.IsDouble) (hc : c.IsDouble) (hbpos : 0 < b.mantissa)
    (hcpos : 0 < c.mantissa) :
    b = c ∨ b.upper.value ≤ c.lower.value ∨ c.upper.value ≤ b.lower.value := by
  obtain hlt | heq | hgt := lt_trichotomy b.exponent c.exponent
  · exact .inr (.inl (upper_le_lower_of_exponent hb hc hcpos hlt))
  · obtain hlt | hsame | hgt := lt_trichotomy b.mantissa c.mantissa
    · exact .inr (.inl (upper_le_lower_of_mantissa hcpos heq hlt))
    · cases b
      cases c
      cases heq
      cases hsame
      exact .inl rfl
    · exact .inr (.inr (upper_le_lower_of_mantissa hbpos heq.symm hgt))
  · exact .inr (.inr (upper_le_lower_of_exponent hc hb hbpos hgt))

end Binary

/-! ## The two limits -/

/-- A decimal rounds to one double only. -/
theorem eq_of_roundsTo {b c : Binary} {m : ℕ} {e : ℤ} (hb : b.IsDouble) (hc : c.IsDouble)
    (hbpos : 0 < b.mantissa) (hcpos : 0 < c.mantissa) (hq : RoundsTo (m * 10 ^ e) b)
    (hq' : RoundsTo (m * 10 ^ e) c) : b = c := by
  have hfloat := (ofScientific_eq hb hbpos hq).symm.trans (ofScientific_eq hc hcpos hq')
  have hdouble := congrArg Double.ofFloat hfloat
  rw [Double.ofFloat_toFloat false hb, Double.ofFloat_toFloat false hc] at hdouble
  exact (Double.finite.inj hdouble).2

/-- A power of ten, as a decimal. -/
def Decimal.power (p : ℤ) : Decimal :=
  ⟨['1'], p + 1⟩

theorem Decimal.isNormal_power (p : ℤ) : (power p).IsNormal :=
  ⟨List.forall_mem_singleton.mpr rfl, '1', [], rfl, by decide⟩

theorem Decimal.value_power (p : ℤ) : (power p).value = 10 ^ p := by
  show ((1 : ℕ) : ℚ) * 10 ^ (p + 1 - (1 : ℕ)) = 10 ^ p
  rw [Nat.cast_one, one_mul, Nat.cast_one, add_sub_cancel_right]

/-- A decimal of one digit below a power of ten is well below it. -/
theorem Decimal.IsNormal.value_le_of_length {d : Decimal} (hd : d.IsNormal)
    (hlength : d.digits.length ≤ 1) {p : ℤ} (hp : d.value < 10 ^ p) :
    10 * d.value ≤ 9 * 10 ^ p := by
  have hone : d.digits.length = 1 := le_antisymm hlength hd.length_pos
  have hlt := hd.lt_pow
  rw [hone] at hlt
  have hnine : (Nat.ofDigitChars 10 d.digits 0 : ℚ) ≤ 9 := by
    exact_mod_cast Nat.le_of_lt_succ hlt
  have hvalue : 10 * d.value = Nat.ofDigitChars 10 d.digits 0 * 10 ^ d.point := by
    rw [value, hone, Nat.cast_one, zpow_sub_one₀ (by norm_num)]
    ring
  rw [hvalue]
  exact mul_le_mul hnine (zpow_le_zpow_right₀ (by norm_num) (hd.point_le_iff.mpr hp))
    (ten_zpow_pos _).le (by norm_num)

/-- **A number is below the double nearest to a power of ten** exactly if its point says so. -/
theorem value_lt_iff_point_le {b c : Binary} {d : Decimal} {p : ℤ} (hb : b.IsDouble)
    (hpos : 0 < b.mantissa) (hc : c.IsDouble) (hnormal : 2 ^ 52 ≤ c.mantissa)
    (hp : RoundsTo (10 ^ p) c) (hd : d.IsShortest b) : b.value < c.value ↔ d.point ≤ p := by
  have hcpos : 0 < c.mantissa := by omega
  rw [hd.isNormal.point_le_iff]
  obtain ⟨hdlow, hdhigh⟩ := hd.roundsTo.bounds hpos
  obtain ⟨hplow, hphigh⟩ := hp.bounds hcpos
  rw [← b.lower_value hpos] at hdlow
  rw [← b.upper_value] at hdhigh
  rw [← c.lower_value hcpos] at hplow
  rw [← c.upper_value] at hphigh
  have hbounds := And.intro (Binary.lower_lt hpos) b.lt_upper
  have hbounds' := And.intro (Binary.lower_lt hcpos) c.lt_upper
  rcases Binary.eq_or_apart hb hc hpos hcpos with rfl | hapart | hapart
  · -- the power of ten has one digit, and no other decimal of one digit is so near to it
    refine iff_of_false (lt_irrefl _) fun hless => ?_
    have hfewest := hd.fewest (.power p) (Decimal.isNormal_power p) (by rwa [Decimal.value_power])
    have hfar := hd.isNormal.value_le_of_length hfewest hless
    have hhalf := hd.roundsTo.half_le hpos
    have hlarge : (10 : ℚ) ≤ b.mantissa := by exact_mod_cast le_trans (by decide) hnormal
    have hgap : 0 < ((b.mantissa : ℚ) - 19 / 2) * 2 ^ b.exponent :=
      mul_pos (by linarith) (two_zpow_pos _)
    rw [b.upper_value] at hphigh
    linarith
  · refine iff_of_true (by linarith) (lt_of_le_of_ne (by linarith) fun heq => ?_)
    have hone : (10 : ℚ) ^ p = (1 : ℕ) * 10 ^ p := by rw [Nat.cast_one, one_mul]
    have hrounds := hd.roundsTo
    rw [heq, hone] at hrounds
    rw [hone] at hp
    obtain rfl := eq_of_roundsTo hb hc hpos hcpos hrounds hp
    linarith
  · exact iff_of_false (by linarith) (by linarith)

namespace Binary

variable {b : Binary} {d : Decimal}

/-- The point of a number below `10²¹` is at most 21. -/
theorem blt_large_iff (hb : b.IsDouble) (hpos : 0 < b.mantissa) (hd : d.IsShortest b) :
    b.blt large = true ↔ d.point ≤ 21 := by
  have hlarge : large.value = 10 ^ (21 : ℤ) := by norm_num [large, value]
  have hpower : (ofBits53 (5 ^ 21) 21).value = 10 ^ (21 : ℤ) := by
    rw [ofBits53_value]
    norm_num
  have hnormal : 2 ^ 52 ≤ (ofBits53 (5 ^ 21) 21).mantissa := two_pow_le_ofBits53 (by decide)
  have hrounds : RoundsTo (10 ^ (21 : ℤ)) (ofBits53 (5 ^ 21) 21) := by
    rw [← hpower]
    exact roundsTo_value (by omega)
  rw [blt_iff, hlarge, ← hpower]
  exact value_lt_iff_point_le hb hpos
    (isDouble_ofBits53 (by decide) (by decide) (by decide) (by decide)) hnormal hrounds hd

theorem isDouble_small : small.IsDouble :=
  ⟨by decide, by decide, by decide, .inl (by decide)⟩

/-- The point of a number below the double nearest to `10⁻⁶` is at most -6. -/
theorem blt_small_iff (hb : b.IsDouble) (hpos : 0 < b.mantissa) (hd : d.IsShortest b) :
    b.blt small = true ↔ d.point ≤ -6 := by
  have hrounds : RoundsTo (10 ^ (-6 : ℤ)) small := by
    have hgrid := ((Grid.mk (-6)).rounds_iff 1 small).mp (by decide)
    rwa [Nat.cast_one, one_mul] at hgrid
  rw [blt_iff]
  exact value_lt_iff_point_le hb hpos isDouble_small (by decide) hrounds hd

end Binary

/-! ## Whole numbers -/

/-- A whole number is written with all its zeros. -/
theorem Decimal.positional_ofGrid {k : ℕ} (hk : 0 < k) (n : ℕ) :
    (ofGrid k n).positional = Nat.toDigits 10 (10 ^ n * k) := by
  obtain ⟨zeros, hzeros⟩ := exists_stripZeros_append (Nat.toDigits 10 k)
  have hpos := Nat.length_toDigits_pos (b := 10) (n := k)
  have hlength := congrArg List.length hzeros
  rw [List.length_append, List.length_replicate] at hlength
  have hpoint : ((n : ℤ) + (Nat.toDigits 10 k).length).toNat = n + (Nat.toDigits 10 k).length := by
    omega
  have hmore : n + (Nat.toDigits 10 k).length - (stripZeros (Nat.toDigits 10 k)).length =
      zeros + n := by
    omega
  show positional ⟨stripZeros (Nat.toDigits 10 k), n + (Nat.toDigits 10 k).length⟩ = _
  unfold positional
  dsimp only
  rw [if_neg (by omega), hpoint, if_pos (by omega), hmore, List.replicate_add, ← List.append_assoc,
    ← hzeros, toDigits_append_zeros hk]

namespace Binary

variable {b : Binary}

/-- The value of a whole number is its whole part. -/
theorem value_eq_whole (h : b.isWhole = true) : b.value = b.whole := by
  have hdenominator : (b.denominator : ℚ) ≠ 0 := by exact_mod_cast b.denominator_pos.ne'
  have hdvd : b.denominator ∣ b.numerator := Nat.dvd_of_mod_eq_zero (of_decide_eq_true h)
  rw [b.value_eq_div, div_eq_iff hdenominator]
  exact_mod_cast (Nat.div_mul_cancel hdvd).symm

/-- Below `10¹⁵` doubles lie closer than whole numbers. -/
theorem exponent_neg (hb : b.IsDouble) (h : b.blt exactWhole = true) : b.exponent < 0 := by
  by_contra hexponent
  have hnormal : ((2 : ℚ) ^ 52) ≤ b.mantissa := by
    exact_mod_cast hb.normal.resolve_right (by omega)
  have hunit : (1 : ℚ) ≤ 2 ^ b.exponent := one_le_zpow₀ (by norm_num) (by omega)
  have hle : (2 : ℚ) ^ 52 * 1 ≤ b.value := mul_le_mul hnormal hunit (by norm_num) (by linarith)
  have hlimit : exactWhole.value = 10 ^ 15 := by norm_num [exactWhole, value]
  rw [blt_iff, hlimit] at h
  linarith

/-- **Only one whole number rounds to a double below `10¹⁵`.** -/
theorem eq_whole_of_roundsTo (hb : b.IsDouble) (hpos : 0 < b.mantissa) (hwhole : b.isWhole = true)
    (hless : b.blt exactWhole = true) {n : ℕ} (h : RoundsTo n b) : n = b.whole := by
  have hvalue := value_eq_whole hwhole
  have hunit : (2 : ℚ) ^ b.exponent < 1 := by
    rw [← zpow_zero 2]
    exact two_zpow_lt.mpr (exponent_neg hb hless)
  have hlow := h.half_le hpos
  have hhigh := (h.bounds hpos).2
  rw [value] at hvalue
  have hle : (n : ℚ) < b.whole + 1 := by linarith
  have hge : (b.whole : ℚ) < n + 1 := by linarith
  have hle' : n < b.whole + 1 := by exact_mod_cast hle
  have hge' : b.whole < n + 1 := by exact_mod_cast hge
  omega

/-- **A whole number below `10¹⁵` is written by its own digits**, and so is its shortest decimal. -/
theorem toDigits_whole_eq (hb : b.IsDouble) (hpos : 0 < b.mantissa) (hwhole : b.isWhole = true)
    (hless : b.blt exactWhole = true) :
    Nat.toDigits 10 b.whole = (Decimal.shortest .up b).positional := by
  have hvalue := value_eq_whole hwhole
  have hwholepos : 0 < b.whole := by
    have hlt : 0 < b.value := mul_pos (by exact_mod_cast hpos) (two_zpow_pos _)
    rw [hvalue] at hlt
    exact_mod_cast hlt
  have hlength := Nat.length_toDigits_pos (b := 10) (n := b.whole)
  have hpoint : b.point = (Nat.toDigits 10 b.whole).length :=
    if_pos (Nat.div_pos_iff.mp hwholepos).2
  obtain ⟨n, k, -, -, hpick, hfirst, hshortest⟩ := shortest_eq_first hb hpos .up
  -- the grid of whole numbers has the number itself, so the search goes no further
  have hn : n ≤ (Nat.toDigits 10 b.whole).length := by
    by_contra hmore
    have hnone := hfirst _ hlength (not_le.mp hmore)
    have hself : RoundsTo (b.whole * 10 ^ (b.point - (Nat.toDigits 10 b.whole).length)) b := by
      rw [hpoint, sub_self, zpow_zero, mul_one, ← hvalue]
      exact roundsTo_value hpos
    obtain ⟨k', hk'⟩ := Grid.exists_pick_of_roundsTo
      (g := ⟨b.point - (Nat.toDigits 10 b.whole).length⟩) hpos hself .up
    rw [hnone] at hk'
    cases hk'
  have hrounds := Grid.roundsTo_of_pick _ _ hpick
  have hk := pos_of_roundsTo hb hpos hrounds
  have hscale : b.point - n = ((Nat.toDigits 10 b.whole).length - n : ℕ) := by omega
  rw [hscale] at hrounds hshortest
  have hwhole' : RoundsTo ((10 ^ ((Nat.toDigits 10 b.whole).length - n) * k : ℕ)) b := by
    rw [zpow_natCast, mul_comm] at hrounds
    exact_mod_cast hrounds
  rw [hshortest, Decimal.positional_ofGrid hk, eq_whole_of_roundsTo hb hpos hwhole hless hwhole']

end Binary

/-! ## The text of a number -/

/-- The text of a double behind its sign is its layout. -/
theorem Binary.text_eq_layout {b : Binary} (hb : b.IsDouble) (hpos : 0 < b.mantissa) :
    b.text = (Decimal.shortest .up b).layout := by
  have hd := Decimal.isShortest_shortest hb hpos
  have hlarge := blt_large_iff hb hpos hd
  have hsmall := blt_small_iff hb hpos hd
  unfold text
  by_cases hplain : b.blt large = true ∧ ¬ b.blt small = true
  · have hlayout := Decimal.layout_eq_positional hd.isNormal
      (by rw [hsmall] at hplain; omega) (hlarge.mp hplain.1)
    rw [if_neg (by simp [hplain])]
    split
    · next hfast =>
      obtain ⟨hwhole, hless⟩ := Bool.and_eq_true_iff.mp hfast
      rw [hlayout, toDigits_whole_eq hb hpos hwhole hless]
    · exact hlayout.symm
  · rw [if_pos (by simpa [imp_iff_not_or] using hplain)]
    refine (Decimal.layout_eq_scientific hd.isNormal ?_).symm
    rw [hlarge, hsmall] at hplain
    omega

/-- A finite number that is not zero has a mantissa that is not zero. -/
theorem mantissa_pos_of_ne_zero {x : Float} {negative : Bool} {b : Binary}
    (hx : Double.ofFloat x = .finite negative b) (hne : (x == 0) = false) : 0 < b.mantissa := by
  obtain ⟨hb, htoFloat⟩ := Double.toFloat_eq hx
  refine Nat.pos_of_ne_zero fun hzero => ?_
  have hexponent : b.exponent = -1074 := hb.normal.resolve_left (by rw [hzero]; decide)
  obtain rfl : b = ⟨0, -1074⟩ := by
    rw [← hzero, ← hexponent]
  have hself : ((Double.finite negative ⟨0, -1074⟩).toFloat == 0) = true := by
    cases negative <;> decide
  rw [htoFloat, hne] at hself
  cases hself

/-- **A number is laid out by its shortest decimal.** For every finite number that is not zero there
is exactly one shortest decimal, and the text of the number is the sign and the layout of that
decimal. The number is below `10²¹` exactly if the point of the decimal is at most 21, and it is not
below `10⁻⁶` exactly if the point is at least -5. If the number is whole and below `10¹⁵`, its own
digits are those that the decimal gives it. -/
theorem numberText_eq_layout (x : Float) (hfinite : x.isFinite = true) (hne : (x == 0) = false) :
    ∃ (negative : Bool) (b : Binary) (d : Decimal), Double.ofFloat x = .finite negative b ∧
      (∀ d' : Decimal, d'.IsShortest b ↔ d' = d) ∧
      numberText x = String.ofList (if negative then '-' :: d.layout else d.layout) ∧
      (b.blt .large = true ↔ d.point ≤ 21) ∧ (b.blt .small = false ↔ -5 ≤ d.point) ∧
      (b.isWhole = true → b.blt .exactWhole = true → Nat.toDigits 10 b.whole = d.positional) := by
  obtain ⟨negative, b, hx⟩ := exists_of_isFinite hfinite
  obtain ⟨hb, -⟩ := Double.toFloat_eq hx
  have hpos := mantissa_pos_of_ne_zero hx hne
  have hd := Decimal.isShortest_shortest hb hpos
  have hlarge := Binary.blt_large_iff hb hpos hd
  have hsmall := Binary.blt_small_iff hb hpos hd
  refine ⟨negative, b, .shortest .up b, hx, fun _ => Decimal.isShortest_iff hb hpos, ?_, hlarge,
    ?_, Binary.toDigits_whole_eq hb hpos⟩
  · unfold numberText Double.text
    rw [hx]
    dsimp only
    rw [if_neg hpos.ne', Binary.text_eq_layout hb hpos]
  · rw [← Bool.not_eq_true, hsmall]
    omega

/-- The number `10⁻⁶` is the least that is written without an exponent. -/
theorem numberText_eq_layout_millionth :
    Float.isFinite 0.000001 = true ∧ ((0.000001 : Float) == 0) = false ∧
      (Decimal.mk ['1'] (-5)).IsShortest .small ∧ numberText 0.000001 = "0.000001" := by
  have hfinite : Float.isFinite 0.000001 = true := by decide
  have hne : ((0.000001 : Float) == 0) = false := by decide
  have hsmall : Double.ofFloat 0.000001 = .finite false .small := by decide
  obtain ⟨negative, b, d, hx, hshortest, htext, -⟩ := numberText_eq_layout 0.000001 hfinite hne
  rw [hsmall] at hx
  cases hx
  have hone : (Decimal.mk ['1'] (-5)).IsShortest .small :=
    (Decimal.isShortest_iff Binary.isDouble_small (by decide)).mpr (by decide)
  obtain rfl := (hshortest _).mp hone
  refine ⟨hfinite, hne, hone, htext.trans ?_⟩
  decide

end Pagewright
