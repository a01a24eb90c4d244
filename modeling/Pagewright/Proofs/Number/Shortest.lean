import Pagewright.Proofs.Number.Rounding

/-!
# The shortest decimal reads back

The search for the shortest decimal ends at a decimal that lies in the rounding interval of the
double: the two grid points next to the double are tried with ever finer grids, and seventeen
digits are always fine enough. So the decimal rounds to the double it was made of.
-/

namespace Pagewright

theorem ten_zpow_pos (e : ℤ) : (0 : ℚ) < 10 ^ e :=
  zpow_pos (by norm_num) e

/-- A power with an exponent of any sign, as a fraction of whole numbers. -/
theorem zpow_eq_div (n : ℕ) (hn : n ≠ 0) (e : ℤ) :
    (n : ℚ) ^ e = (Nat.pow n e.toNat : ℕ) / (Nat.pow n (-e).toNat : ℕ) := by
  have hn' : (n : ℚ) ≠ 0 := by exact_mod_cast hn
  show _ = ((n ^ e.toNat : ℕ) : ℚ) / (n ^ (-e).toNat : ℕ)
  push_cast
  rw [← zpow_natCast, ← zpow_natCast, ← zpow_sub₀ hn']
  congr 1
  omega

theorem Binary.denominator_pos (b : Binary) : 0 < b.denominator :=
  Nat.pow_pos (by decide)

theorem Binary.value_eq_div (b : Binary) : b.value = b.numerator / b.denominator := by
  unfold value numerator denominator
  rw [show (2 : ℚ) = ((2 : ℕ) : ℚ) from rfl, zpow_eq_div 2 (by decide)]
  push_cast
  ring

namespace Grid

variable (g : Grid) (k : ℕ) (b : Binary)

theorem perUnit_pos : 0 < g.perUnit :=
  Nat.pow_pos (by decide)

theorem scale_eq_div : (10 : ℚ) ^ g.scale = g.step / g.perUnit := by
  rw [show (10 : ℚ) = ((10 : ℕ) : ℚ) from rfl, zpow_eq_div 10 (by decide)]
  rfl

/-- Grid points and values are compared exactly. -/
theorem compare_eq_lt : g.compare k b = .lt ↔ (k : ℚ) * 10 ^ g.scale < b.value := by
  have hperUnit : (0 : ℚ) < g.perUnit := by exact_mod_cast g.perUnit_pos
  have hdenominator : (0 : ℚ) < b.denominator := by exact_mod_cast b.denominator_pos
  rw [g.scale_eq_div, b.value_eq_div, ← mul_div_assoc, div_lt_div_iff₀ hperUnit hdenominator]
  refine Nat.compare_eq_lt.trans ?_
  exact_mod_cast Iff.rfl

theorem compare_eq_gt : g.compare k b = .gt ↔ b.value < (k : ℚ) * 10 ^ g.scale := by
  have hperUnit : (0 : ℚ) < g.perUnit := by exact_mod_cast g.perUnit_pos
  have hdenominator : (0 : ℚ) < b.denominator := by exact_mod_cast b.denominator_pos
  rw [g.scale_eq_div, b.value_eq_div, ← mul_div_assoc, div_lt_div_iff₀ hdenominator hperUnit]
  refine Nat.compare_eq_gt.trans ?_
  exact_mod_cast Iff.rfl

/-- **The test for a grid point** is whether it rounds to the value. -/
theorem rounds_iff : g.rounds k b = true ↔ RoundsTo (k * 10 ^ g.scale) b := by
  unfold rounds RoundsTo
  split
  · rw [Bool.and_eq_true, ← not_lt, ← not_lt, ← g.compare_eq_lt, ← g.compare_eq_gt,
      Ordering.isGE_iff_ne_lt, Ordering.isLE_iff_ne_gt]
  · rw [Bool.and_eq_true, ← g.compare_eq_gt, ← g.compare_eq_lt, Ordering.isGT_iff_eq_gt,
      Ordering.isLT_iff_eq_lt]

theorem step_mul_pos : 0 < g.step * b.denominator :=
  Nat.mul_pos (Nat.pow_pos (by decide)) b.denominator_pos

theorem below_le : (g.below b : ℚ) * 10 ^ g.scale ≤ b.value := by
  rw [← not_lt, ← g.compare_eq_gt, Grid.compare, Nat.compare_eq_gt, Nat.mul_assoc]
  exact Nat.not_lt.2 (Nat.div_mul_le_self _ _)

theorem lt_below_succ : b.value < ((g.below b + 1 : ℕ) : ℚ) * 10 ^ g.scale := by
  rw [← g.compare_eq_gt, Grid.compare, Nat.compare_eq_gt, Nat.mul_assoc, Nat.mul_comm (_ + 1)]
  exact Nat.lt_mul_div_succ _ (g.step_mul_pos b)

theorem nearer_eq (tie : Tie) : g.nearer tie k b = k ∨ g.nearer tie k b = k + 1 := by
  unfold nearer
  split
  · exact .inr rfl
  · exact .inl rfl
  · cases tie with
    | up => exact .inr rfl
    | toEven =>
      show (if _ then _ else _) = k ∨ (if _ then _ else _) = k + 1
      split
      · exact .inl rfl
      · exact .inr rfl

/-- **What is picked rounds to the value.** -/
theorem roundsTo_of_pick {tie : Tie} {k : ℕ} (h : g.pick tie b = some k) :
    RoundsTo (k * 10 ^ g.scale) b := by
  rw [← rounds_iff]
  unfold pick at h
  cases hlow : g.rounds (g.below b) b <;> cases hhigh : g.rounds (g.below b + 1) b <;>
    simp only [hlow, hhigh] at h
  · cases h
  · cases h
    exact hhigh
  · cases h
    exact hlow
  · obtain hk | hk := g.nearer_eq (g.below b) b tie
    · cases h
      rw [hk]
      exact hlow
    · cases h
      rw [hk]
      exact hhigh

theorem exists_pick (tie : Tie) (h : RoundsTo (g.below b * 10 ^ g.scale) b ∨
    RoundsTo ((g.below b + 1 : ℕ) * 10 ^ g.scale) b) : ∃ k, g.pick tie b = some k := by
  rw [← rounds_iff, ← rounds_iff] at h
  unfold pick
  cases hlow : g.rounds (g.below b) b <;> cases hhigh : g.rounds (g.below b + 1) b
  · simp [hlow, hhigh] at h
  all_goals
    simp only [hlow, hhigh]
    exact ⟨_, rfl⟩

end Grid

/-! ## The place of the point -/

theorem pow_length_toDigits_le {n : ℕ} (hn : 0 < n) :
    10 ^ ((Nat.toDigits 10 n).length - 1) ≤ n := by
  by_contra hlt
  obtain hone | hmore := Nat.eq_or_lt_of_le (Nat.length_toDigits_pos (b := 10) (n := n))
  · rw [← hone] at hlt
    exact hlt hn
  · have := (Nat.length_toDigits_le_iff (by decide) (by omega)).2 (not_le.1 hlt)
    omega

theorem le_leadingZeros {denominator : ℕ} (fuel : ℕ) :
    ∀ {numerator : ℕ}, denominator ≤ 10 ^ fuel * numerator →
      denominator ≤ 10 ^ (Binary.leadingZeros numerator denominator fuel + 1) * numerator := by
  induction fuel with
  | zero =>
    intro numerator h
    unfold Binary.leadingZeros
    omega
  | succ fuel ih =>
    intro numerator h
    unfold Binary.leadingZeros
    split
    · omega
    · rw [pow_succ, mul_assoc] at h ⊢
      exact ih h

theorem two_pow_le_ten_pow {m n : ℕ} (h : m ≤ 3 * n) : 2 ^ m ≤ 10 ^ n :=
  calc 2 ^ m ≤ 2 ^ (3 * n) := Nat.pow_le_pow_right (by decide) h
    _ = (2 ^ 3) ^ n := pow_mul 2 3 n
    _ ≤ 10 ^ n := Nat.pow_le_pow_left (by decide) n

theorem two_zpow_le_ten_zpow {m n : ℕ} (h : 2 ^ m ≤ 10 ^ n) : (2 : ℚ) ^ (m : ℤ) ≤ 10 ^ (n : ℤ) := by
  rw [zpow_natCast, zpow_natCast]
  exact_mod_cast h

/-- The point stands no further right than the value allows. -/
theorem ten_zpow_point_le {b : Binary} (hb : b.IsDouble) (hpos : 0 < b.mantissa) :
    (10 : ℚ) ^ (b.point - 1) ≤ b.value := by
  have hdenominator : (0 : ℚ) < b.denominator := by exact_mod_cast b.denominator_pos
  rw [b.value_eq_div, le_div_iff₀ hdenominator]
  unfold Binary.point
  split
  · have hwhole : 0 < b.whole := Nat.div_pos ‹_› b.denominator_pos
    have hlength := Nat.length_toDigits_pos (b := 10) (n := b.whole)
    have hle : 10 ^ ((Nat.toDigits 10 b.whole).length - 1) * b.denominator ≤ b.numerator :=
      (Nat.mul_le_mul_right _ (pow_length_toDigits_le hwhole)).trans (Nat.div_mul_le_self _ _)
    rw [show ((Nat.toDigits 10 b.whole).length : ℤ) - 1 =
      ((Nat.toDigits 10 b.whole).length - 1 : ℕ) by omega, zpow_natCast]
    exact_mod_cast hle
  · -- the smallest double has fewer than four hundred zeros after the point
    have hsmall : b.denominator ≤ 10 ^ 400 * b.numerator := by
      have hleast := hb.least
      calc b.denominator ≤ 2 ^ 1074 := Nat.pow_le_pow_right (by decide) (by omega)
        _ ≤ 10 ^ 400 := two_pow_le_ten_pow (by decide)
        _ ≤ 10 ^ 400 * b.numerator :=
          Nat.le_mul_of_pos_right _ (Nat.mul_pos hpos (Nat.pow_pos (by decide)))
    have hle := le_leadingZeros 400 hsmall
    generalize Binary.leadingZeros b.numerator b.denominator 400 = zeros at hle ⊢
    rw [show -(zeros : ℤ) - 1 = -((zeros + 1 : ℕ) : ℤ) by omega, zpow_neg, zpow_natCast,
      inv_mul_le_iff₀ (by positivity)]
    exact_mod_cast hle

theorem leadingZeros_lt {denominator : ℕ} (fuel : ℕ) :
    ∀ {numerator : ℕ}, numerator < denominator →
      10 ^ Binary.leadingZeros numerator denominator fuel * numerator < denominator := by
  induction fuel with
  | zero =>
    intro numerator h
    unfold Binary.leadingZeros
    omega
  | succ fuel ih =>
    intro numerator h
    unfold Binary.leadingZeros
    split
    · omega
    · rw [pow_succ, mul_assoc]
      exact ih (by omega)

/-- The point stands as far right as the value needs. -/
theorem lt_ten_zpow_point (b : Binary) : b.value < (10 : ℚ) ^ b.point := by
  have hdenominator : (0 : ℚ) < b.denominator := by exact_mod_cast b.denominator_pos
  rw [b.value_eq_div, div_lt_iff₀ hdenominator]
  unfold Binary.point
  split
  · have hwhole : b.whole < 10 ^ (Nat.toDigits 10 b.whole).length :=
      (Nat.length_toDigits_le_iff (by decide) Nat.length_toDigits_pos).1 le_rfl
    have hlt : b.numerator < 10 ^ (Nat.toDigits 10 b.whole).length * b.denominator :=
      (Nat.div_lt_iff_lt_mul b.denominator_pos).1 hwhole
    rw [zpow_natCast]
    exact_mod_cast hlt
  · have hlt := leadingZeros_lt 400 (not_le.1 ‹¬ b.denominator ≤ b.numerator›)
    generalize Binary.leadingZeros b.numerator b.denominator 400 = zeros at hlt ⊢
    rw [zpow_neg, zpow_natCast, lt_inv_mul_iff₀ (by positivity)]
    exact_mod_cast hlt

/-! ## Seventeen digits -/

/-- **Seventeen digits suffice.** A grid of seventeen digits is finer than the doubles are, so one
of the two grid points next to a double rounds to it. -/
theorem exists_pick_seventeen {b : Binary} (hb : b.IsDouble) (hpos : 0 < b.mantissa) (tie : Tie) :
    ∃ k, (Grid.mk (b.point - 17)).pick tie b = some k := by
  have hunit := two_zpow_pos b.exponent
  have hstep : (10 : ℚ) ^ (b.point - 17) * 10 ^ 16 ≤ b.mantissa * 2 ^ b.exponent := by
    refine le_trans (le_of_eq ?_) (ten_zpow_point_le hb hpos)
    rw [← zpow_natCast, ← zpow_add₀ (by norm_num)]
    congr 1
    omega
  refine Grid.exists_pick _ b tie ?_
  have hbelow := (Grid.mk (b.point - 17)).below_le b
  have hsucc := (Grid.mk (b.point - 17)).lt_below_succ b
  have hlower : b.lower.value < b.mantissa * 2 ^ b.exponent := Binary.lower_lt hpos
  have hhalf := b.lower_value hpos
  have hupper := b.upper_value
  generalize (Grid.mk (b.point - 17)).below b = k at hbelow hsucc ⊢
  rw [Binary.value] at hbelow hsucc
  push_cast at hsucc ⊢
  simp only at hbelow hsucc ⊢
  generalize (10 : ℚ) ^ (b.point - 17) = step at hstep hbelow hsucc ⊢
  generalize (2 : ℚ) ^ b.exponent = place at hunit hstep hbelow hsucc hlower hhalf hupper
  by_cases htwo : b.mantissa = 2 ^ 52
  · -- below a power of two the doubles lie closer, but then the grid is finer too
    have hmantissa : (b.mantissa : ℚ) = 2 ^ 52 := by exact_mod_cast htwo
    have hfine : step < 1 / 2 * place := by
      rw [hmantissa] at hstep
      linarith
    exact .inr (roundsTo_of_lt (by linarith) (by linarith))
  · have hfine : step < place := by
      have hmantissa : (b.mantissa : ℚ) ≤ 2 ^ 53 := by exact_mod_cast hb.lt.le
      have : (b.mantissa : ℚ) * place ≤ 2 ^ 53 * place :=
        mul_le_mul_of_nonneg_right hmantissa hunit.le
      linarith
    rw [show b.lowerQuarters = 2 from if_neg fun h => htwo h.1] at hhalf
    push_cast at hhalf
    by_cases hin : b.lower.value < k * step
    · exact .inl (roundsTo_of_lt hin (by linarith))
    · exact .inr (roundsTo_of_lt (by linarith) (by linarith))

/-- The search ends where the first decimal is picked. -/
theorem exists_first_pick {tie : Tie} {b : Binary} {point : ℤ} {fuel : ℕ} :
    ∀ {count steps : ℕ}, steps < fuel →
      (∃ k, (Grid.mk (point - (count + steps : ℕ))).pick tie b = some k) →
      ∃ n k : ℕ, count ≤ n ∧ n ≤ count + steps ∧ (Grid.mk (point - n)).pick tie b = some k ∧
        (∀ m : ℕ, count ≤ m → m < n → (Grid.mk (point - m)).pick tie b = none) ∧
        Decimal.search tie b point count fuel = Decimal.ofGrid k (point - n) := by
  induction fuel with
  | zero => exact fun hsteps => absurd hsteps (Nat.not_lt_zero _)
  | succ fuel ih =>
    intro count steps hsteps hpick
    unfold Decimal.search
    cases hcount : (Grid.mk (point - count)).pick tie b with
    | some k => exact ⟨count, k, le_rfl, by omega, hcount, fun m hle hlt => by omega, rfl⟩
    | none =>
      obtain _ | steps := steps
      · obtain ⟨k, hk⟩ := hpick
        rw [Nat.add_zero, hcount] at hk
        cases hk
      · rw [show count + (steps + 1) = count + 1 + steps by omega] at hpick
        obtain ⟨n, k, hn, hn', hk, hfirst, hsearch⟩ := ih (by omega) hpick
        refine ⟨n, k, by omega, by omega, hk, fun m hle hlt => ?_, hsearch⟩
        obtain rfl | hmore := Nat.eq_or_lt_of_le hle
        · exact hcount
        · exact hfirst m hmore hlt

/-- **The shortest decimal of a double** is picked from the first grid from which there is one to
pick. -/
theorem shortest_eq_first {b : Binary} (hb : b.IsDouble) (hpos : 0 < b.mantissa) (tie : Tie) :
    ∃ n k : ℕ, 1 ≤ n ∧ n ≤ 17 ∧ (Grid.mk (b.point - n)).pick tie b = some k ∧
      (∀ m : ℕ, 1 ≤ m → m < n → (Grid.mk (b.point - m)).pick tie b = none) ∧
      Decimal.shortest tie b = Decimal.ofGrid k (b.point - n) :=
  exists_first_pick (by decide : 16 < 17) (exists_pick_seventeen hb hpos tie)

/-- **The shortest decimal of a double** is a grid point that rounds to it. -/
theorem shortest_eq_ofGrid {b : Binary} (hb : b.IsDouble) (hpos : 0 < b.mantissa) (tie : Tie) :
    ∃ (k : ℕ) (scale : ℤ), Decimal.shortest tie b = Decimal.ofGrid k scale ∧
      RoundsTo (k * 10 ^ scale) b := by
  obtain ⟨n, k, -, -, hpick, -, hshortest⟩ := shortest_eq_first hb hpos tie
  exact ⟨k, b.point - n, hshortest, Grid.roundsTo_of_pick _ _ hpick⟩

/-! ## The digits -/

namespace Decimal

/-- The number that a decimal stands for. -/
def value (d : Decimal) : ℚ :=
  Nat.ofDigitChars 10 d.digits 0 * 10 ^ (d.point - d.digits.length)

/-- The digits of a decimal that is not zero: there are some, and the first is not a zero. -/
structure IsNormal (d : Decimal) : Prop where
  isDigit : ∀ c ∈ d.digits, c.isDigit
  head : ∃ c rest, d.digits = c :: rest ∧ c ≠ '0'

theorem exists_stripZeros_append (digits : List Char) :
    ∃ n, digits = stripZeros digits ++ List.replicate n '0' := by
  have hzeros : digits.reverse.takeWhile (· = '0') =
      List.replicate (digits.reverse.takeWhile (· = '0')).length '0' :=
    List.eq_replicate_of_mem fun c hc => by simpa using List.all_eq_true.1 List.all_takeWhile c hc
  refine ⟨(digits.reverse.takeWhile (· = '0')).length, ?_⟩
  unfold stripZeros
  rw [← List.reverse_replicate, ← hzeros, ← List.reverse_append, List.takeWhile_append_dropWhile,
    List.reverse_reverse]

theorem exists_head_toDigits {k : ℕ} (hk : 0 < k) :
    ∃ c rest, Nat.toDigits 10 k = c :: rest ∧ c ≠ '0' := by
  induction k using Nat.strongRecOn with
  | ind k ih =>
    rw [Nat.toDigits_eq_if (by decide)]
    split
    · exact ⟨_, [], rfl, fun h => hk.ne' (Nat.digitChar_eq_zero.1 h)⟩
    · obtain ⟨c, rest, htoDigits, hc⟩ := ih (k / 10) (by omega) (by omega)
      exact ⟨c, rest ++ [Nat.digitChar (k % 10)], by rw [htoDigits]; rfl, hc⟩

theorem ofGrid_value (k : ℕ) (scale : ℤ) : (ofGrid k scale).value = k * 10 ^ scale := by
  obtain ⟨n, hn⟩ := exists_stripZeros_append (Nat.toDigits 10 k)
  have hk : k = 10 ^ n * Nat.ofDigitChars 10 (stripZeros (Nat.toDigits 10 k)) 0 := by
    rw [← Nat.ofDigitChars_replicate_zero, ← Nat.ofDigitChars_append, ← hn,
      Nat.ofDigitChars_ten_toDigits]
  have hlength := congrArg List.length hn
  rw [List.length_append, List.length_replicate] at hlength
  show (Nat.ofDigitChars 10 (stripZeros (Nat.toDigits 10 k)) 0 : ℚ) *
    10 ^ (scale + (Nat.toDigits 10 k).length - (stripZeros (Nat.toDigits 10 k)).length) = _
  rw [show scale + (Nat.toDigits 10 k).length - (stripZeros (Nat.toDigits 10 k)).length =
    (n : ℤ) + scale by omega, zpow_add₀ (by norm_num), zpow_natCast]
  generalize Nat.ofDigitChars 10 (stripZeros (Nat.toDigits 10 k)) 0 = m at hk ⊢
  rw [hk]
  push_cast
  ring

theorem isNormal_ofGrid {k : ℕ} (hk : 0 < k) (scale : ℤ) : (ofGrid k scale).IsNormal := by
  obtain ⟨n, hn⟩ := exists_stripZeros_append (Nat.toDigits 10 k)
  obtain ⟨c, rest, htoDigits, hc⟩ := exists_head_toDigits hk
  refine ⟨fun d hd => ?_, ?_⟩
  · have hmem : d ∈ Nat.toDigits 10 k := by
      rw [hn]
      exact List.mem_append_left _ hd
    exact Nat.isDigit_of_mem_toDigits (by decide) (by decide) hmem
  · show ∃ c rest, stripZeros (Nat.toDigits 10 k) = c :: rest ∧ c ≠ '0'
    rw [htoDigits] at hn ⊢
    cases hstrip : stripZeros (c :: rest) with
    | nil =>
      rw [hstrip, List.nil_append] at hn
      exact absurd (List.eq_of_mem_replicate (hn ▸ List.mem_cons_self)) hc
    | cons c' rest' =>
      rw [hstrip] at hn
      exact ⟨c', rest', rfl, (List.cons.inj hn).1 ▸ hc⟩

end Decimal

/-- **The shortest decimal reads back**: it rounds to the double. -/
theorem roundsTo_shortest {b : Binary} (hb : b.IsDouble) (hpos : 0 < b.mantissa) (tie : Tie) :
    (Decimal.shortest tie b).IsNormal ∧ RoundsTo (Decimal.shortest tie b).value b := by
  obtain ⟨k, scale, hshortest, hrounds⟩ := shortest_eq_ofGrid hb hpos tie
  rw [hshortest, Decimal.ofGrid_value]
  exact ⟨Decimal.isNormal_ofGrid (pos_of_roundsTo hb hpos hrounds) scale, hrounds⟩

end Pagewright
