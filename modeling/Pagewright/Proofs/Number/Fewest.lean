import Mathlib.Algebra.Order.Group.Pointwise.Interval
import Pagewright.Proofs.Number.Digits
import Pagewright.Proofs.Number.Shortest

/-!
# No decimal is shorter or nearer

The shortest decimal of a double is made by a search. Here it is said what the search is for,
without the search: of the decimals that round to the double it has the fewest digits, of those with
so few it is nearest to the double, and of two that are equally near it is the larger one
(`Decimal.IsShortest`). There is exactly one such decimal, and the search finds it
(`Decimal.isShortest_iff`).

The search looks only at the two grid points next to the double, and only at grids whose first digit
stands where that of the double does. Nothing is missed, since numbers between the double and
another that rounds to it round to it too: if there is a decimal with so many digits at all, then
there is a point of the grid on the way from it to the double.
-/

namespace Pagewright

/-! ## On the way to the double -/

/-- A number lies on the way from another to its double, so it rounds to the double too. -/
theorem RoundsTo.of_mem_uIcc {q q' : ℚ} {b : Binary} (hq : RoundsTo q b) (hpos : 0 < b.mantissa)
    (h : q' ∈ Set.uIcc q b.value) : RoundsTo q' b := by
  have hlower := Binary.lower_lt hpos
  have hupper := b.lt_upper
  unfold RoundsTo at hq ⊢
  by_cases heven : b.mantissa % 2 = 0
  · rw [if_pos heven] at hq ⊢
    rcases Set.mem_uIcc.mp h with ⟨hq', hvalue⟩ | ⟨hvalue, hq'⟩ <;> constructor <;> linarith
  · rw [if_neg heven] at hq ⊢
    rcases Set.mem_uIcc.mp h with ⟨hq', hvalue⟩ | ⟨hvalue, hq'⟩ <;> constructor <;> linarith

/-- On the way to the double, all numbers but the first are nearer to it. -/
theorem eq_of_abs_sub_eq {q q' v : ℚ} (h : q' ∈ Set.uIcc q v) (heq : |q' - v| = |q - v|) :
    q' = q := by
  rcases Set.mem_uIcc.mp h with ⟨hq', hv⟩ | ⟨hv, hq'⟩
  · rw [abs_of_nonpos (by linarith), abs_of_nonpos (by linarith)] at heq
    linarith
  · rw [abs_of_nonneg (by linarith), abs_of_nonneg (by linarith)] at heq
    linarith

namespace Grid

variable {g : Grid} {k k' : ℕ} {b : Binary}

theorem mul_le_mul_scale (h : k ≤ k') : (k : ℚ) * 10 ^ g.scale ≤ k' * 10 ^ g.scale :=
  mul_le_mul_of_nonneg_right (by exact_mod_cast h) (ten_zpow_pos _).le

/-- **A grid point that rounds to the value has company next to the value.** -/
theorem roundsTo_below_or_succ (hpos : 0 < b.mantissa) (h : RoundsTo (k * 10 ^ g.scale) b) :
    (k ≤ g.below b ∧ RoundsTo (g.below b * 10 ^ g.scale) b) ∨
      (g.below b + 1 ≤ k ∧ RoundsTo ((g.below b + 1 : ℕ) * 10 ^ g.scale) b) := by
  obtain hle | hlt := Nat.lt_or_ge (g.below b) k |>.symm
  · exact .inl ⟨hle, h.of_mem_uIcc hpos
      (Set.mem_uIcc.mpr (.inl ⟨mul_le_mul_scale hle, g.below_le b⟩))⟩
  · exact .inr ⟨hlt, h.of_mem_uIcc hpos
      (Set.mem_uIcc.mpr (.inr ⟨(g.lt_below_succ b).le, mul_le_mul_scale hlt⟩))⟩

theorem exists_pick_of_roundsTo (hpos : 0 < b.mantissa) (h : RoundsTo (k * 10 ^ g.scale) b)
    (tie : Tie) : ∃ k', g.pick tie b = some k' :=
  g.exists_pick b tie ((roundsTo_below_or_succ hpos h).imp And.right And.right)

/-- The middle between two grid points and the value are compared exactly. -/
theorem nearer_up (g : Grid) (k : ℕ) (b : Binary) :
    g.nearer .up k b = if 2 * b.value < (2 * k + 1 : ℕ) * 10 ^ g.scale then k else k + 1 := by
  have hdouble : (Binary.mk (2 * b.mantissa) b.exponent).value = 2 * b.value := by
    unfold Binary.value
    push_cast
    ring
  have hcompare : Ord.compare ((2 * k + 1) * g.step * b.denominator) (2 * b.numerator * g.perUnit) =
      g.compare (2 * k + 1) ⟨2 * b.mantissa, b.exponent⟩ := by
    unfold Grid.compare Binary.numerator Binary.denominator
    rw [← Nat.mul_assoc 2 b.mantissa]
  have hgt := g.compare_eq_gt (2 * k + 1) ⟨2 * b.mantissa, b.exponent⟩
  rw [hdouble] at hgt
  unfold nearer
  rw [hcompare]
  by_cases hlt : 2 * b.value < (2 * k + 1 : ℕ) * 10 ^ g.scale
  · rw [if_pos hlt, hgt.mpr hlt]
  · rw [if_neg hlt]
    cases horder : g.compare (2 * k + 1) ⟨2 * b.mantissa, b.exponent⟩ with
    | lt => rfl
    | eq => rfl
    | gt => exact absurd (hgt.mp horder) hlt

/-- **What is picked** is the one of the two points next to the value that rounds to it, and if both
do, the nearer one. -/
theorem pick_up_cases (h : g.pick .up b = some k) :
    (k = g.below b ∧ (RoundsTo ((g.below b + 1 : ℕ) * 10 ^ g.scale) b →
        2 * b.value < (2 * g.below b + 1 : ℕ) * 10 ^ g.scale)) ∨
      (k = g.below b + 1 ∧ (RoundsTo (g.below b * 10 ^ g.scale) b →
        (2 * g.below b + 1 : ℕ) * 10 ^ g.scale ≤ 2 * b.value)) := by
  unfold pick at h
  rw [← rounds_iff, ← rounds_iff]
  cases hlow : g.rounds (g.below b) b <;> cases hhigh : g.rounds (g.below b + 1) b <;>
    simp only [hlow, hhigh] at h
  · cases h
  · cases h
    exact .inr ⟨rfl, nofun⟩
  · cases h
    exact .inl ⟨rfl, nofun⟩
  · rw [nearer_up] at h
    split at h
    · next hlt =>
      cases h
      exact .inl ⟨rfl, fun _ => hlt⟩
    · next hle =>
      cases h
      exact .inr ⟨rfl, fun _ => not_lt.mp hle⟩

/-- What is picked is one of the two points next to the value. -/
theorem pick_eq_or {tie : Tie} (h : g.pick tie b = some k) : k = g.below b ∨ k = g.below b + 1 := by
  unfold pick at h
  dsimp only at h
  split at h
  · cases h
    exact nearer_eq _ _ _ tie
  · exact .inl (Option.some.inj h).symm
  · exact .inr (Option.some.inj h).symm
  · cases h

/-- In a grid of so many digits no larger number is picked. -/
theorem pick_le {tie : Tie} {n : ℕ} (h : (Grid.mk (b.point - n)).pick tie b = some k) :
    k ≤ 10 ^ n := by
  have hbelow : (Grid.mk (b.point - n)).below b < 10 ^ n := by
    have hlt := ((Grid.mk (b.point - n)).below_le b).trans_lt (lt_ten_zpow_point b)
    have hsplit : b.point = (n : ℤ) + (b.point - n) := by omega
    rw [hsplit, zpow_add₀ (by norm_num), zpow_natCast, ← hsplit] at hlt
    have hless := lt_of_mul_lt_mul_right hlt (ten_zpow_pos _).le
    exact_mod_cast hless
  rcases pick_eq_or h with rfl | rfl <;> omega

/-- **No grid point is nearer than the one that is picked**, and of two equally near ones the larger
is picked. -/
theorem pick_up_nearest (hpos : 0 < b.mantissa) (h : g.pick .up b = some k)
    (hk' : RoundsTo (k' * 10 ^ g.scale) b) :
    |k * 10 ^ g.scale - b.value| < |k' * 10 ^ g.scale - b.value| ∨
      |k * 10 ^ g.scale - b.value| = |k' * 10 ^ g.scale - b.value| ∧ k' ≤ k := by
  have hscale := ten_zpow_pos g.scale
  have hbelow := g.below_le b
  have hsucc := g.lt_below_succ b
  rcases roundsTo_below_or_succ hpos hk' with ⟨hle, hrounds⟩ | ⟨hle, hrounds⟩
  · have hk'le : (k' : ℚ) * 10 ^ g.scale ≤ g.below b * 10 ^ g.scale := mul_le_mul_scale hle
    rw [abs_of_nonpos (sub_nonpos.mpr (hk'le.trans hbelow))]
    rcases pick_up_cases h with ⟨rfl, -⟩ | ⟨rfl, hmiddle⟩
    · rw [abs_of_nonpos (sub_nonpos.mpr hbelow)]
      rcases hk'le.lt_or_eq with hlt | heq
      · exact .inl (by linarith)
      · exact .inr ⟨by linarith, hle⟩
    · have hnear := hmiddle hrounds
      rw [abs_of_pos (sub_pos.mpr hsucc)]
      have hdistance : ((g.below b + 1 : ℕ) : ℚ) * 10 ^ g.scale - b.value ≤
          -(k' * 10 ^ g.scale - b.value) := by
        push_cast at hnear ⊢
        linarith
      rcases hdistance.lt_or_eq with hlt | heq
      · exact .inl hlt
      · exact .inr ⟨heq, by omega⟩
  · have hk'ge : ((g.below b + 1 : ℕ) : ℚ) * 10 ^ g.scale ≤ k' * 10 ^ g.scale :=
      mul_le_mul_scale hle
    rw [abs_of_pos (sub_pos.mpr (hsucc.trans_le hk'ge))]
    rcases pick_up_cases h with ⟨rfl, hmiddle⟩ | ⟨rfl, -⟩
    · have hnear := hmiddle hrounds
      rw [abs_of_nonpos (sub_nonpos.mpr hbelow)]
      push_cast at hnear hk'ge
      exact .inl (by linarith)
    · rw [abs_of_pos (sub_pos.mpr hsucc)]
      obtain hlt | rfl := hle.lt_or_eq
      · have hlt' : ((g.below b + 1 : ℕ) : ℚ) * 10 ^ g.scale < k' * 10 ^ g.scale :=
          mul_lt_mul_of_pos_right (by exact_mod_cast hlt) hscale
        exact .inl (by linarith)
      · exact .inr ⟨rfl, le_rfl⟩

end Grid

/-! ## Decimals by their first digit -/

theorem toDigits_of_isDigit {c : Char} (hc : c.isDigit) :
    Nat.toDigits 10 (c.toNat - '0'.toNat) = [c] := by
  have hten := digit_lt_ten hc
  have hle : '0'.toNat ≤ c.toNat := (isDigit_iff.1 hc).1
  have hdigit : Nat.digitChar (c.toNat - '0'.toNat) = c := by
    refine Char.toNat_inj.1 ?_
    rw [Nat.toNat_digitChar_of_lt_ten hten]
    exact Nat.add_sub_cancel' hle
  rw [Nat.toDigits_of_lt_base hten, hdigit]

/-- Digits behind a number that is not zero make it longer by as much. -/
theorem toDigits_append {n : ℕ} (hn : 0 < n) {cs : List Char} (hcs : ∀ c ∈ cs, c.isDigit) :
    Nat.toDigits 10 n ++ cs = Nat.toDigits 10 (Nat.ofDigitChars 10 cs n) := by
  induction cs generalizing n with
  | nil => rw [List.append_nil, Nat.ofDigitChars_nil]
  | cons c cs ih =>
    have hc := hcs c List.mem_cons_self
    have happend : Nat.toDigits 10 n ++ [c] = Nat.toDigits 10 (10 * n + (c.toNat - '0'.toNat)) := by
      rw [← Nat.toDigits_append_toDigits (by decide) hn (digit_lt_ten hc),
        toDigits_of_isDigit hc]
    rw [← List.singleton_append, ← List.append_assoc, happend, List.singleton_append,
      Nat.ofDigitChars_cons]
    exact ih (by omega) fun d hd => hcs d (List.mem_cons_of_mem _ hd)

theorem toDigits_append_zeros {n : ℕ} (hn : 0 < n) (zeros : ℕ) :
    Nat.toDigits 10 n ++ List.replicate zeros '0' = Nat.toDigits 10 (10 ^ zeros * n) := by
  rw [toDigits_append hn fun _ => isDigit_of_mem_zeros,
    Nat.ofDigitChars_replicate_zero]

namespace Decimal

/-- A zero at the end of the digits is not kept. -/
theorem stripZeros_append_zeros (digits : List Char) (n : ℕ) :
    stripZeros (digits ++ List.replicate n '0') = stripZeros digits := by
  unfold stripZeros
  rw [List.reverse_append, List.reverse_replicate, List.dropWhile_append_of_pos]
  intro c hc
  exact decide_eq_true (List.eq_of_mem_replicate hc)

namespace IsNormal

variable {d d' : Decimal}

theorem length_pos (hd : d.IsNormal) : 0 < d.digits.length := by
  obtain ⟨c, rest, hhead, -⟩ := hd.head
  rw [hhead]
  exact Nat.succ_pos _

theorem pow_le (hd : d.IsNormal) :
    10 ^ (d.digits.length - 1) ≤ Nat.ofDigitChars 10 d.digits 0 := by
  obtain ⟨hdigits, c, rest, hhead, hc⟩ := hd
  have hdigit := digit_ne_zero (hdigits c (hhead ▸ List.mem_cons_self)) hc
  rw [hhead, Nat.ofDigitChars_cons, Nat.ofDigitChars_eq_ofDigitChars_zero, List.length_cons,
    Nat.add_sub_cancel]
  exact Nat.le_add_right_of_le (Nat.le_mul_of_pos_right _ (by omega))

theorem lt_pow (hd : d.IsNormal) : Nat.ofDigitChars 10 d.digits 0 < 10 ^ d.digits.length := by
  have hlt := ofDigitChars_lt hd.isDigit 0
  rwa [Nat.zero_add, Nat.mul_one] at hlt

/-- The bound with zeros behind the digits. -/
theorem mul_lt_pow (hd : d.IsNormal) {i n : ℕ} (hle : i + d.digits.length ≤ n) :
    10 ^ i * Nat.ofDigitChars 10 d.digits 0 < 10 ^ n := by
  calc 10 ^ i * Nat.ofDigitChars 10 d.digits 0
      < 10 ^ i * 10 ^ d.digits.length :=
        Nat.mul_lt_mul_of_pos_left hd.lt_pow (Nat.pow_pos (by decide))
    _ = 10 ^ (i + d.digits.length) := (pow_add _ _ _).symm
    _ ≤ 10 ^ n := Nat.pow_le_pow_right (by decide) hle

/-- The digits are those of the number they make. -/
theorem toDigits_eq (hd : d.IsNormal) :
    Nat.toDigits 10 (Nat.ofDigitChars 10 d.digits 0) = d.digits := by
  obtain ⟨hdigits, c, rest, hhead, hc⟩ := hd
  rw [hhead] at hdigits ⊢
  obtain ⟨hfirst, hrest⟩ := List.forall_mem_cons.mp hdigits
  have hpos := Nat.pos_of_ne_zero (digit_ne_zero hfirst hc)
  rw [Nat.ofDigitChars_cons, Nat.mul_zero, Nat.zero_add, ← toDigits_append hpos hrest,
    toDigits_of_isDigit hfirst]
  rfl

/-- **The point stands behind the first digit**, as many places on as it says. -/
theorem le_value (hd : d.IsNormal) : (10 : ℚ) ^ (d.point - 1) ≤ d.value := by
  have hlength := hd.length_pos
  have hpow : ((10 ^ (d.digits.length - 1) : ℕ) : ℚ) ≤ (Nat.ofDigitChars 10 d.digits 0 : ℕ) := by
    exact_mod_cast hd.pow_le
  have hsplit : d.point - 1 = (d.digits.length - 1 : ℕ) + (d.point - d.digits.length) := by omega
  rw [hsplit, zpow_add₀ (by norm_num), zpow_natCast]
  push_cast at hpow
  exact mul_le_mul_of_nonneg_right hpow (ten_zpow_pos _).le

theorem value_lt (hd : d.IsNormal) : d.value < (10 : ℚ) ^ d.point := by
  have hpow : ((Nat.ofDigitChars 10 d.digits 0 : ℕ) : ℚ) < (10 ^ d.digits.length : ℕ) := by
    exact_mod_cast hd.lt_pow
  have hsplit : d.point = (d.digits.length : ℤ) + (d.point - d.digits.length) := by omega
  rw [hsplit, zpow_add₀ (by norm_num), zpow_natCast]
  push_cast at hpow
  exact mul_lt_mul_of_pos_right hpow (ten_zpow_pos _)

/-- **The point is where the size of the number puts it.** -/
theorem point_le_iff (hd : d.IsNormal) {p : ℤ} : d.point ≤ p ↔ d.value < 10 ^ p := by
  constructor
  · exact fun h => hd.value_lt.trans_le (zpow_le_zpow_right₀ (by norm_num) h)
  · intro h
    have hless := (zpow_lt_zpow_iff_right₀ (by norm_num : (1 : ℚ) < 10)).mp (hd.le_value.trans_lt h)
    omega

/-- Decimals of the same length and of the same value are the same. -/
theorem eq_of_value_eq (hd : d.IsNormal) (hd' : d'.IsNormal)
    (hlength : d.digits.length = d'.digits.length) (hvalue : d.value = d'.value) : d = d' := by
  have hpoint : d.point = d'.point :=
    le_antisymm (hd.point_le_iff.mpr (hvalue ▸ hd'.value_lt))
      (hd'.point_le_iff.mpr (hvalue ▸ hd.value_lt))
  have hdigits : d.digits = d'.digits := by
    rw [value, value, hpoint, hlength] at hvalue
    have hnumber := mul_right_cancel₀ (ten_zpow_pos _).ne' hvalue
    rw [← hd.toDigits_eq, ← hd'.toDigits_eq]
    exact congrArg (Nat.toDigits 10) (by exact_mod_cast hnumber)
  cases d
  cases d'
  cases hdigits
  cases hpoint
  rfl

end IsNormal

/-! ## The shortest decimal -/

/-- **The shortest decimal of a double**: it rounds to the double, no decimal that does has fewer
digits, none of the same length is nearer, and none that is as near is larger. -/
structure IsShortest (d : Decimal) (b : Binary) : Prop where
  isNormal : d.IsNormal
  roundsTo : RoundsTo d.value b
  fewest : ∀ d' : Decimal, d'.IsNormal → RoundsTo d'.value b → d.digits.length ≤ d'.digits.length
  nearest : ∀ d' : Decimal, d'.IsNormal → RoundsTo d'.value b →
    d'.digits.length = d.digits.length →
    |d.value - b.value| < |d'.value - b.value| ∨
      |d.value - b.value| = |d'.value - b.value| ∧ d'.value ≤ d.value

/-- **There is at most one shortest decimal.** -/
theorem IsShortest.unique {d d' : Decimal} {b : Binary} (hd : d.IsShortest b)
    (hd' : d'.IsShortest b) : d = d' := by
  have hlength : d.digits.length = d'.digits.length :=
    le_antisymm (hd.fewest d' hd'.isNormal hd'.roundsTo) (hd'.fewest d hd.isNormal hd.roundsTo)
  have hvalue : d.value = d'.value := by
    rcases hd.nearest d' hd'.isNormal hd'.roundsTo hlength.symm with hlt | ⟨heq, hle⟩ <;>
      rcases hd'.nearest d hd.isNormal hd.roundsTo hlength with hlt' | ⟨heq', hle'⟩
    · exact absurd hlt hlt'.not_gt
    · exact absurd heq' hlt.ne'
    · exact absurd heq hlt'.ne'
    · exact le_antisymm hle' hle
  exact hd.isNormal.eq_of_value_eq hd'.isNormal hlength hvalue

/-- **On the way from a decimal to the double there is a grid point** of any grid that has as many
digits. If the decimal starts further right than the double does, that is the power of ten at the
first digit of the double. -/
theorem exists_mem_uIcc {d : Decimal} (hd : d.IsNormal) {b : Binary} (hb : b.IsDouble)
    (hpos : 0 < b.mantissa) {n : ℕ} (hn : d.digits.length ≤ n) :
    ∃ k : ℕ, (k : ℚ) * 10 ^ (b.point - n) ∈ Set.uIcc d.value b.value := by
  have hlength := hd.length_pos
  obtain hle | hlt := le_or_gt b.point d.point
  · obtain ⟨shift, hshift⟩ : ∃ shift : ℕ, d.point - d.digits.length = shift + (b.point - n) :=
      ⟨(d.point - d.digits.length - (b.point - n)).toNat, by omega⟩
    refine ⟨Nat.ofDigitChars 10 d.digits 0 * 10 ^ shift, ?_⟩
    have hvalue : ((Nat.ofDigitChars 10 d.digits 0 * 10 ^ shift : ℕ) : ℚ) * 10 ^ (b.point - n) =
        d.value := by
      rw [value, hshift, zpow_add₀ (by norm_num), zpow_natCast]
      push_cast
      ring
    rw [hvalue]
    exact Set.left_mem_uIcc
  · refine ⟨10 ^ (n - 1), Set.mem_uIcc.mpr (.inl ?_)⟩
    have hpower : ((10 ^ (n - 1) : ℕ) : ℚ) * 10 ^ (b.point - n) = 10 ^ (b.point - 1) := by
      push_cast
      rw [← zpow_natCast, ← zpow_add₀ (by norm_num)]
      congr 1
      omega
    rw [hpower]
    exact ⟨hd.point_le_iff.mp (by omega) |>.le, ten_zpow_point_le hb hpos⟩

/-- A grid point has no more digits than its grid. -/
theorem length_ofGrid_le {k n : ℕ} (hn : 0 < n) (hk : k ≤ 10 ^ n) (scale : ℤ) :
    (ofGrid k scale).digits.length ≤ n := by
  obtain hlt | rfl := hk.lt_or_eq
  · obtain ⟨zeros, hzeros⟩ := exists_stripZeros_append (Nat.toDigits 10 k)
    have hlength := congrArg List.length hzeros
    rw [List.length_append] at hlength
    have hle := (Nat.length_toDigits_le_iff (by decide) hn).mpr hlt
    show (stripZeros (Nat.toDigits 10 k)).length ≤ n
    omega
  · -- a power of ten is a one and zeros, and the zeros are not kept
    have hdigits : Nat.toDigits 10 (10 ^ n) = ['1'] ++ List.replicate n '0' := by
      have happend := toDigits_append_zeros Nat.one_pos n
      rw [Nat.mul_one] at happend
      exact happend.symm
    show (stripZeros (Nat.toDigits 10 (10 ^ n))).length ≤ n
    rw [hdigits, stripZeros_append_zeros]
    exact hn

/-- **Seventeen digits** are enough for any double. -/
theorem length_shortest_le {b : Binary} (hb : b.IsDouble) (hpos : 0 < b.mantissa) (tie : Tie) :
    (shortest tie b).digits.length ≤ 17 := by
  obtain ⟨n, k, hn, hn', hpick, -, hshortest⟩ := shortest_eq_first hb hpos tie
  rw [hshortest]
  exact (length_ofGrid_le hn (Grid.pick_le hpick) _).trans hn'

/-- **The search finds the shortest decimal.** -/
theorem isShortest_shortest {b : Binary} (hb : b.IsDouble) (hpos : 0 < b.mantissa) :
    (shortest .up b).IsShortest b := by
  obtain ⟨hnormal, hrounds⟩ := roundsTo_shortest hb hpos .up
  obtain ⟨n, k, hn, -, hpick, hfirst, hshortest⟩ := shortest_eq_first hb hpos .up
  have hfewest : ∀ d : Decimal, d.IsNormal → RoundsTo d.value b → n ≤ d.digits.length := by
    intro d hd hq
    by_contra hless
    obtain ⟨k', hk'⟩ := exists_mem_uIcc hd hb hpos le_rfl
    obtain ⟨k'', hpick'⟩ := Grid.exists_pick_of_roundsTo (g := ⟨b.point - d.digits.length⟩) hpos
      (hq.of_mem_uIcc hpos hk') .up
    rw [hfirst d.digits.length hd.length_pos (by omega)] at hpick'
    cases hpick'
  have hlength : (shortest .up b).digits.length = n := by
    refine le_antisymm ?_ (hfewest _ hnormal hrounds)
    rw [hshortest]
    exact length_ofGrid_le hn (Grid.pick_le hpick) _
  refine ⟨hnormal, hrounds, fun d hd hq => hlength ▸ hfewest d hd hq, fun d hd hq hd' => ?_⟩
  rw [hlength] at hd'
  obtain ⟨k', hk'⟩ := exists_mem_uIcc hd hb hpos hd'.le
  have hvalue : (shortest .up b).value = k * 10 ^ (b.point - n) := by
    rw [hshortest, ofGrid_value]
  have hway : |k' * 10 ^ (b.point - n) - b.value| ≤ |d.value - b.value| := by
    rw [abs_sub_comm, abs_sub_comm d.value]
    exact Set.abs_sub_right_of_mem_uIcc hk'
  rw [hvalue]
  rcases Grid.pick_up_nearest hpos hpick (hq.of_mem_uIcc hpos hk') with hlt | ⟨heq, hle⟩
  · exact .inl (hlt.trans_le hway)
  · obtain hless | hsame := hway.lt_or_eq
    · exact .inl (heq.trans_lt hless)
    · rw [← eq_of_abs_sub_eq hk' hsame]
      exact .inr ⟨heq, Grid.mul_le_mul_scale (g := ⟨b.point - n⟩) hle⟩

/-- **The shortest decimal is the one that the search finds.** -/
theorem isShortest_iff {d : Decimal} {b : Binary} (hb : b.IsDouble) (hpos : 0 < b.mantissa) :
    d.IsShortest b ↔ d = shortest .up b := by
  constructor
  · exact fun hd => hd.unique (isShortest_shortest hb hpos)
  · rintro rfl
    exact isShortest_shortest hb hpos

end Decimal

end Pagewright
