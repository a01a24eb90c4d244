import Mathlib.Algebra.Order.Field.Power
import Mathlib.Algebra.Order.Field.Rat
import Mathlib.Data.Int.Log
import Mathlib.Data.Rat.Floor
import Mathlib.Tactic.FieldSimp
import Mathlib.Tactic.Linarith
import Mathlib.Tactic.NormNum
import Mathlib.Tactic.Positivity
import Mathlib.Tactic.Ring
import Pagewright.Number.Shortest
import Pagewright.Proofs.Number.Doubles

/-!
# Rounding to the nearest double

The numbers that round to a double form an interval around it. Arithmetic on doubles gives the
double in whose interval the exact result lies: a product or a quotient is cut to more bits than a
double has, what was cut off is remembered in two bits, and the rest is rounded once. Every number
lies in the interval of a double, unless it is too small or too large (`exists_roundsTo`).
-/

namespace Pagewright

open Float.Model Float.Model.UnpackedFloat

/-- The number that a mantissa and an exponent stand for. -/
def Binary.value (b : Binary) : ℚ :=
  b.mantissa * 2 ^ b.exponent

/-- The number rounds to the double: it lies in the rounding interval, whose ends belong to it when
the mantissa is even. -/
def RoundsTo (q : ℚ) (b : Binary) : Prop :=
  if b.mantissa % 2 = 0 then b.lower.value ≤ q ∧ q ≤ b.upper.value
  else b.lower.value < q ∧ q < b.upper.value

theorem two_zpow_pos (e : ℤ) : (0 : ℚ) < 2 ^ e :=
  zpow_pos (by norm_num) e

theorem two_zpow_lt {a b : ℤ} : (2 : ℚ) ^ a < 2 ^ b ↔ a < b :=
  zpow_lt_zpow_iff_right₀ (by norm_num)

theorem two_zpow_le {a b : ℤ} : (2 : ℚ) ^ a ≤ 2 ^ b ↔ a ≤ b :=
  zpow_le_zpow_iff_right₀ (by norm_num)

theorem two_zpow_add (a : ℤ) (n : ℕ) : (2 : ℚ) ^ (a + n) = 2 ^ n * 2 ^ a := by
  rw [zpow_add₀ (by norm_num), zpow_natCast, mul_comm]

/-! ## The rounding interval -/

theorem Binary.upper_value (b : Binary) :
    b.upper.value = (b.mantissa + 1 / 2) * 2 ^ b.exponent := by
  unfold upper value
  rw [zpow_sub₀ (by norm_num)]
  push_cast
  ring

theorem Binary.lower_value (b : Binary) (hb : 0 < b.mantissa) :
    b.lower.value = (b.mantissa - b.lowerQuarters / 4) * 2 ^ b.exponent := by
  have hle : b.lowerQuarters ≤ 4 * b.mantissa := by
    unfold lowerQuarters
    split <;> omega
  unfold lower value
  rw [zpow_sub₀ (by norm_num), Nat.cast_sub hle]
  push_cast
  ring

theorem Binary.value_nonneg (b : Binary) : 0 ≤ b.value :=
  mul_nonneg (Nat.cast_nonneg _) (two_zpow_pos _).le

theorem Binary.lowerQuarters_le (b : Binary) : b.lowerQuarters ≤ 2 := by
  unfold lowerQuarters
  split <;> omega

theorem Binary.lower_lt {b : Binary} (hb : 0 < b.mantissa) : b.lower.value < b.value := by
  have hquarters : (0 : ℚ) < b.lowerQuarters := by
    unfold lowerQuarters
    split <;> norm_num
  rw [b.lower_value hb]
  exact mul_lt_mul_of_pos_right (by linarith) (two_zpow_pos _)

theorem Binary.lt_upper (b : Binary) : b.value < b.upper.value := by
  rw [b.upper_value]
  exact mul_lt_mul_of_pos_right (by linarith) (two_zpow_pos _)

theorem roundsTo_of_lt {q : ℚ} {b : Binary} (hlow : b.lower.value < q) (hhigh : q < b.upper.value) :
    RoundsTo q b := by
  unfold RoundsTo
  split
  · exact ⟨hlow.le, hhigh.le⟩
  · exact ⟨hlow, hhigh⟩

/-- A double rounds to itself. -/
theorem Binary.roundsTo_value {b : Binary} (hb : 0 < b.mantissa) : RoundsTo b.value b :=
  roundsTo_of_lt (lower_lt hb) b.lt_upper

/-- A number that rounds to a double lies within half a place of it. -/
theorem RoundsTo.bounds {q : ℚ} {b : Binary} (hq : RoundsTo q b) (hb : 0 < b.mantissa) :
    (b.mantissa - b.lowerQuarters / 4) * 2 ^ b.exponent ≤ q ∧
      q ≤ (b.mantissa + 1 / 2) * 2 ^ b.exponent := by
  rw [← b.lower_value hb, ← b.upper_value]
  unfold RoundsTo at hq
  split at hq
  · exact hq
  · exact ⟨hq.1.le, hq.2.le⟩

theorem RoundsTo.half_le {q : ℚ} {b : Binary} (hq : RoundsTo q b) (hb : 0 < b.mantissa) :
    (b.mantissa - 1 / 2) * 2 ^ b.exponent ≤ q := by
  have hquarters : (b.lowerQuarters : ℚ) ≤ 2 := by exact_mod_cast b.lowerQuarters_le
  refine le_trans (mul_le_mul_of_nonneg_right ?_ (two_zpow_pos _).le) (hq.bounds hb).1
  linarith

theorem RoundsTo.strict {q : ℚ} {b : Binary} (hq : RoundsTo q b) (hodd : b.mantissa % 2 = 1) :
    (b.mantissa - 1 / 2) * 2 ^ b.exponent < q ∧ q < (b.mantissa + 1 / 2) * 2 ^ b.exponent := by
  have hquarters : (b.lowerQuarters : ℚ) ≤ 2 := by exact_mod_cast b.lowerQuarters_le
  unfold RoundsTo at hq
  rw [if_neg (by omega), b.lower_value (by omega), b.upper_value] at hq
  refine ⟨lt_of_le_of_lt (mul_le_mul_of_nonneg_right ?_ (two_zpow_pos _).le) hq.1, hq.2⟩
  linarith

theorem RoundsTo.lt_two_zpow {q : ℚ} {b : Binary} (hq : RoundsTo q b) (hb : b.IsDouble)
    (hpos : 0 < b.mantissa) : q < 2 ^ (b.exponent + 53) := by
  have hlt : (b.mantissa : ℚ) + 1 ≤ 2 ^ 53 := by exact_mod_cast hb.lt
  rw [show b.exponent + 53 = b.exponent + (53 : ℕ) from rfl, two_zpow_add]
  refine lt_of_le_of_lt (hq.bounds hpos).2 (mul_lt_mul_of_pos_right ?_ (two_zpow_pos _))
  linarith

theorem RoundsTo.least_le {q : ℚ} {b : Binary} (hq : RoundsTo q b) (hb : b.IsDouble)
    (hpos : 0 < b.mantissa) : 2 ^ (-1075 : ℤ) ≤ q := by
  have hone : (1 : ℚ) ≤ b.mantissa := by exact_mod_cast hpos
  calc (2 : ℚ) ^ (-1075 : ℤ) = 1 / 2 * 2 ^ (-1074 : ℤ) := by
        rw [show (-1074 : ℤ) = -1075 + (1 : ℕ) from rfl, two_zpow_add]
        ring
    _ ≤ 1 / 2 * 2 ^ b.exponent := mul_le_mul_of_nonneg_left (two_zpow_le.2 hb.least) (by norm_num)
    _ ≤ (b.mantissa - 1 / 2) * 2 ^ b.exponent :=
        mul_le_mul_of_nonneg_right (by linarith) (two_zpow_pos _).le
    _ ≤ q := hq.half_le hpos

theorem pos_of_roundsTo {m : ℕ} {e : ℤ} {b : Binary} (hb : b.IsDouble) (hpos : 0 < b.mantissa)
    (hq : RoundsTo (m * 10 ^ e) b) : 0 < m := by
  refine Nat.pos_of_ne_zero fun hzero => ?_
  have := hq.least_le hb hpos
  rw [hzero, Nat.cast_zero, zero_mul] at this
  exact absurd (two_zpow_pos _) (not_lt.2 this)

/-! ## Cutting a number and rounding it -/

/-- The number `r` cut to a whole number: `m` is left, and the accuracy says what was cut off. -/
def IsCut (r : ℚ) (m : ℕ) : Accuracy → Prop
  | .exact => r = m
  | .inexact .lt => m < r ∧ r < m + 1 / 2
  | .inexact .eq => r = m + 1 / 2
  | .inexact .gt => m + 1 / 2 < r ∧ r < m + 1

namespace IsCut

variable {r : ℚ} {m n : ℕ} {a : Accuracy}

theorem bounds (h : IsCut r m a) : m ≤ r ∧ r < m + 1 := by
  rcases a with _ | _ | _ | _ <;> simp only [IsCut] at h <;> constructor <;> linarith

/-- **Rounding a number that was cut** gives the whole number next to it, and of two equally near
ones the even one. -/
theorem round_eq (h : IsCut r m a) (hlow : n - 1 / 2 ≤ r) (hhigh : r ≤ n + 1 / 2)
    (hodd : n % 2 = 1 → n - 1 / 2 < r ∧ r < n + 1 / 2) : a.roundToNearestEven m = n := by
  obtain ⟨hm, hm'⟩ := h.bounds
  have hle : n < m + 2 := by
    have : (n : ℚ) < m + 2 := by linarith
    exact_mod_cast this
  have hge : m < n + 1 := by
    have : (m : ℚ) < n + 1 := by linarith
    exact_mod_cast this
  obtain rfl | rfl : n = m ∨ n = m + 1 := by omega
  · rcases a with _ | _ | _ | _
    · rfl
    · rfl
    · have heven : n % 2 = 0 := by
        by_contra hne
        exact absurd (h : r = n + 1 / 2) (hodd (by omega)).2.ne
      show n + n % 2 = n
      rw [heven, add_zero]
    · exact absurd hhigh (not_le.2 h.1)
  · push_cast at hlow hodd
    rcases a with _ | _ | _ | _
    · simp only [IsCut] at h
      linarith
    · exact absurd h.2 (not_lt.2 (by linarith))
    · have heven : m % 2 = 1 := by
        by_contra hne
        have hlt := (hodd (by omega)).1
        rw [(h : r = m + 1 / 2)] at hlt
        linarith
      show m + m % 2 = m + 1
      rw [heven]
    · rfl

end IsCut

/-- What the round bit and the sticky bit keep of a number is enough to cut it again, one place
further up. -/
theorem isCut_shiftRightOne {r : ℚ} {em : ExtendedMantissa} (h : IsCut r em.mantissa em.accuracy) :
    IsCut (r / 2) em.shiftRightOne.mantissa em.shiftRightOne.accuracy := by
  obtain ⟨m, round, sticky⟩ := em
  have hm : (m : ℚ) = 2 * (m / 2 : ℕ) + (m % 2 : ℕ) := by exact_mod_cast (Nat.div_add_mod m 2).symm
  obtain hbit | hbit := Nat.mod_two_eq_zero_or_one m <;> cases round <;> cases sticky <;>
    simp [ExtendedMantissa.accuracy, ExtendedMantissa.shiftRightOne, IsCut, hbit] at h hm ⊢ <;>
    (try constructor) <;> linarith

theorem isCut_shiftRight {r : ℚ} {em : ExtendedMantissa} (h : IsCut r em.mantissa em.accuracy)
    (k : ℕ) : IsCut (r / 2 ^ k) (em >>> k).mantissa (em >>> k).accuracy := by
  show IsCut _ (k.repeat ExtendedMantissa.shiftRightOne em).mantissa _
  induction k with
  | zero =>
    rw [pow_zero, div_one]
    exact h
  | succ k ih =>
    rw [pow_succ, ← div_div]
    exact isCut_shiftRightOne ih

/-- A quotient of whole numbers is cut by division with a remainder. -/
theorem isCut_div (n : ℕ) {d : ℕ} (hd : 0 < d) :
    IsCut (n / d) (n / d) (accuracyOfFraction (n % d) d) := by
  have hd' : (0 : ℚ) < d := by exact_mod_cast hd
  have hsplit : (n : ℚ) = d * (n / d : ℕ) + (n % d : ℕ) := by
    exact_mod_cast (Nat.div_add_mod n d).symm
  have hlt : ((n % d : ℕ) : ℚ) < d := by exact_mod_cast Nat.mod_lt n hd
  have hquotient : (n : ℚ) / d = (n / d : ℕ) + (n % d : ℕ) / d := by
    rw [hsplit, add_div, mul_div_cancel_left₀ _ hd'.ne']
  rw [hquotient]
  unfold accuracyOfFraction
  by_cases hzero : n % d = 0
  · rw [if_pos hzero, hzero, Nat.cast_zero, zero_div, add_zero]
    rfl
  rw [if_neg hzero]
  have hpos : (0 : ℚ) < (n % d : ℕ) / d :=
    div_pos (by exact_mod_cast Nat.pos_of_ne_zero hzero) hd'
  have hone : ((n % d : ℕ) : ℚ) / d < 1 := (div_lt_one hd').2 hlt
  generalize hpart : ((n % d : ℕ) : ℚ) / d = part at hpos hone ⊢
  have hmul : ((n % d : ℕ) : ℚ) = part * d := by rw [← hpart, div_mul_cancel₀ _ hd'.ne']
  cases hcompare : compare (2 * (n % d)) d with
  | lt =>
    have : ((2 * (n % d) : ℕ) : ℚ) < d := by exact_mod_cast Nat.compare_eq_lt.1 hcompare
    push_cast at this
    rw [hmul] at this
    exact ⟨by linarith, by nlinarith⟩
  | eq =>
    have : ((2 * (n % d) : ℕ) : ℚ) = d := by exact_mod_cast Nat.compare_eq_eq.1 hcompare
    push_cast at this
    rw [hmul] at this
    have hhalf : 2 * part = 1 := mul_right_cancel₀ hd'.ne' (by linarith)
    show _ + part = _ + 1 / 2
    linarith
  | gt =>
    have : (d : ℚ) < (2 * (n % d) : ℕ) := by exact_mod_cast Nat.compare_eq_gt.1 hcompare
    push_cast at this
    rw [hmul] at this
    exact ⟨by nlinarith, by linarith⟩

/-! ## Rounding to a format -/

theorem mantissa_ofMantissaAndAccuracy (m : ℕ) (a : Accuracy) :
    (ExtendedMantissa.ofMantissaAndAccuracy m a).mantissa = m := by
  rcases a with _ | _ | _ | _ <;> rfl

theorem accuracy_ofMantissaAndAccuracy (m : ℕ) (a : Accuracy) :
    (ExtendedMantissa.ofMantissaAndAccuracy m a).accuracy = a := by
  rcases a with _ | _ | _ | _ <;> rfl

theorem targetExponent_eq (m : ℕ) (e : ℤ) :
    Format.binary64.targetExponent (totalExponent m e) = max (m.log2 + e - 52) (-1074) := by
  show max ((m.log2 : ℤ) + 1 + e - (53 : ℕ)) (3 - 2 ^ (11 - 1) - (53 : ℕ)) = _
  omega

/-- The exponent that a number gets: no smaller one leaves it fewer than 54 bits, and no larger one
53 bits, unless it is the smallest there is. -/
structure IsExponent (q : ℚ) (t : ℤ) : Prop where
  least : -1074 ≤ t
  lt : q < 2 ^ (t + 53)
  le : t = -1074 ∨ 2 ^ (t + 52) ≤ q

theorem isExponent_targetExponent {q : ℚ} {m : ℕ} {e : ℤ} {a : Accuracy}
    (hcut : IsCut (q / 2 ^ e) m a)
    (he : e ≤ Format.binary64.targetExponent (totalExponent m e)) :
    IsExponent q (Format.binary64.targetExponent (totalExponent m e)) := by
  rw [targetExponent_eq] at he ⊢
  obtain ⟨hm, hm'⟩ := hcut.bounds
  have hpos := two_zpow_pos e
  rw [le_div_iff₀ hpos] at hm
  rw [div_lt_iff₀ hpos] at hm'
  obtain rfl | hne := Nat.eq_zero_or_pos m
  · -- nothing is left of the number, so its exponent is the smallest
    rw [Nat.log2_zero] at he ⊢
    refine ⟨le_max_right _ _, ?_, .inl (by omega)⟩
    rw [Nat.cast_zero, zero_add, one_mul] at hm'
    exact hm'.trans_le (two_zpow_le.2 (by omega))
  · have hlow : (2 : ℚ) ^ ((m.log2 : ℤ) + e) ≤ q := by
      refine le_trans ?_ hm
      rw [zpow_add₀ (by norm_num), zpow_natCast]
      exact mul_le_mul_of_nonneg_right (by exact_mod_cast Nat.log2_self_le hne.ne') hpos.le
    have hhigh : q < 2 ^ ((m.log2 + 1 : ℕ) + e) := by
      refine hm'.trans_le ?_
      rw [zpow_add₀ (by norm_num), zpow_natCast]
      exact mul_le_mul_of_nonneg_right (by exact_mod_cast Nat.lt_log2_self) hpos.le
    refine ⟨le_max_right _ _, hhigh.trans_le (two_zpow_le.2 (by omega)), ?_⟩
    obtain hmax | hmax := max_choice ((m.log2 : ℤ) + e - 52) (-1074)
    · refine .inr (le_trans (two_zpow_le.2 ?_) hlow)
      omega
    · exact .inl hmax

/-- **The exponent of a number that rounds to a double** is that of the double, or one less below a
power of two. -/
theorem IsExponent.eq_or {q : ℚ} {t : ℤ} (ht : IsExponent q t) {b : Binary} (hb : b.IsDouble)
    (hpos : 0 < b.mantissa) (hq : RoundsTo q b) :
    t = b.exponent ∨ b.mantissa = 2 ^ 52 ∧ t = b.exponent - 1 := by
  have hunit := two_zpow_pos b.exponent
  have hle : t ≤ b.exponent := by
    obtain rfl | hle := ht.le
    · exact hb.least
    · have := two_zpow_lt.1 (hle.trans_lt (hq.lt_two_zpow hb hpos))
      omega
  obtain hnormal | hleast := hb.normal
  · have hbound : ((2 : ℚ) ^ 52) ≤ b.mantissa := by exact_mod_cast hnormal
    have hge : b.exponent ≤ t + 1 := by
      have : (2 : ℚ) ^ (b.exponent + (51 : ℕ)) < 2 ^ (t + 53) := by
        rw [two_zpow_add]
        refine lt_of_lt_of_le ?_ ((hq.half_le hpos).trans ht.lt.le)
        exact mul_lt_mul_of_pos_right (by linarith) hunit
      have := two_zpow_lt.1 this
      omega
    by_cases heq : t = b.exponent
    · exact .inl heq
    · refine .inr ⟨?_, by omega⟩
      by_contra hne
      have hlarge : ((2 : ℚ) ^ 52) + 1 ≤ b.mantissa := by
        exact_mod_cast (by omega : 2 ^ 52 + 1 ≤ b.mantissa)
      have : (2 : ℚ) ^ (b.exponent + (52 : ℕ)) < 2 ^ (t + 53) := by
        rw [two_zpow_add]
        refine lt_of_le_of_lt ?_ ((hq.half_le hpos).trans_lt ht.lt)
        exact mul_le_mul_of_nonneg_right (by linarith) hunit.le
      have := two_zpow_lt.1 this
      omega
  · exact .inl (le_antisymm hle (hleast ▸ ht.least))

/-- Shifting a number to its exponent cuts it there. -/
theorem isCut_shiftToTargetExponent {q : ℚ} {m : ℕ} {e : ℤ} {a : Accuracy}
    (hcut : IsCut (q / 2 ^ e) m a)
    (he : e ≤ Format.binary64.targetExponent (totalExponent m e)) :
    ∃ em, shiftToTargetExponent Format.binary64 m e a =
        (em, Format.binary64.targetExponent (totalExponent m e)) ∧
      IsCut (q / 2 ^ Format.binary64.targetExponent (totalExponent m e)) em.mantissa
        em.accuracy := by
  unfold shiftToTargetExponent shiftToExponent
  generalize Format.binary64.targetExponent (totalExponent m e) = t at he ⊢
  have hshift : e + ((t - e).toNat : ℤ) = t := by omega
  refine ⟨_, Prod.ext rfl hshift, ?_⟩
  have hunit : (2 : ℚ) ^ t = 2 ^ e * 2 ^ (t - e).toNat := by
    rw [← hshift, two_zpow_add, hshift, mul_comm]
  rw [hunit, ← div_div]
  refine isCut_shiftRight ?_ _
  rw [mantissa_ofMantissaAndAccuracy, accuracy_ofMantissaAndAccuracy]
  exact hcut

theorem roundWithAccuracy_of {s : Sign} {m n : ℕ} {e t t' : ℤ} {a : Accuracy}
    {em em' : ExtendedMantissa} (hfirst : shiftToTargetExponent Format.binary64 m e a = (em, t))
    (hsecond : shiftToTargetExponent Format.binary64 em.roundedMantissa t .exact = (em', t'))
    (hm : em'.mantissa = n) (hn : 0 < n) :
    roundWithAccuracy Format.binary64 s m e a = .finite s n t' hn := by
  subst hm
  rw [roundWithAccuracy, hfirst]
  dsimp only
  rw [hsecond]
  exact dif_neg hn.ne'

theorem shiftToTargetExponent_exact {m : ℕ} {e : ℤ} {k : ℕ}
    (hk : (max (m.log2 + e - 52) (-1074) - e).toNat = k) :
    shiftToTargetExponent Format.binary64 m e .exact =
      ((⟨m, false, false⟩ : ExtendedMantissa) >>> k, e + k) := by
  subst hk
  rw [← targetExponent_eq]
  rfl

/-- **Rounding gives the double in whose interval the number lies.** -/
theorem roundWithAccuracy_eq {q : ℚ} {b : Binary} (hb : b.IsDouble) (hpos : 0 < b.mantissa)
    (hq : RoundsTo q b) (s : Sign) {m : ℕ} {e : ℤ} {a : Accuracy} (hcut : IsCut (q / 2 ^ e) m a)
    (he : e ≤ Format.binary64.targetExponent (totalExponent m e)) :
    roundWithAccuracy Format.binary64 s m e a = .finite s b.mantissa b.exponent hpos := by
  have ht := isExponent_targetExponent hcut he
  obtain ⟨em, hshift, hcut'⟩ := isCut_shiftToTargetExponent hcut he
  generalize Format.binary64.targetExponent (totalExponent m e) = t at ht hshift hcut'
  obtain rfl | ⟨htwo, rfl⟩ := ht.eq_or hb hpos hq
  · have hunit := two_zpow_pos b.exponent
    have hround : em.roundedMantissa = b.mantissa :=
      hcut'.round_eq ((le_div_iff₀ hunit).2 (hq.half_le hpos))
        ((div_le_iff₀ hunit).2 (hq.bounds hpos).2)
        (fun hodd => ⟨(lt_div_iff₀ hunit).2 (hq.strict hodd).1,
          (div_lt_iff₀ hunit).2 (hq.strict hodd).2⟩)
    have hagain : shiftToTargetExponent Format.binary64 em.roundedMantissa b.exponent .exact =
        (⟨b.mantissa, false, false⟩, b.exponent) := by
      have hlog : b.mantissa.log2 < 53 := (Nat.log2_lt hpos.ne').2 hb.lt
      have hleast := hb.least
      rw [hround, shiftToTargetExponent_exact (by omega : _ = 0)]
      exact Prod.ext rfl (add_zero _)
    exact roundWithAccuracy_of hshift hagain rfl hpos
  · have hunit := two_zpow_pos (b.exponent - 1)
    have hunits : (2 : ℚ) ^ b.exponent = 2 ^ 1 * 2 ^ (b.exponent - 1) := by
      rw [← two_zpow_add, Nat.cast_one, sub_add_cancel]
    have hquarters : b.lowerQuarters = 1 := if_pos ⟨htwo, by have := ht.least; omega⟩
    have hround : em.roundedMantissa = 2 ^ 53 := by
      refine hcut'.round_eq ?_ ?_ ?_
      · rw [le_div_iff₀ hunit]
        refine le_trans (le_of_eq ?_) (hq.bounds hpos).1
        rw [htwo, hquarters, hunits]
        push_cast
        ring
      · rw [div_le_iff₀ hunit]
        have hlt := ht.lt
        rw [show b.exponent - 1 + 53 = b.exponent - 1 + (53 : ℕ) from rfl, two_zpow_add] at hlt
        push_cast
        linarith
      · intro hodd
        norm_num at hodd
    have hagain : shiftToTargetExponent Format.binary64 em.roundedMantissa (b.exponent - 1)
        .exact = (⟨2 ^ 52, false, false⟩, b.exponent) := by
      have hleast := ht.least
      have hamount : (max (((2 ^ 53 : ℕ).log2 : ℤ) + (b.exponent - 1) - 52) (-1074) -
          (b.exponent - 1)).toNat = 1 := by
        rw [Nat.log2_two_pow]
        omega
      rw [hround, shiftToTargetExponent_exact hamount]
      exact Prod.ext rfl (sub_add_cancel _ _)
    exact roundWithAccuracy_of hshift hagain htwo.symm hpos

/-! ## The double next to a number -/

theorem exists_isExponent {q : ℚ} (hq : 0 < q) : ∃ t, IsExponent q t := by
  have hlow := Int.zpow_log_le_self (b := 2) (by decide) hq
  have hhigh := Int.lt_zpow_succ_log_self (b := 2) (by decide) q
  push_cast at hlow hhigh
  refine ⟨max (Int.log 2 q - 52) (-1074), le_max_right _ _,
    hhigh.trans_le (two_zpow_le.2 (by omega)), ?_⟩
  obtain hmax | hmax := max_choice (Int.log 2 q - 52) (-1074)
  · rw [hmax, sub_add_cancel]
    exact .inr hlow
  · exact .inl hmax

/-- A number has a whole number next to it: of two equally near ones, the even one. -/
theorem exists_round {r : ℚ} (hr : 0 ≤ r) :
    ∃ n : ℕ, n - 1 / 2 ≤ r ∧ r ≤ n + 1 / 2 ∧ (n % 2 = 1 → n - 1 / 2 < r ∧ r < n + 1 / 2) := by
  have hfloor := Nat.floor_le hr
  have hnext := Nat.lt_floor_add_one r
  obtain hlt | heq | hgt := lt_trichotomy r (⌊r⌋₊ + 1 / 2)
  · exact ⟨⌊r⌋₊, by linarith, hlt.le, fun _ => ⟨by linarith, hlt⟩⟩
  · obtain heven | hodd := Nat.mod_two_eq_zero_or_one ⌊r⌋₊
    · exact ⟨⌊r⌋₊, by linarith, heq.le, fun hodd => absurd hodd (by omega)⟩
    · refine ⟨⌊r⌋₊ + 1, ?_, ?_, fun hodd' => absurd hodd' (by omega)⟩ <;> push_cast <;> linarith
  · refine ⟨⌊r⌋₊ + 1, ?_, ?_, fun _ => ⟨?_, ?_⟩⟩ <;> push_cast <;> linarith

/-- A number rounds to the double of its exponent and the whole number next to it. -/
theorem roundsTo_of_isExponent {q : ℚ} {b : Binary} (ht : IsExponent q b.exponent)
    (hpos : 0 < b.mantissa) (hlow : (b.mantissa - 1 / 2) * 2 ^ b.exponent ≤ q)
    (hhigh : q ≤ (b.mantissa + 1 / 2) * 2 ^ b.exponent)
    (hodd : b.mantissa % 2 = 1 → (b.mantissa - 1 / 2) * 2 ^ b.exponent < q ∧
      q < (b.mantissa + 1 / 2) * 2 ^ b.exponent) : RoundsTo q b := by
  unfold RoundsTo
  rw [b.lower_value hpos, b.upper_value]
  by_cases hquarters : b.mantissa = 2 ^ 52 ∧ -1074 < b.exponent
  · -- below a power of two there is only a quarter of a place, but the number is not below it
    have hle := ht.le.resolve_left (by omega)
    rw [show b.exponent + 52 = b.exponent + (52 : ℕ) from rfl, two_zpow_add] at hle
    rw [if_pos (by rw [hquarters.1]; rfl), show b.lowerQuarters = 1 from if_pos hquarters]
    refine ⟨le_trans (mul_le_mul_of_nonneg_right ?_ (two_zpow_pos _).le) hle, hhigh⟩
    rw [hquarters.1]
    norm_num
  · rw [show b.lowerQuarters = 2 from if_neg hquarters,
      show (b.mantissa : ℚ) - (2 : ℕ) / 4 = b.mantissa - 1 / 2 by norm_num]
    split
    · exact ⟨hlow, hhigh⟩
    · exact hodd (by omega)

/-- A number rounds to a power of two from below, where its own exponent is one less. -/
theorem roundsTo_of_carry {q : ℚ} {t : ℤ} (ht : IsExponent q t)
    (hlow : ((2 : ℚ) ^ 53 - 1 / 2) * 2 ^ t ≤ q) : RoundsTo q ⟨2 ^ 52, t + 1⟩ := by
  have hleast := ht.least
  have hlt := ht.lt
  have hunit := two_zpow_pos t
  have hdouble : (2 : ℚ) ^ (t + 1) = 2 * 2 ^ t := two_zpow_add t 1
  rw [show t + 53 = t + (53 : ℕ) from rfl, two_zpow_add] at hlt
  unfold RoundsTo
  rw [if_pos (show 2 ^ 52 % 2 = 0 by decide),
    Binary.lower_value _ (show 0 < 2 ^ 52 by decide), Binary.upper_value]
  have hquarters : (Binary.mk (2 ^ 52) (t + 1)).lowerQuarters = 1 :=
    if_pos ⟨rfl, by show -1074 < t + 1; omega⟩
  rw [hquarters]
  dsimp only
  rw [hdouble]
  push_cast
  constructor <;> nlinarith

/-- The largest double and half a place more. -/
def roundingLimit : ℚ :=
  (2 ^ 53 - 1 / 2) * 2 ^ (971 : ℤ)

/-- **Every number has a double it rounds to**, if it is neither below the least double nor as far
above the largest as half a place. -/
theorem exists_roundsTo {q : ℚ} (hleast : 2 ^ (-1074 : ℤ) ≤ q) (hmost : q < roundingLimit) :
    ∃ b : Binary, b.IsDouble ∧ 0 < b.mantissa ∧ RoundsTo q b := by
  have hq := (two_zpow_pos _).trans_le hleast
  obtain ⟨t, ht⟩ := exists_isExponent hq
  have hunit := two_zpow_pos t
  have ht' := ht.least
  obtain ⟨n, hlow, hhigh, hodd⟩ := exists_round (div_nonneg hq.le hunit.le)
  rw [le_div_iff₀ hunit] at hlow
  rw [div_le_iff₀ hunit] at hhigh
  rw [lt_div_iff₀ hunit, div_lt_iff₀ hunit] at hodd
  have hlt := ht.lt
  rw [show t + 53 = t + (53 : ℕ) from rfl, two_zpow_add] at hlt
  have hle : n ≤ 2 ^ 53 := by
    have hless : (n : ℚ) - 1 / 2 < 2 ^ 53 := lt_of_mul_lt_mul_right (hlow.trans_lt hlt) hunit.le
    have : (n : ℚ) < (2 ^ 53 + 1 : ℕ) := by push_cast; linarith
    exact Nat.lt_succ_iff.1 (by exact_mod_cast this)
  have htop : t ≤ 971 := by
    obtain rfl | hle := ht.le
    · decide
    · have hless : q < 2 ^ ((971 : ℤ) + (53 : ℕ)) := by
        rw [two_zpow_add]
        exact hmost.trans (mul_lt_mul_of_pos_right (by norm_num) (two_zpow_pos _))
      have := two_zpow_lt.1 (hle.trans_lt hless)
      omega
  obtain hcarry | hno := hle.eq_or_lt
  · rw [hcarry] at hlow
    push_cast at hlow
    refine ⟨⟨2 ^ 52, t + 1⟩, ⟨show 2 ^ 52 < 2 ^ 53 by decide, show -1074 ≤ t + 1 by omega, ?_,
      .inl le_rfl⟩, show 0 < 2 ^ 52 by decide, roundsTo_of_carry ht hlow⟩
    show t + 1 ≤ 971
    by_contra hlarge
    obtain rfl : t = 971 := by omega
    exact absurd hmost (not_lt.2 hlow)
  · have hnormal : 2 ^ 52 ≤ n ∨ t = -1074 := by
      obtain hbottom | hle := ht.le
      · exact .inr hbottom
      · rw [show t + 52 = t + (52 : ℕ) from rfl, two_zpow_add] at hle
        have hless : (2 : ℚ) ^ 52 ≤ n + 1 / 2 := le_of_mul_le_mul_right (hle.trans hhigh) hunit
        have : ((2 ^ 52 : ℕ) : ℚ) < (n + 1 : ℕ) := by push_cast; linarith
        exact .inl (Nat.lt_succ_iff.1 (by exact_mod_cast this))
    have hpos : 0 < n := by
      obtain hlarge | rfl := hnormal
      · omega
      · have hone : (1 : ℚ) ≤ n + 1 / 2 :=
          le_of_mul_le_mul_right ((one_mul _).le.trans (hleast.trans hhigh)) hunit
        by_contra hzero
        rw [Nat.eq_zero_of_not_pos hzero] at hone
        norm_num at hone
    exact ⟨⟨n, t⟩, ⟨hno, ht', htop, hnormal⟩, hpos, roundsTo_of_isExponent ht hpos hlow hhigh hodd⟩

/-! ## Products and quotients -/

section Arithmetic

variable {q : ℚ} {b : Binary} {m₁ m₂ : ℕ} {e₁ e₂ : ℤ}

/-- **A product is rounded once.** -/
theorem mul_eq_of_roundsTo (hb : b.IsDouble) (hpos : 0 < b.mantissa) (hq : RoundsTo q b)
    (h₁ : 0 < m₁) (h₂ : 0 < m₂) (hvalue : q = m₁ * 2 ^ e₁ * (m₂ * 2 ^ e₂))
    (hbits : 2 ^ 52 ≤ m₁ * m₂) :
    UnpackedFloat.mul Format.binary64 (.finite .positive m₁ e₁ h₁) (.finite .positive m₂ e₂ h₂) =
      .finite .positive b.mantissa b.exponent hpos := by
  refine roundWithAccuracy_eq hb hpos hq _ ?_ ?_
  · have hunit := two_zpow_pos (e₁ + e₂)
    show q / 2 ^ (e₁ + e₂) = ((m₁ * m₂ : ℕ) : ℚ)
    rw [div_eq_iff hunit.ne', hvalue, zpow_add₀ (by norm_num)]
    push_cast
    ring
  · have hlog : 52 ≤ (m₁ * m₂).log2 := (Nat.le_log2 (Nat.mul_pos h₁ h₂).ne').2 hbits
    rw [targetExponent_eq]
    omega

theorem isCut_quotient (h₂ : 0 < m₂) (hvalue : q = m₁ * 2 ^ e₁ / (m₂ * 2 ^ e₂)) {t : ℤ} {k : ℕ}
    (hk : e₁ - e₂ = t + k) :
    IsCut (q / 2 ^ t) (m₁ <<< k / m₂) (accuracyOfFraction (m₁ <<< k % m₂) m₂) := by
  have hunit : (2 : ℚ) ^ e₁ = 2 ^ k * 2 ^ t * 2 ^ e₂ := by
    rw [← two_zpow_add, ← hk, ← zpow_add₀ (by norm_num), sub_add_cancel]
  have hquotient : q / 2 ^ t = ((m₁ <<< k : ℕ) : ℚ) / m₂ := by
    have hone := (two_zpow_pos t).ne'
    have htwo := (two_zpow_pos e₂).ne'
    have hthree : (m₂ : ℚ) ≠ 0 := by exact_mod_cast h₂.ne'
    rw [hvalue, hunit, Nat.shiftLeft_eq]
    push_cast
    field_simp
  rw [hquotient]
  exact isCut_div _ h₂

theorem two_pow_le_quotient (h₁ : 0 < m₁) (h₂ : 0 < m₂) {k : ℕ}
    (hk : m₂.log2 + 53 ≤ m₁.log2 + k) : 2 ^ 52 ≤ m₁ <<< k / m₂ := by
  rw [Nat.le_div_iff_mul_le h₂, Nat.shiftLeft_eq]
  calc 2 ^ 52 * m₂ ≤ 2 ^ 52 * 2 ^ (m₂.log2 + 1) := Nat.mul_le_mul_left _ Nat.lt_log2_self.le
    _ = 2 ^ (m₂.log2 + 53) := by rw [← pow_add]; congr 1; omega
    _ ≤ 2 ^ (m₁.log2 + k) := Nat.pow_le_pow_right (by decide) hk
    _ = 2 ^ m₁.log2 * 2 ^ k := pow_add _ _ _
    _ ≤ m₁ * 2 ^ k := Nat.mul_le_mul_right _ (Nat.log2_self_le h₁.ne')

/-- **A quotient is rounded once.** It is taken with enough bits to be rounded from. -/
theorem div_eq_of_roundsTo (hb : b.IsDouble) (hpos : 0 < b.mantissa) (hq : RoundsTo q b)
    (h₁ : 0 < m₁) (h₂ : 0 < m₂) (hvalue : q = m₁ * 2 ^ e₁ / (m₂ * 2 ^ e₂)) :
    UnpackedFloat.div Format.binary64 (.finite .positive m₁ e₁ h₁) (.finite .positive m₂ e₂ h₂) =
      .finite .positive b.mantissa b.exponent hpos := by
  have htarget : Format.binary64.targetExponent (totalExponent m₁ e₁ - totalExponent m₂ e₂) =
      max ((m₁.log2 : ℤ) + e₁ - m₂.log2 - e₂ - 53) (-1074) := by
    show max ((m₁.log2 : ℤ) + 1 + e₁ - (m₂.log2 + 1 + e₂) - (53 : ℕ))
      (3 - 2 ^ (11 - 1) - (53 : ℕ)) = _
    omega
  unfold UnpackedFloat.div divCore
  dsimp only
  rw [htarget]
  generalize ht : min (e₁ - e₂) (max ((m₁.log2 : ℤ) + e₁ - m₂.log2 - e₂ - 53) (-1074)) = t
  generalize hk : (e₁ - e₂ - t).toNat = k
  refine roundWithAccuracy_eq hb hpos hq _ (isCut_quotient h₂ hvalue (by omega)) ?_
  rw [targetExponent_eq]
  by_cases hleast : t ≤ -1074
  · omega
  · have hbits := two_pow_le_quotient h₁ h₂ (k := k) (by omega)
    have hlog := (Nat.le_log2 (by omega)).2 hbits
    omega

end Arithmetic

section Floats

variable {x y : Float} {a b c : Binary}

theorem mul_eq_toFloat (hx : Double.ofFloat x = .finite false a)
    (hy : Double.ofFloat y = .finite false c) (ha : 2 ^ 52 ≤ a.mantissa) (hc : 0 < c.mantissa)
    (hb : b.IsDouble) (hpos : 0 < b.mantissa) (hq : RoundsTo (a.value * c.value) b) :
    x * y = (Double.finite false b).toFloat := by
  have ha' : 0 < a.mantissa := by omega
  show Float.ofModel (Float.Model.pack (UnpackedFloat.mul _ x.toModel.unpack y.toModel.unpack)) = _
  rw [unpack_toModel, unpack_toModel, hx, hy, Double.unpacked_of_pos _ ha',
    Double.unpacked_of_pos _ hc, Double.toFloat, Double.unpacked_of_pos _ hpos]
  exact congrArg (fun u => Float.ofModel (Float.Model.pack u))
    (mul_eq_of_roundsTo hb hpos hq ha' hc rfl (ha.trans (Nat.le_mul_of_pos_right _ hc)))

theorem div_eq_toFloat (hx : Double.ofFloat x = .finite false a)
    (hy : Double.ofFloat y = .finite false c) (ha : 0 < a.mantissa) (hc : 0 < c.mantissa)
    (hb : b.IsDouble) (hpos : 0 < b.mantissa) (hq : RoundsTo (a.value / c.value) b) :
    x / y = (Double.finite false b).toFloat := by
  show Float.ofModel (Float.Model.pack (UnpackedFloat.div _ x.toModel.unpack y.toModel.unpack)) = _
  rw [unpack_toModel, unpack_toModel, hx, hy, Double.unpacked_of_pos _ ha,
    Double.unpacked_of_pos _ hc, Double.toFloat, Double.unpacked_of_pos _ hpos]
  exact congrArg (fun u => Float.ofModel (Float.Model.pack u))
    (div_eq_of_roundsTo hb hpos hq ha hc rfl)

end Floats

end Pagewright
