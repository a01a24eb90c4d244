import Pagewright.Proofs.Json.Numbers
import Pagewright.Proofs.Number.Scaling

/-!
# How precisely numbers are read

The reader rounds more than once: the digits of a number become a double, and so does the power of
ten that puts the point in its place, before one is multiplied with the other or divided by it. So a
double that was written with the digits of its shortest decimal need not be read as itself. Here it
is said what it is read as (`rereadFloat`), that this is never too large to be read, and that
decimals of fifteen digits come back as they were (`rereadFloat_eq_self`).
-/

namespace Pagewright.Json

/-! ## What a number comes to in doubles -/

/-- **What `n · 10 ^ e` comes to in doubles.** The double nearest to `n` is multiplied with the one
nearest to the power of ten, or divided by it. There is none near to a power beyond `10 ^ 308`, so
that one is divided off first. -/
def inDoubles (n : ℕ) (e : ℤ) : Float :=
  if 0 ≤ e then Float.ofNat n * Float.ofScientific 1 false e.toNat
  else if -308 ≤ e then Float.ofNat n / Float.ofScientific 1 false (-e).toNat
  else Float.ofNat n / Float.ofScientific 1 false 308 / Float.ofScientific 1 false (-e - 308).toNat

/-- **What a finite double is read as** once it has been written: the parts that its shortest
decimal is written with, put together in doubles. -/
def rereadFloat (x : Float) : Float :=
  match Double.ofFloat x with
  | .finite negative b =>
    if b.mantissa = 0 then x
    else
      let parts := (Decimal.shortest .toEven b).written
      if negative then -inDoubles parts.1 parts.2 else inDoubles parts.1 parts.2
  | _ => x

section Parts

variable {b : Binary} {d : Decimal}

/-- The whole number that is written has at most seventeen digits. -/
theorem written_lt (hd : d.IsNormal) (hlength : d.digits.length ≤ 17) : d.written.1 < 10 ^ 17 := by
  unfold Decimal.written
  split
  · exact hd.mul_lt_pow (by omega)
  · exact hd.lt_pow.trans_le (Nat.pow_le_pow_right (by decide) hlength)

/-- The exponents of decimals that round to a double: there is a power of ten near to any of them,
or one is left when `10 ^ 308` has been divided off. -/
theorem exponent_bounds_of_roundsTo {n : ℕ} {e : ℤ} (hb : b.IsDouble) (hpos : 0 < b.mantissa)
    (hq : RoundsTo (n * 10 ^ e) b) (hn : n < 10 ^ 17) : -616 ≤ e ∧ e ≤ 308 := by
  have hnpos := pos_of_roundsTo hb hpos hq
  have hone : (1 : ℚ) ≤ n := by exact_mod_cast hnpos
  have hmost := hb.most
  constructor
  · by_contra hsmall
    have hn' : (n : ℚ) ≤ 10 ^ (17 : ℤ) := by exact_mod_cast hn.le
    have hle : (n : ℚ) * 10 ^ e ≤ 10 ^ (-(331 : ℕ) : ℤ) := by
      refine (mul_le_mul_of_nonneg_right hn' (ten_zpow_pos e).le).trans ?_
      rw [← zpow_add₀ (by norm_num)]
      exact zpow_le_zpow_right₀ (by norm_num) (by omega)
    have hleast : (2 : ℚ) ^ (-((1075 : ℕ) : ℤ)) ≤ n * 10 ^ e := hq.least_le hb hpos
    have hless := two_pow_lt_ten_pow (c := 1) (d := 1) (i := 1075) (j := 331) (by decide +kernel)
    rw [Nat.cast_one, one_mul, one_mul] at hless
    refine absurd (hleast.trans hle) (not_le.2 ?_)
    rw [zpow_neg, zpow_neg, zpow_natCast, zpow_natCast]
    exact inv_strictAnti₀ (pow_pos (by norm_num) _) hless
  · by_contra hlarge
    have hle : (10 : ℚ) ^ ((309 : ℕ) : ℤ) ≤ n * 10 ^ e :=
      (zpow_le_zpow_right₀ (by norm_num) (by omega)).trans
        (le_mul_of_one_le_left (ten_zpow_pos e).le hone)
    have hlt : (n : ℚ) * 10 ^ e < 2 ^ ((1024 : ℕ) : ℤ) :=
      (hq.lt_two_zpow hb hpos).trans_le (two_zpow_le.2 (by omega))
    exact absurd (hle.trans_lt hlt) (not_lt.2 (two_zpow_le_ten_zpow (by decide +kernel)))

/-- Whole numbers of seventeen digits and powers of ten up to `10 ^ 308` are not too large. -/
theorem lt_roundingLimit {q : ℚ} (hq : q ≤ 10 ^ 308) : q < roundingLimit := by
  have hroom := ten_pow_le_two_pow (c := 1) (d := 2 ^ 53 - 1) (i := 308) (j := 971)
    (by decide +kernel)
  have hunit : (0 : ℚ) < 2 ^ 971 := pow_pos (by norm_num) _
  rw [roundingLimit, two_zpow_last]
  generalize (2 : ℚ) ^ 971 = unit at hroom hunit ⊢
  generalize (10 : ℚ) ^ 308 = power at hq hroom
  norm_num at hroom
  linarith

/-- The whole number that is written, as a double. -/
theorem exists_ofFloat_ofNat {n : ℕ} (hpos : 0 < n) (hn : n < 10 ^ 17) :
    ∃ a : Binary, a.IsDouble ∧ 2 ^ 52 ≤ a.mantissa ∧ RoundsTo n a ∧
      Double.ofFloat (Float.ofNat n) = .finite false a := by
  have hle : (n : ℚ) ≤ 10 ^ 308 := by
    have hn' : (n : ℚ) ≤ 10 ^ 17 := by exact_mod_cast hn.le
    exact hn'.trans (pow_le_pow_right₀ (by norm_num) (by decide))
  obtain ⟨a, ha, hnormal, hq, hfloat⟩ := exists_ofScientific (k := 0) hpos
    (by rw [Nat.cast_zero, zpow_zero, mul_one]; exact lt_roundingLimit hle)
  rw [Nat.cast_zero, zpow_zero, mul_one] at hq
  exact ⟨a, ha, hnormal, hq, hfloat⟩

/-- A power of ten, as a double. -/
theorem exists_ofFloat_power {k : ℕ} (hk : k ≤ 308) :
    ∃ p : Binary, p.IsDouble ∧ 2 ^ 52 ≤ p.mantissa ∧ RoundsTo (10 ^ k) p ∧
      Double.ofFloat (Float.ofScientific 1 false k) = .finite false p := by
  have hle : (10 : ℚ) ^ k ≤ 10 ^ 308 := pow_le_pow_right₀ (by norm_num) hk
  obtain ⟨p, hp, hnormal, hq, hfloat⟩ := exists_ofScientific (m := 1) (k := k) (by decide)
    (by rw [Nat.cast_one, one_mul, zpow_natCast]; exact lt_roundingLimit hle)
  rw [Nat.cast_one, one_mul, zpow_natCast] at hq
  exact ⟨p, hp, hnormal, hq, hfloat⟩

/-- **No double that was written is too large to be read.** -/
theorem isInf_inDoubles_eq_false {n k : ℕ} (hb : b.IsDouble) (hpos : 0 < b.mantissa)
    (hne : b ≠ .largest) (hq : RoundsTo (n * 10 ^ (k : ℤ)) b) (hn : n < 10 ^ 17) :
    (inDoubles n k).isInf = false := by
  have hnpos := pos_of_roundsTo hb hpos hq
  obtain ⟨-, hk⟩ := exponent_bounds_of_roundsTo hb hpos hq hn
  obtain ⟨a, ha, hanormal, hna, hx⟩ := exists_ofFloat_ofNat hnpos hn
  obtain ⟨p, hp, hpnormal, hpk, hy⟩ := exists_ofFloat_power (k := k) (by omega)
  have hvalue := hq.le_lower_largest hb hpos hne
  rw [zpow_natCast] at hvalue
  unfold inDoubles
  rw [if_pos (Int.natCast_nonneg k), Int.toNat_natCast]
  refine isInf_mul_eq_false hx hy hanormal (by omega) ?_
    (mul_value_lt_limit ha hanormal hna hp hpnormal hpk hnpos hn hvalue)
  have ha2 := hna.le_two_mul (by omega)
  have hp2 := hpk.le_two_mul (by omega)
  have hone : (1 : ℚ) ≤ n := by exact_mod_cast hnpos
  have hten : (1 : ℚ) ≤ 10 ^ k := one_le_pow₀ (by norm_num)
  have hquarter : (2 : ℚ) ^ (-1074 : ℤ) ≤ 1 / 4 := by
    rw [show (1 / 4 : ℚ) = 2 ^ (-2 : ℤ) by norm_num]
    exact two_zpow_le.2 (by decide)
  nlinarith

theorem beq_zero_eq_false {x : Float} {a : Binary} (hx : Double.ofFloat x = .finite false a)
    (ha : 0 < a.mantissa) : (x == 0) = false := by
  show (x.toModel.unpack.beq (0 : Float).toModel.unpack) = false
  rw [unpack_toModel x, hx, Double.unpacked_of_pos _ ha]
  rfl

/-- **The reader puts the parts of a number together in doubles.** -/
theorem scaled?_eq {n : ℕ} {e : ℤ} (hpos : 0 < n) (hn : n < 10 ^ 17) (hleast : -616 ≤ e)
    (hmost : e ≤ 308) (hinf : 0 ≤ e → (inDoubles n e).isInf = false) :
    Reader.scaled? n e = some (inDoubles n e) := by
  unfold Reader.scaled?
  dsimp only
  by_cases hneg : e < 0
  · rw [if_pos hneg]
    unfold inDoubles
    rw [if_neg (not_le.2 hneg)]
    by_cases hnear : -308 ≤ e
    · have hsteps : (e.natAbs - 1) / Reader.scaleLimit = 0 :=
        Nat.div_eq_of_lt (show e.natAbs - 1 < 308 by omega)
      have hplaces : e.natAbs = (-e).toNat := by omega
      rw [if_pos hnear, hsteps, hplaces]
      rfl
    · have hsteps : (e.natAbs - 1) / Reader.scaleLimit = 1 :=
        Nat.div_eq_of_lt_le (show 1 * 308 ≤ e.natAbs - 1 by omega)
          (show e.natAbs - 1 < (1 + 1) * 308 by omega)
      have hplaces : e.natAbs - Reader.scaleLimit = (-e - 308).toNat := by
        show e.natAbs - 308 = _
        omega
      obtain ⟨a, -, hanormal, -, hx⟩ := exists_ofFloat_ofNat hpos hn
      rw [if_neg hnear, hsteps, Reader.scaleDown, beq_zero_eq_false hx (by omega)]
      rw [← hplaces]
      rfl
  · have hplaces : e.natAbs = e.toNat := by omega
    have hinf' := hinf (not_lt.1 hneg)
    unfold inDoubles at hinf' ⊢
    rw [if_pos (not_lt.1 hneg)] at hinf' ⊢
    rw [if_neg hneg, if_pos (show e.natAbs ≤ Reader.scaleLimit from (by omega : e.natAbs ≤ 308)),
      hplaces]
    exact if_neg (Bool.eq_false_iff.1 hinf')

end Parts

/-! ## Doubles -/

theorem sign_toFloat (negative : Bool) {b : Binary} (hb : b.IsDouble) :
    (if negative then -(Double.finite false b).toFloat else (Double.finite false b).toFloat) =
      (Double.finite negative b).toFloat := by
  cases negative with
  | false => rfl
  | true => exact neg_toFloat hb

theorem rereadFloat_toFloat {b : Binary} (hb : b.IsDouble) (hpos : 0 < b.mantissa) (negative : Bool)
    {d : Decimal} (hd : Decimal.shortest .toEven b = d) :
    rereadFloat (Double.finite negative b).toFloat =
      if negative then -inDoubles d.written.1 d.written.2
      else inDoubles d.written.1 d.written.2 := by
  subst hd
  unfold rereadFloat
  rw [Double.ofFloat_toFloat negative hb]
  exact if_neg hpos.ne'

/-- The text of a double behind its sign. -/
def magnitudeText (b : Binary) : List Char :=
  if b.mantissa = 0 then "0.0".toList else decimalText (Decimal.shortest .toEven b)

theorem exists_head_magnitudeText {b : Binary} (hb : b.IsDouble) :
    ∃ c rest, magnitudeText b = c :: rest ∧ c.isDigit := by
  unfold magnitudeText
  split
  · exact ⟨'0', ['.', '0'], rfl, rfl⟩
  · exact Reader.exists_head_decimalText (roundsTo_shortest hb (Nat.pos_of_ne_zero ‹_›) .toEven).1

theorem eq_zero_of_isDouble {b : Binary} (hb : b.IsDouble) (hzero : b.mantissa = 0) :
    b = ⟨0, -1074⟩ := by
  have hexponent : b.exponent = -1074 := hb.normal.resolve_left (by rw [hzero]; decide)
  rw [← hzero, ← hexponent]

section Shortest

variable {b : Binary} {d : Decimal}

/-- What is known of the parts that a double is written with. -/
theorem written_shortest (hb : b.IsDouble) (hpos : 0 < b.mantissa)
    (hd : Decimal.shortest .toEven b = d) :
    RoundsTo (d.written.1 * 10 ^ d.written.2) b ∧ d.written.1 < 10 ^ 17 ∧ -616 ≤ d.written.2 ∧
      d.written.2 ≤ 308 := by
  subst hd
  obtain ⟨hnormal, hq⟩ := roundsTo_shortest hb hpos .toEven
  have hn := written_lt hnormal (Decimal.length_shortest_le hb hpos .toEven)
  rw [← Decimal.written_value] at hq
  exact ⟨hq, hn, exponent_bounds_of_roundsTo hb hpos hq hn⟩

/-- **The parts of a double that is not zero** are put together in doubles. -/
theorem scaled?_shortest (hb : b.IsDouble) (hpos : 0 < b.mantissa)
    (hd : Decimal.shortest .toEven b = d) :
    Reader.scaled? d.written.1 d.written.2 = some (inDoubles d.written.1 d.written.2) := by
  by_cases hlargest : b = .largest
  · have hparts : (Decimal.shortest .toEven .largest).written = (17976931348623157, 292) := by
      decide +kernel
    rw [← hd, hlargest, hparts]
    decide +kernel
  · obtain ⟨hq, hn, hleast, hmost⟩ := written_shortest hb hpos hd
    refine scaled?_eq (pos_of_roundsTo hb hpos hq) hn hleast hmost fun he => ?_
    obtain ⟨k, hk⟩ := Int.eq_ofNat_of_zero_le he
    rw [hk] at hq ⊢
    exact isInf_inDoubles_eq_false hb hpos hlargest hq hn

/-- The exponent of a double is short enough to be read. -/
theorem natAbs_point_le (hb : b.IsDouble) (hpos : 0 < b.mantissa)
    (hd : Decimal.shortest .toEven b = d) : (d.point - 1).natAbs ≤ Reader.exponentLimit := by
  have hlength := Decimal.length_shortest_le hb hpos .toEven
  obtain ⟨-, -, hleast, hmost⟩ := written_shortest hb hpos hd
  rw [hd] at hlength
  unfold Decimal.written at hleast hmost
  show _ ≤ 2 ^ 31 - 1
  split at hleast
  · omega
  · rw [if_neg ‹_›] at hmost
    dsimp only at hleast hmost
    omega

end Shortest

/-- **A double that was written is read as what its parts come to in doubles.** -/
theorem reads_magnitudeText {b : Binary} (hb : b.IsDouble) (negative : Bool) {after : List Char}
    (hafter : Reader.Ends after) :
    (Reader.number negative).Reads (magnitudeText b) after
      (.float (rereadFloat (Double.finite negative b).toFloat)) := by
  unfold magnitudeText
  split
  · next hzero =>
    obtain rfl := eq_zero_of_isDouble hb hzero
    have hsame : rereadFloat (Double.finite negative ⟨0, -1074⟩).toFloat =
        if negative then -inDoubles 0 (-1) else inDoubles 0 (-1) := by
      cases negative <;> decide +kernel
    rw [hsame]
    show (Reader.number negative).Reads (['0'] ++ '.' :: ['0']) after _
    exact Reader.reads_fraction Reader.isWhole_zero Reader.isWhole_zero.isDigit (by decide) hafter
      rfl rfl (by decide) (Reader.reads_pure _ after)
  · next hne =>
    have hpos := Nat.pos_of_ne_zero hne
    obtain ⟨hnormal, -⟩ := roundsTo_shortest hb hpos .toEven
    generalize hd : Decimal.shortest .toEven b = d at hnormal
    obtain ⟨-, hn, -, -⟩ := written_shortest hb hpos hd
    refine Reader.reads_decimalText hnormal (natAbs_point_le hb hpos hd)
      (hn.le.trans (by decide)) ?_ hafter
    rw [rereadFloat_toFloat hb hpos negative hd]
    unfold Reader.decimal
    rw [scaled?_shortest hb hpos hd]
    exact Reader.reads_pure _ after

/-- The text of a finite double: the sign, and the double without it. -/
theorem toList_floatText {x : Float} (hx : x.isFinite) :
    ∃ negative b, b.IsDouble ∧ (Double.finite negative b).toFloat = x ∧
      (floatText x).toList = if negative then '-' :: magnitudeText b else magnitudeText b := by
  obtain ⟨negative, b, hfinite⟩ := exists_of_isFinite hx
  obtain ⟨hb, htoFloat⟩ := Double.toFloat_eq hfinite
  refine ⟨negative, b, hb, htoFloat, ?_⟩
  unfold floatText
  rw [hfinite]
  exact String.toList_ofList

/-! ## Doubles that come back -/

/-- A decimal that is a double is taken for that double. -/
theorem ofFloat_ofScientific_of_value {m k : ℕ} {c : Binary} (hc : c.IsDouble)
    (hpos : 0 < c.mantissa) (hvalue : c.value = m * 10 ^ (k : ℤ)) :
    Double.ofFloat (Float.ofScientific m false k) = .finite false c := by
  refine ofFloat_ofScientific hc hpos ?_
  rw [← hvalue]
  exact Binary.roundsTo_value hpos

/-- **A decimal whose two parts are doubles is rounded only once.** The whole number may have 54
bits if it is even. -/
theorem inDoubles_eq {b : Binary} {m j k : ℕ} (hb : b.IsDouble) (hpos : 0 < b.mantissa)
    (hq : RoundsTo ((m * 2 ^ j : ℕ) * 10 ^ (-(k : ℤ))) b) (hm : m < 2 ^ 53) (hj : j ≤ 1)
    (hkpos : 0 < k) (hk : k ≤ 22) :
    inDoubles (m * 2 ^ j) (-(k : ℤ)) = (Double.finite false b).toFloat := by
  have hmpos : 0 < m := Nat.pos_of_mul_pos_right (pos_of_roundsTo hb hpos hq)
  have hfive : 0 < 5 ^ k := Nat.pow_pos (by decide)
  have hfive' : 5 ^ k < 2 ^ 53 := (Nat.pow_le_pow_right (by decide) hk).trans_lt (by decide)
  have hwhole : (Binary.ofBits53 m j).value = (m * 2 ^ j : ℕ) := by
    rw [Binary.ofBits53_value, zpow_natCast]
    push_cast
    rfl
  have hpower := Binary.ofBits53_five_value k
  have hmantissa : 0 < (Binary.ofBits53 m j).mantissa := Binary.ofBits53_pos hmpos
  have hmantissa' : 0 < (Binary.ofBits53 (5 ^ k) k).mantissa := Binary.ofBits53_pos hfive
  have hx : Double.ofFloat (Float.ofNat (m * 2 ^ j)) = .finite false (.ofBits53 m j) :=
    ofFloat_ofScientific_of_value (Binary.isDouble_ofBits53 hmpos hm (by omega) (by omega))
      hmantissa (by rw [hwhole, Nat.cast_zero, zpow_zero, mul_one])
  have hy : Double.ofFloat (Float.ofScientific 1 false k) = .finite false (.ofBits53 (5 ^ k) k) :=
    ofFloat_ofScientific_of_value (Binary.isDouble_ofBits53 hfive hfive' (by omega) (by omega))
      hmantissa' (by rw [hpower, Nat.cast_one, one_mul, zpow_natCast])
  unfold inDoubles
  rw [if_neg (by omega), if_pos (by omega), neg_neg, Int.toNat_natCast]
  refine div_eq_toFloat hx hy hmantissa hmantissa' hb hpos ?_
  rw [hwhole, hpower, div_eq_mul_inv, ← zpow_natCast, ← zpow_neg]
  exact hq

/-- The decimal has at most fifteen digits, the first of them at most fifteen places before the
point and the last at most twenty-two behind it. -/
def IsShortDecimal (d : Decimal) : Prop :=
  d.digits.length ≤ 15 ∧ d.point ≤ 15 ∧ d.digits.length ≤ d.point + 22

instance (d : Decimal) : Decidable (IsShortDecimal d) :=
  inferInstanceAs (Decidable (_ ∧ _ ∧ _))

/-- The double is zero or is written as a short decimal. -/
def IsShortDouble : Double → Prop
  | .finite _ b => b.mantissa = 0 ∨ IsShortDecimal (Decimal.shortest .toEven b)
  | .nan | .infinite _ => False

instance : DecidablePred IsShortDouble
  | .finite _ b =>
    inferInstanceAs (Decidable (b.mantissa = 0 ∨ IsShortDecimal (Decimal.shortest .toEven b)))
  | .nan | .infinite _ => instDecidableFalse

/-- The number is zero or is written as a short decimal. -/
def IsShort (x : Float) : Prop :=
  IsShortDouble (.ofFloat x)

instance (x : Float) : Decidable (IsShort x) :=
  inferInstanceAs (Decidable (IsShortDouble _))

theorem IsShortDecimal.exists_written {d : Decimal} (hshort : IsShortDecimal d) (hd : d.IsNormal) :
    ∃ m j k : ℕ, d.written = (m * 2 ^ j, -(k : ℤ)) ∧ m < 2 ^ 53 ∧ j ≤ 1 ∧ 0 < k ∧ k ≤ 22 := by
  obtain ⟨hlength, hpoint, hplaces⟩ := hshort
  unfold Decimal.written
  split
  · refine ⟨5 * (10 ^ (d.point.toNat - d.digits.length) * Nat.ofDigitChars 10 d.digits 0), 1, 1, ?_,
      ?_, le_rfl, by decide, by decide⟩
    · rw [pow_succ]
      refine Prod.ext ?_ rfl
      dsimp only
      ring
    · have hless := hd.mul_lt_pow (i := d.point.toNat - d.digits.length) (n := 15) (by omega)
      omega
  · have hless := hd.lt_pow.trans_le (Nat.pow_le_pow_right (n := 10) (by decide) hlength)
    refine ⟨Nat.ofDigitChars 10 d.digits 0, 0, (d.digits.length - d.point).toNat, ?_, by omega,
      by decide, by omega, by omega⟩
    rw [pow_zero, mul_one]
    refine Prod.ext rfl ?_
    dsimp only
    omega

/-- **Short numbers come back as they were.** -/
theorem rereadFloat_eq_self {x : Float} (hx : IsShort x) : rereadFloat x = x := by
  unfold IsShort IsShortDouble at hx
  split at hx
  · next negative b hfinite =>
    obtain ⟨hb, rfl⟩ := Double.toFloat_eq hfinite
    by_cases hzero : b.mantissa = 0
    · unfold rereadFloat
      rw [hfinite]
      exact if_pos hzero
    · have hpos := Nat.pos_of_ne_zero hzero
      obtain ⟨hnormal, -⟩ := roundsTo_shortest hb hpos .toEven
      obtain ⟨hq, -⟩ := written_shortest hb hpos rfl
      obtain ⟨m, j, k, hwritten, hm, hj, hkpos, hk⟩ :=
        (hx.resolve_left hzero).exists_written hnormal
      rw [rereadFloat_toFloat hb hpos negative rfl]
      rw [hwritten] at hq ⊢
      rw [inDoubles_eq hb hpos hq hm hj hkpos hk, sign_toFloat negative hb]
  · exact hx.elim
  · exact hx.elim

end Pagewright.Json
