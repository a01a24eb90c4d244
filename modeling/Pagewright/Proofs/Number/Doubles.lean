import Mathlib.Algebra.Group.Nat.Defs
import Pagewright.Number.Binary

/-!
# The bits of a double

A finite double is a sign and an exact binary number, and its bits can be made from these two
again. The arithmetic of doubles is defined on unpacked numbers: this module says which of them a
double unpacks to, and that packing takes it back.
-/

namespace Pagewright

open Float.Model Float.Model.UnpackedFloat

namespace Binary

/-- The form in which a double holds a number: 53 bits, the first of them set unless the exponent
is the smallest. -/
structure IsDouble (b : Binary) : Prop where
  lt : b.mantissa < 2 ^ 53
  least : -1074 ≤ b.exponent
  most : b.exponent ≤ 971
  normal : 2 ^ 52 ≤ b.mantissa ∨ b.exponent = -1074

/-- The exponent field of a double. -/
def field (b : Binary) : Nat :=
  if 2 ^ 52 ≤ b.mantissa then (b.exponent + 1075).toNat else 0

/-- The bits of a double. -/
def bits (negative : Bool) (b : Binary) : Nat :=
  negative.toNat * 2 ^ 63 + b.field * 2 ^ 52 + b.mantissa % 2 ^ 52

theorem IsDouble.field_lt {b : Binary} (hb : b.IsDouble) : b.field < 2 ^ 11 - 1 := by
  have hmost := hb.most
  unfold field
  split <;> omega

end Binary

/-! ## Reading the bits -/

theorem Double.ofBits_eq (n : Nat) :
    ofBits n =
      if n / 2 ^ 52 % 2 ^ 11 = 2 ^ 11 - 1 then
        if n % 2 ^ 52 = 0 then .infinite (n / 2 ^ 63 % 2 = 1) else .nan
      else if n / 2 ^ 52 % 2 ^ 11 = 0 then .finite (n / 2 ^ 63 % 2 = 1) ⟨n % 2 ^ 52, -1074⟩
      else .finite (n / 2 ^ 63 % 2 = 1)
        ⟨2 ^ 52 + n % 2 ^ 52, ((n / 2 ^ 52 % 2 ^ 11 : Nat) : Int) - 1075⟩ :=
  rfl

theorem Double.ofBits_bits (negative : Bool) {b : Binary} (hb : b.IsDouble) :
    ofBits (b.bits negative) = .finite negative b := by
  have hfield := hb.field_lt
  obtain ⟨hlt, hleast, hmost, hnormal⟩ := hb
  have hsign : b.bits negative / 2 ^ 63 % 2 = negative.toNat := by
    have := negative.toNat_le
    unfold Binary.bits
    omega
  have hmiddle : b.bits negative / 2 ^ 52 % 2 ^ 11 = b.field := by
    unfold Binary.bits
    omega
  have hfraction : b.bits negative % 2 ^ 52 = b.mantissa % 2 ^ 52 := by
    unfold Binary.bits
    omega
  rw [ofBits_eq, hsign, hmiddle, hfraction, if_neg (by omega)]
  have hnegative : (decide (negative.toNat = 1)) = negative := by cases negative <;> rfl
  rw [hnegative]
  unfold Binary.field
  by_cases hlarge : 2 ^ 52 ≤ b.mantissa
  · rw [if_pos hlarge, if_neg (by omega)]
    congr 1
    have hmantissa : 2 ^ 52 + b.mantissa % 2 ^ 52 = b.mantissa := by omega
    have hexponent : (((b.exponent + 1075).toNat : Nat) : Int) - 1075 = b.exponent := by omega
    rw [hmantissa, hexponent]
  · rw [if_neg hlarge, if_pos rfl, Nat.mod_eq_of_lt (by omega), ← hnormal.resolve_left hlarge]

theorem Double.eq_bits_of_ofBits {n : Nat} (hn : n < 2 ^ 64) {negative : Bool} {b : Binary}
    (h : ofBits n = .finite negative b) : b.IsDouble ∧ n = b.bits negative := by
  have hsign : (decide (n / 2 ^ 63 % 2 = 1)).toNat = n / 2 ^ 63 := by
    by_cases htop : n / 2 ^ 63 % 2 = 1
    · rw [decide_eq_true htop, Bool.toNat_true]
      omega
    · rw [decide_eq_false htop, Bool.toNat_false]
      omega
  rw [ofBits_eq] at h
  split at h
  · split at h <;> cases h
  split at h
  · cases h
    have hfield : (Binary.mk (n % 2 ^ 52) (-1074)).field = 0 :=
      if_neg (show ¬ 2 ^ 52 ≤ n % 2 ^ 52 by omega)
    refine ⟨⟨show n % 2 ^ 52 < 2 ^ 53 by omega, Int.le_refl _,
      show (-1074 : Int) ≤ 971 by decide, .inr rfl⟩, ?_⟩
    unfold Binary.bits
    rw [hsign, hfield]
    show n = n / 2 ^ 63 * 2 ^ 63 + 0 * 2 ^ 52 + n % 2 ^ 52 % 2 ^ 52
    omega
  · cases h
    have hfield : (Binary.mk (2 ^ 52 + n % 2 ^ 52)
        (((n / 2 ^ 52 % 2 ^ 11 : Nat) : Int) - 1075)).field = n / 2 ^ 52 % 2 ^ 11 := by
      unfold Binary.field
      rw [if_pos (Nat.le_add_right _ _)]
      show (((n / 2 ^ 52 % 2 ^ 11 : Nat) : Int) - 1075 + 1075).toNat = _
      omega
    refine ⟨⟨show 2 ^ 52 + n % 2 ^ 52 < 2 ^ 53 by omega,
      show (-1074 : Int) ≤ ((n / 2 ^ 52 % 2 ^ 11 : Nat) : Int) - 1075 by omega,
      show ((n / 2 ^ 52 % 2 ^ 11 : Nat) : Int) - 1075 ≤ 971 by omega,
      .inl (Nat.le_add_right _ _)⟩, ?_⟩
    unfold Binary.bits
    rw [hsign, hfield]
    show n = n / 2 ^ 63 * 2 ^ 63 + n / 2 ^ 52 % 2 ^ 11 * 2 ^ 52 + (2 ^ 52 + n % 2 ^ 52) % 2 ^ 52
    omega

/-- The sign of a double that is negative or not. -/
def signOf (negative : Bool) : Sign :=
  if negative then .negative else .positive

/-- The unpacked number that a double is to the arithmetic of doubles. -/
def Double.unpacked : Double → UnpackedFloat
  | nan => .notANumber
  | infinite negative => .infinity (signOf negative)
  | finite negative b =>
    if h : 0 < b.mantissa then .finite (signOf negative) b.mantissa b.exponent h
    else .zero (signOf negative)

theorem Double.unpacked_of_pos (negative : Bool) {b : Binary} (h : 0 < b.mantissa) :
    (finite negative b).unpacked = .finite (signOf negative) b.mantissa b.exponent h :=
  dif_pos h

theorem Double.unpacked_of_zero (negative : Bool) {b : Binary} (h : b.mantissa = 0) :
    (finite negative b).unpacked = .zero (signOf negative) :=
  dif_neg (by rw [h]; exact Nat.lt_irrefl 0)

theorem toNat_unpackExponent (w : BitVec Format.binary64.numBits) :
    (unpackExponent w).toNat = w.toNat / 2 ^ 52 % 2 ^ 11 := by
  show (BitVec.extractLsb 62 52 w).toNat = _
  rw [BitVec.extractLsb_toNat, Nat.shiftRight_eq_div_pow]

theorem toNat_unpackMantissa (w : BitVec Format.binary64.numBits) :
    (unpackMantissa w).toNat = w.toNat % 2 ^ 52 := by
  show (BitVec.extractLsb 51 0 w).toNat = _
  rw [BitVec.extractLsb_toNat, Nat.shiftRight_zero]

theorem ofBitVec_unpackSign (w : BitVec Format.binary64.numBits) :
    Sign.ofBitVec (unpackSign w) = signOf (w.toNat / 2 ^ 63 % 2 = 1) := by
  have hsign : (unpackSign w).toNat = w.toNat / 2 ^ 63 % 2 := by
    show (BitVec.extractLsb 63 63 w).toNat = _
    rw [BitVec.extractLsb_toNat, Nat.shiftRight_eq_div_pow]
  rw [← hsign]
  generalize unpackSign w = s
  obtain rfl | rfl := s.eq_zero_or_eq_one <;> rfl

/-- Unpacked numbers are the same if their parts are. -/
theorem finite_congr {s : Sign} {m m' : Nat} {e e' : Int} (h : 0 < m) (h' : 0 < m') (hm : m = m')
    (he : e = e') : UnpackedFloat.finite s m e h = .finite s m' e' h' := by
  subst hm he
  rfl

/-- **The arithmetic of doubles unpacks the same number.** -/
theorem unpack_eq_unpacked (w : BitVec Format.binary64.numBits) :
    UnpackedFloat.unpack Format.binary64 w = (Double.ofBits w.toNat).unpacked := by
  have hones : unpackExponent w = -1#11 ↔ w.toNat / 2 ^ 52 % 2 ^ 11 = 2 ^ 11 - 1 := by
    rw [← BitVec.toNat_inj, toNat_unpackExponent]
    rfl
  have hzeros : unpackExponent w = 0#11 ↔ w.toNat / 2 ^ 52 % 2 ^ 11 = 0 := by
    rw [← BitVec.toNat_inj, toNat_unpackExponent]
    rfl
  have hempty : unpackMantissa w = 0#52 ↔ w.toNat % 2 ^ 52 = 0 := by
    rw [← BitVec.toNat_inj, toNat_unpackMantissa]
    rfl
  have hhidden : (1#1 ++ unpackMantissa w).toNat = 2 ^ 52 + w.toNat % 2 ^ 52 := by
    rw [BitVec.toNat_append, ← Nat.shiftLeft_add_eq_or_of_lt (BitVec.isLt _), Nat.shiftLeft_eq,
      toNat_unpackMantissa]
    rfl
  rw [Double.ofBits_eq]
  unfold UnpackedFloat.unpack
  dsimp only
  rw [ofBitVec_unpackSign]
  by_cases htop : w.toNat / 2 ^ 52 % 2 ^ 11 = 2 ^ 11 - 1
  · rw [if_pos (hones.mpr htop), if_pos htop]
    by_cases hfraction : w.toNat % 2 ^ 52 = 0
    · rw [if_pos (hempty.mpr hfraction), if_pos hfraction]
      rfl
    · rw [if_neg (mt hempty.mp hfraction), if_neg hfraction]
      rfl
  rw [if_neg (mt hones.mp htop), if_neg htop]
  by_cases hbottom : w.toNat / 2 ^ 52 % 2 ^ 11 = 0
  · rw [if_pos (hzeros.mpr hbottom), if_pos hbottom]
    by_cases hfraction : w.toNat % 2 ^ 52 = 0
    · rw [dif_pos (hempty.mpr hfraction), Double.unpacked_of_zero _ hfraction]
    · rw [dif_neg (mt hempty.mp hfraction), Double.unpacked_of_pos _ (Nat.pos_of_ne_zero hfraction)]
      refine finite_congr _ _ (toNat_unpackMantissa w) ?_
      rw [toNat_unpackExponent]
      show ((w.toNat / 2 ^ 52 % 2 ^ 11 : Nat) : Int) - ((1023 : Nat) + (52 : Nat)) + 1 = -1074
      omega
  · rw [if_neg (mt hzeros.mp hbottom), if_neg hbottom,
      Double.unpacked_of_pos _ (show 0 < 2 ^ 52 + w.toNat % 2 ^ 52 by omega)]
    refine finite_congr _ _ hhidden ?_
    rw [toNat_unpackExponent]
    rfl

/-! ## Making the bits -/

theorem toNat_packComponents (s : Sign) (e : BitVec 11) (m : BitVec 52) :
    (packComponents Format.binary64 s e m).toNat =
      s.toBitVec.toNat * 2 ^ 63 + e.toNat * 2 ^ 52 + m.toNat := by
  show (s.toBitVec ++ e ++ m).toNat = _
  rw [BitVec.toNat_append, BitVec.toNat_append, ← Nat.shiftLeft_add_eq_or_of_lt m.isLt,
    ← Nat.shiftLeft_add_eq_or_of_lt e.isLt, Nat.shiftLeft_eq, Nat.shiftLeft_eq]
  omega

theorem pack_finite (s : Sign) {b : Binary} (hb : b.IsDouble) (hpos : 0 < b.mantissa) :
    UnpackedFloat.pack Format.binary64 (.finite s b.mantissa b.exponent hpos) =
      packComponents Format.binary64 s (BitVec.ofNat 11 b.field) (BitVec.ofNat 52 b.mantissa) := by
  have hleast := hb.least
  have hmost := hb.most
  have hne := Nat.ne_of_gt hpos
  have hbiased : b.exponent + (Format.binary64.exponentBias : Int) +
      Format.binary64.mantissaBitsWithoutImplicit = b.exponent + 1075 := by
    show b.exponent + (1023 : Nat) + (52 : Nat) = _
    omega
  have hlog : b.mantissa.log2 + 1 = Format.binary64.mantissaBits ↔ 2 ^ 52 ≤ b.mantissa := by
    show b.mantissa.log2 + 1 = 53 ↔ _
    rw [← Nat.le_log2 hne]
    have := (Nat.log2_lt hne).2 hb.lt
    omega
  unfold UnpackedFloat.pack
  simp only [hbiased, hlog]
  rw [if_neg (show ¬ 2 ^ 11 ≤ (b.exponent + 1075).toNat + 1 by omega)]
  by_cases hnormal : 2 ^ 52 ≤ b.mantissa
  · rw [if_pos hnormal, Binary.field, if_pos hnormal]
  · rw [if_neg hnormal, Binary.field, if_neg hnormal]

theorem toNat_toBitVec_signOf (negative : Bool) :
    (signOf negative).toBitVec.toNat = negative.toNat := by
  cases negative <;> rfl

/-- The double with these parts, as the arithmetic of doubles packs it. -/
def Double.toFloat (d : Double) : Float :=
  ⟨Float.Model.pack d.unpacked⟩

theorem toNat_toBits_toFloat (negative : Bool) {b : Binary} (hb : b.IsDouble) :
    (Double.finite negative b).toFloat.toBits.toNat = b.bits negative := by
  have hfield := hb.field_lt
  show (UnpackedFloat.pack Format.binary64 (Double.finite negative b).unpacked).toNat = _
  obtain hzero | hpos := Nat.eq_zero_or_pos b.mantissa
  · rw [Double.unpacked_of_zero _ hzero]
    show (packComponents Format.binary64 (signOf negative) 0 0).toNat = _
    rw [toNat_packComponents, toNat_toBitVec_signOf]
    unfold Binary.bits Binary.field
    rw [hzero, if_neg (by decide)]
    rfl
  · rw [Double.unpacked_of_pos _ hpos, pack_finite _ hb hpos, toNat_packComponents,
      toNat_toBitVec_signOf, BitVec.toNat_ofNat, BitVec.toNat_ofNat,
      Nat.mod_eq_of_lt (by omega : b.field < 2 ^ 11)]
    rfl

/-- **The bits stand for the double they were made of.** -/
theorem Double.ofFloat_toFloat (negative : Bool) {b : Binary} (hb : b.IsDouble) :
    ofFloat (finite negative b).toFloat = finite negative b := by
  show ofBits (finite negative b).toFloat.toBits.toNat = _
  rw [toNat_toBits_toFloat negative hb, ofBits_bits negative hb]

/-- **A finite double is made of its sign and its number.** -/
theorem Double.toFloat_eq {x : Float} {negative : Bool} {b : Binary}
    (h : ofFloat x = finite negative b) : b.IsDouble ∧ (finite negative b).toFloat = x := by
  obtain ⟨hb, hbits⟩ := eq_bits_of_ofBits x.toBits.toNat_lt h
  refine ⟨hb, ?_⟩
  have hsame : (finite negative b).toFloat.toBits = x.toBits := by
    rw [← UInt64.toNat_inj, toNat_toBits_toFloat negative hb, hbits]
  generalize (finite negative b).toFloat = y at hsame ⊢
  obtain ⟨⟨bits, valid⟩⟩ := x
  obtain ⟨⟨bits', valid'⟩⟩ := y
  cases hsame
  rfl

/-! ## What the arithmetic does with the sign and the size -/

theorem unpack_toModel (x : Float) : x.toModel.unpack = (Double.ofFloat x).unpacked :=
  unpack_eq_unpacked _

theorem neg_toFloat {b : Binary} (hb : b.IsDouble) :
    -(Double.finite false b).toFloat = (Double.finite true b).toFloat := by
  show Float.ofModel (Float.Model.pack (Double.finite false b).toFloat.toModel.unpack.neg) =
    Float.ofModel (Float.Model.pack (Double.finite true b).unpacked)
  rw [unpack_toModel, Double.ofFloat_toFloat false hb]
  obtain hzero | hpos := Nat.eq_zero_or_pos b.mantissa
  · rw [Double.unpacked_of_zero _ hzero, Double.unpacked_of_zero _ hzero]
    rfl
  · rw [Double.unpacked_of_pos _ hpos, Double.unpacked_of_pos _ hpos]
    rfl

theorem isInf_toFloat {b : Binary} (negative : Bool) (hb : b.IsDouble) :
    (Double.finite negative b).toFloat.isInf = false := by
  show (Double.finite negative b).toFloat.toModel.unpack.isInf = false
  rw [unpack_toModel, Double.ofFloat_toFloat negative hb]
  obtain hzero | hpos := Nat.eq_zero_or_pos b.mantissa
  · rw [Double.unpacked_of_zero _ hzero]
    rfl
  · rw [Double.unpacked_of_pos _ hpos]
    rfl

theorem exists_of_isFinite {x : Float} (h : x.isFinite) :
    ∃ negative b, Double.ofFloat x = .finite negative b := by
  have hfinite : (Double.ofFloat x).unpacked.isFinite := by
    rw [← unpack_toModel]
    exact h
  generalize Double.ofFloat x = d at hfinite ⊢
  cases d with
  | nan => cases hfinite
  | infinite negative => cases hfinite
  | finite negative b => exact ⟨negative, b, rfl⟩

end Pagewright
