import Mathlib.Algebra.Order.Ring.Nat

/-!
# Decimal digits

What is used about the digits of whole numbers: which characters they are, and how large a number
they make.
-/

namespace Pagewright

theorem isDigit_iff {c : Char} : c.isDigit = true ↔ '0' ≤ c ∧ c ≤ '9' := by
  unfold Char.isDigit
  rw [Bool.and_eq_true, decide_eq_true_iff, decide_eq_true_iff]
  exact Iff.rfl

theorem digit_ne_zero {c : Char} (hc : c.isDigit) (hne : c ≠ '0') : c.toNat - '0'.toNat ≠ 0 := by
  have hle : 48 ≤ c.toNat := (isDigit_iff.1 hc).1
  have : c.toNat ≠ 48 := fun heq => hne (Char.toNat_inj.1 heq)
  show c.toNat - 48 ≠ 0
  omega

theorem digit_lt_ten {c : Char} (hc : c.isDigit) : c.toNat - '0'.toNat < 10 := by
  have hle : c.toNat ≤ 57 := (isDigit_iff.1 hc).2
  show c.toNat - 48 < 10
  omega

theorem isDigit_of_mem_toDigits {n : ℕ} {c : Char} (hc : c ∈ Nat.toDigits 10 n) : c.isDigit :=
  Nat.isDigit_of_mem_toDigits (by decide) (by decide) hc

theorem isDigit_of_mem_zeros {n : ℕ} {c : Char} (hc : c ∈ List.replicate n '0') : c.isDigit := by
  rw [List.eq_of_mem_replicate hc]
  rfl

/-- The number that the digits of a text stand for, read from its first digit on. -/
theorem ofDigitChars_head {n : ℕ} {c : Char} {ds : List Char} (h : Nat.toDigits 10 n = c :: ds) :
    Nat.ofDigitChars 10 ds (c.toNat - '0'.toNat) = n := by
  have := Nat.ofDigitChars_ten_toDigits (n := n)
  rwa [h, Nat.ofDigitChars_cons, Nat.mul_zero, Nat.zero_add] at this

theorem le_ofDigitChars (ds : List Char) (value : ℕ) : value ≤ Nat.ofDigitChars 10 ds value := by
  rw [Nat.ofDigitChars_eq_ofDigitChars_zero]
  exact Nat.le_add_right_of_le (Nat.le_mul_of_pos_left _ (Nat.pow_pos (by decide)))

theorem ofDigitChars_lt {ds : List Char} (hds : ∀ c ∈ ds, c.isDigit) (value : ℕ) :
    Nat.ofDigitChars 10 ds value < 10 ^ ds.length * (value + 1) := by
  induction ds generalizing value with
  | nil =>
    rw [Nat.ofDigitChars_nil, List.length_nil, Nat.pow_zero, Nat.one_mul]
    exact Nat.lt_succ_self value
  | cons c ds ih =>
    have hc := digit_lt_ten (hds c List.mem_cons_self)
    rw [Nat.ofDigitChars_cons, List.length_cons, Nat.pow_succ, Nat.mul_assoc]
    refine (ih (fun d hd => hds d (List.mem_cons_of_mem _ hd)) _).trans_le ?_
    exact Nat.mul_le_mul_left _ (by omega)

/-! ## Whole numbers with a sign -/

theorem toList_toString_of_nonneg {i : ℤ} (hi : 0 ≤ i) :
    (toString i).toList = Nat.toDigits 10 i.natAbs := by
  obtain ⟨n, rfl⟩ := Int.eq_ofNat_of_zero_le hi
  exact Nat.toList_repr

theorem toList_toString_of_neg {i : ℤ} (hi : i < 0) :
    (toString i).toList = '-' :: Nat.toDigits 10 i.natAbs := by
  obtain ⟨n, rfl⟩ := Int.eq_negSucc_of_lt_zero hi
  show ("-" ++ Nat.repr (n + 1)).toList = _
  rw [String.toList_append, Nat.toList_repr]
  rfl

end Pagewright
