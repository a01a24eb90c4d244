import Pagewright.Number.Text
import Pagewright.Proofs.Json.Numbers
import Pagewright.Proofs.Script.Tokens

/-!
# The text of a number is a numeral

A finite number is written in one of five forms: digit by digit, with zeros behind the digits, with
the point among the digits, with zeros between the point and the digits, or with an exponent. All of
them are numerals of the script, with a minus in front of them if the number is negative. So the
whole text is read as the number, and nothing of it is taken for an operator or for a name.
-/

namespace Pagewright.Script

open Json.Reader (NoDigit)

/-! ## Numerals by their parts -/

/-- Digits are taken up to the first character that is none. -/
theorem span_digits {ds cs : List Char} (hds : ∀ c ∈ ds, c.isDigit = true) (hcs : NoDigit cs) :
    (ds ++ cs).takeWhile Char.isDigit = ds ∧ (ds ++ cs).dropWhile Char.isDigit = cs := by
  rw [List.takeWhile_append_of_pos hds, List.dropWhile_append_of_pos hds]
  cases cs with
  | nil => exact ⟨List.append_nil ds, rfl⟩
  | cons c cs =>
    have hc : ¬ c.isDigit = true := by
      rw [hcs c rfl]
      exact Bool.false_ne_true
    rw [List.takeWhile_cons_of_neg hc, List.dropWhile_cons_of_neg hc, List.append_nil]
    exact ⟨rfl, rfl⟩

theorem isDigits_of_forall {ds : List Char} (hne : ds ≠ []) (h : ∀ c ∈ ds, c.isDigit = true) :
    isDigits ds = true := by
  simp only [isDigits, Bool.and_eq_true, Bool.not_eq_true', List.isEmpty_eq_false_iff,
    List.all_eq_true]
  exact ⟨hne, h⟩

theorem noDigit_of_isExponent {cs : List Char} (h : isExponent cs = true) : NoDigit cs := by
  intro c hc
  cases cs with
  | nil => cases hc
  | cons d cs =>
    cases hc
    have hmark : c = 'e' ∨ c = 'E' := by simpa using (Bool.and_eq_true_iff.mp h).1
    rcases hmark with rfl | rfl <;> rfl

theorem noDigit_of_isFraction {cs : List Char} (h : isFraction cs = true) : NoDigit cs := by
  unfold isFraction at h
  split at h
  · rintro c ⟨⟩
    rfl
  · exact noDigit_of_isExponent h

theorem isExponent_sign {sign : Char} (h : sign = '+' ∨ sign = '-') (n : ℕ) :
    isExponent ('e' :: sign :: Nat.toDigits 10 n) = true := by
  have hdigits : isDigits (Nat.toDigits 10 n) = true :=
    isDigits_of_forall Nat.toDigits_ne_nil (fun _ => isDigit_of_mem_toDigits)
  rcases h with rfl | rfl <;> exact hdigits

theorem isFraction_point {ds exponent : List Char} (hne : ds ≠ [])
    (hds : ∀ c ∈ ds, c.isDigit = true) (hexponent : isExponent exponent = true) :
    isFraction ('.' :: (ds ++ exponent)) = true := by
  obtain ⟨htake, hdrop⟩ := span_digits hds (noDigit_of_isExponent hexponent)
  show (isDigits _ && isExponent _) = true
  rw [htake, hdrop, isDigits_of_forall hne hds, hexponent]
  rfl

theorem isFraction_digits {ds : List Char} (hne : ds ≠ []) (hds : ∀ c ∈ ds, c.isDigit = true) :
    isFraction ('.' :: ds) = true := by
  have hpoint : isFraction ('.' :: (ds ++ [])) = true := isFraction_point hne hds rfl
  rwa [List.append_nil] at hpoint

/-- **A whole number and a fraction make a numeral.** -/
theorem isNumeral_append {whole fraction : List Char} (hwhole : Json.Reader.IsWhole whole)
    (hfraction : isFraction fraction = true) : isNumeral (whole ++ fraction) = true := by
  obtain ⟨htake, hdrop⟩ := span_digits hwhole.isDigit (noDigit_of_isFraction hfraction)
  obtain ⟨c, rest, rfl, hzero⟩ := hwhole.head
  have hhead : ((c :: rest).head? != some '0' || (c :: rest).length = 1) = true := by
    by_cases hc : c = '0'
    · simp [hzero hc]
    · simp [hc]
  unfold isNumeral isWhole
  rw [htake, hdrop, hfraction, hhead, isDigits_of_forall (List.cons_ne_nil _ _) hwhole.isDigit]
  rfl

theorem isNumeral_of_isWhole {whole : List Char} (h : Json.Reader.IsWhole whole) :
    isNumeral whole = true := by
  have hnumeral : isNumeral (whole ++ []) = true := isNumeral_append h rfl
  rwa [List.append_nil] at hnumeral

/-! ## The forms of a decimal -/

open Json.Reader (isWhole_of_head isWhole_toDigits isWhole_zero)

/-- **A decimal with the point in its place is a numeral.** -/
theorem isNumeral_positional {d : Decimal} (hd : d.IsNormal) :
    isNumeral d.positional = true := by
  obtain ⟨hdigits, c, rest, hhead, hc⟩ := hd
  unfold Decimal.positional
  split
  · -- zeros between the point and the digits
    have hne : List.replicate (-d.point).toNat '0' ++ d.digits ≠ [] := by
      rw [hhead]
      exact List.append_ne_nil_of_right_ne_nil _ (List.cons_ne_nil _ _)
    have hfraction := isFraction_digits hne
      (fun c hc => (List.mem_append.mp hc).elim isDigit_of_mem_zeros (hdigits c))
    show isNumeral (['0'] ++ '.' :: (List.replicate (-d.point).toNat '0' ++ d.digits)) = true
    exact isNumeral_append isWhole_zero hfraction
  · next hpoint =>
    split
    · -- zeros behind the digits
      rw [hhead] at hdigits ⊢
      refine isNumeral_of_isWhole (isWhole_of_head hc fun d hd => ?_)
      exact (List.mem_append.mp hd).elim (hdigits d) isDigit_of_mem_zeros
    · next hlength =>
      -- the point among the digits
      have hne : d.digits.drop d.point.toNat ≠ [] :=
        fun hnil => hlength (List.drop_eq_nil_iff.mp hnil)
      refine isNumeral_append ?_ (isFraction_digits hne fun c hc =>
        hdigits c (List.mem_of_mem_drop hc))
      obtain ⟨n, hn⟩ := Nat.exists_eq_succ_of_ne_zero (show d.point.toNat ≠ 0 by omega)
      rw [hhead] at hdigits ⊢
      rw [hn]
      exact isWhole_of_head hc fun d hd => hdigits d (List.take_subset (n + 1) _ hd)

/-- **A decimal with an exponent is a numeral.** -/
theorem isNumeral_scientific {d : Decimal} (hd : d.IsNormal) :
    isNumeral d.scientific = true := by
  obtain ⟨hdigits, c, rest, hhead, hc⟩ := hd
  have hexponent : ∃ exponent, isExponent exponent = true ∧
      d.scientific = d.significand ++ exponent := by
    unfold Decimal.scientific
    split
    · exact ⟨_, isExponent_sign (.inr rfl) _, rfl⟩
    · exact ⟨_, isExponent_sign (.inl rfl) _, rfl⟩
  obtain ⟨exponent, hexponent, hscientific⟩ := hexponent
  rw [hscientific]
  unfold Decimal.significand
  rw [hhead] at hdigits ⊢
  cases rest with
  | nil =>
    refine isNumeral_append (isWhole_of_head hc hdigits) ?_
    unfold isFraction
    split
    · cases hexponent
    · exact hexponent
  | cons c' rest =>
    obtain ⟨hdigit, hrest⟩ := List.forall_mem_cons.mp hdigits
    have hwhole := isWhole_of_head hc (List.forall_mem_singleton.mpr hdigit)
    show isNumeral ([c] ++ '.' :: (c' :: rest ++ exponent)) = true
    exact isNumeral_append hwhole (isFraction_point (List.cons_ne_nil _ _) hrest hexponent)

/-! ## The text of a number -/

theorem isNumeral_text {b : Binary} (hb : b.IsDouble) (hpos : 0 < b.mantissa) :
    isNumeral b.text = true := by
  have hnormal := (roundsTo_shortest hb hpos .up).1
  unfold Binary.text
  split
  · exact isNumeral_scientific hnormal
  · split
    · exact isNumeral_of_isWhole (isWhole_toDigits _)
    · exact isNumeral_positional hnormal

/-- **The text of a finite number is a numeral**, perhaps with a minus in front of it. -/
theorem numberText_of_isFinite {x : Float} (h : x.isFinite = true) :
    isNumeral (numberText x).toList = true ∨
      ∃ cs, numberText x = String.ofList ('-' :: cs) ∧ isNumeral cs = true := by
  obtain ⟨negative, b, hx⟩ := exists_of_isFinite h
  have hb := (Double.toFloat_eq hx).1
  unfold numberText
  rw [hx, String.toList_ofList]
  unfold Double.text
  by_cases hzero : b.mantissa = 0
  · simp only [if_pos hzero]
    exact .inl rfl
  · have hnumeral := isNumeral_text hb (Nat.pos_of_ne_zero hzero)
    simp only [if_neg hzero]
    cases negative with
    | false =>
      rw [if_neg Bool.false_ne_true]
      exact .inl hnumeral
    | true =>
      rw [if_pos rfl]
      exact .inr ⟨b.text, rfl, hnumeral⟩

end Pagewright.Script
