import Pagewright.Proofs.Json.Reading
import Pagewright.Proofs.Number.Digits
import Pagewright.Proofs.Number.Shortest

/-!
# The parts of a number

A decimal is written in one of four forms: with zeros before the point, with the point among the
digits, with zeros behind the point, or with an exponent. Whatever the form, the reader collects a
whole number `n` and an exponent `e` from it such that the decimal is `n · 10 ^ e`
(`Decimal.written`). What it makes of these is said elsewhere.
-/

namespace Pagewright

/-- **The parts of a decimal that its text shows**: a whole number and an exponent. A zero behind
the point is shown where there is no other digit, and belongs to the whole number. -/
def Decimal.written (d : Decimal) : ℕ × ℤ :=
  if d.digits.length ≤ d.point ∧ d.point ≤ 16 then
    (10 ^ (d.point.toNat - d.digits.length + 1) * Nat.ofDigitChars 10 d.digits 0, -1)
  else (Nat.ofDigitChars 10 d.digits 0, d.point - d.digits.length)

theorem Decimal.written_value (d : Decimal) :
    (d.written.1 : ℚ) * 10 ^ d.written.2 = d.value := by
  unfold written value
  split
  · have hexponent : d.point - d.digits.length =
        (d.point.toNat - d.digits.length + 1 : ℕ) + (-1 : ℤ) := by omega
    rw [hexponent, zpow_add₀ (by norm_num), zpow_natCast]
    push_cast
    ring
  · rfl

namespace Json.Reader

/-! ## What ends a number -/

/-- What follows a value in a list or an object, or nothing. -/
def Ends (after : List Char) : Prop :=
  ∀ c ∈ after.head?, c = ',' ∨ c = ']' ∨ c = '\x7d'

theorem Ends.starts {after : List Char} (h : Ends after) : Starts after := by
  intro c hc
  obtain rfl | rfl | rfl := h c hc <;> decide

/-- The text does not start with a digit. -/
def NoDigit (text : List Char) : Prop :=
  ∀ c ∈ text.head?, c.isDigit = false

theorem Ends.noDigit {after : List Char} (h : Ends after) : NoDigit after := by
  intro c hc
  obtain rfl | rfl | rfl := h c hc <;> decide

theorem Ends.noExponent {after : List Char} (h : Ends after) :
    ¬ (after.head? = some 'e' ∨ after.head? = some 'E') := by
  rintro (he | he) <;> exact absurd (h _ he) (by decide)

/-! ## Digits -/

theorem digit?_of_isDigit {c : Char} (hc : c.isDigit) : digit? c = some (c.toNat - '0'.toNat) :=
  if_pos (isDigit_iff.1 hc)

theorem digit?_of_not_isDigit {c : Char} (hc : c.isDigit = false) : digit? c = none :=
  if_neg fun h => by rw [isDigit_iff.2 h] at hc; cases hc

theorem isAscii_of_isDigit {c : Char} (hc : c.isDigit) : IsAscii c :=
  Nat.lt_of_le_of_lt (m := 57) (isDigit_iff.1 hc).2 (by decide)

theorem bind_digit?_head? {text : List Char} (h : NoDigit text) :
    text.head?.bind digit? = none := by
  cases text with
  | nil => rfl
  | cons c rest => exact digit?_of_not_isDigit (h c rfl)

/-- What is left of the text bounds the digits it starts with. -/
theorem length_lt_bound (ds after : List Char) : ds.length < (bytes (ds ++ after)).length + 1 :=
  Nat.lt_succ_of_le ((List.length_append ▸ Nat.le_add_right _ _).trans (length_le_length_bytes _))

theorem reads_digits {ds after : List Char} (hds : ∀ c ∈ ds, c.isDigit) (hstarts : Starts after)
    (hafter : NoDigit after) : ∀ {value count fuel : Nat}, ds.length < fuel →
      Nat.ofDigitChars 10 ds value ≤ significandLimit →
      (digits value count fuel).Reads ds after
        (Nat.ofDigitChars 10 ds value, count + ds.length) := by
  induction ds with
  | nil =>
    intro value count fuel hfuel hlimit
    obtain ⟨fuel, rfl⟩ := Nat.exists_eq_succ_of_ne_zero (Nat.ne_of_gt hfuel)
    refine Reads.peek_bind hstarts ?_
    rw [List.nil_append, bind_digit?_head? hafter]
    exact reads_pure _ _
  | cons c ds ih =>
    intro value count fuel hfuel hlimit
    obtain ⟨fuel, rfl⟩ := Nat.exists_eq_succ_of_ne_zero (Nat.ne_of_gt (Nat.zero_lt_of_lt hfuel))
    have hc := hds c List.mem_cons_self
    rw [Nat.ofDigitChars_cons, Nat.mul_comm 10] at hlimit ⊢
    refine Reads.peek_bind (fun d hd => by cases hd; exact isAscii_of_isDigit hc) ?_
    rw [show (c :: ds ++ after).head?.bind digit? = _ from digit?_of_isDigit hc]
    dsimp only
    rw [if_neg (Nat.not_lt.2 ((le_ofDigitChars ds _).trans hlimit))]
    refine Reads.take_bind (isAscii_of_isDigit hc) ?_
    rw [List.length_cons, Nat.add_comm ds.length, ← Nat.add_assoc]
    exact ih (fun d hd => hds d (List.mem_cons_of_mem _ hd)) (Nat.lt_of_succ_lt_succ hfuel) hlimit

/-- There are no digits to pass over. -/
theorem Reads.skipDigits_bind {β : Type} {f : Nat → Reader β} {text after : List Char} {b : β}
    (hstarts : Starts (text ++ after)) (hdigit : NoDigit (text ++ after))
    (h : (f 0).Reads text after b) : (skipDigits >>= f).Reads text after b := by
  have hnone : skipDigits.Reads [] (text ++ after) 0 := by
    refine Reads.bound_bind (Reads.peek_bind hstarts ?_)
    rw [List.nil_append, bind_digit?_head? hdigit]
    exact reads_pure _ _
  exact Reads.bind hnone h

theorem reads_exponentDigits {ds after : List Char} (hds : ∀ c ∈ ds, c.isDigit)
    (hstarts : Starts after) (hafter : NoDigit after) :
    ∀ {value fuel : Nat}, ds.length < fuel → Nat.ofDigitChars 10 ds value ≤ exponentLimit →
      (exponentDigits value fuel).Reads ds after (some (Nat.ofDigitChars 10 ds value)) := by
  induction ds with
  | nil =>
    intro value fuel hfuel hlimit
    obtain ⟨fuel, rfl⟩ := Nat.exists_eq_succ_of_ne_zero (Nat.ne_of_gt hfuel)
    refine Reads.peek_bind hstarts ?_
    rw [List.nil_append, bind_digit?_head? hafter]
    exact reads_pure _ _
  | cons c ds ih =>
    intro value fuel hfuel hlimit
    obtain ⟨fuel, rfl⟩ := Nat.exists_eq_succ_of_ne_zero (Nat.ne_of_gt (Nat.zero_lt_of_lt hfuel))
    have hc := hds c List.mem_cons_self
    rw [Nat.ofDigitChars_cons, Nat.mul_comm 10] at hlimit ⊢
    refine Reads.peek_bind (fun d hd => by cases hd; exact isAscii_of_isDigit hc) ?_
    rw [show (c :: ds ++ after).head?.bind digit? = _ from digit?_of_isDigit hc]
    refine Reads.take_bind (isAscii_of_isDigit hc) ?_
    rw [if_neg (Nat.not_lt.2 ((le_ofDigitChars ds _).trans hlimit))]
    exact ih (fun d hd => hds d (List.mem_cons_of_mem _ hd)) (Nat.lt_of_succ_lt_succ hfuel) hlimit

/-! ## Exponents -/

theorem reads_exponent {negative : Bool} {value : ℕ} {shift i : ℤ} {x : Float} {after : List Char}
    (hlimit : i.natAbs ≤ exponentLimit) (h : (decimal negative value (shift + i)).Reads [] after x)
    (hafter : Ends after) :
    (exponent negative value shift).Reads ('e' :: (toString i).toList) after x := by
  obtain ⟨c, ds, hds⟩ := List.exists_cons_of_ne_nil (Nat.toDigits_ne_nil (n := i.natAbs) (b := 10))
  have hc : c.isDigit := isDigit_of_mem_toDigits (hds ▸ List.mem_cons_self)
  have hdigits : ∀ d ∈ ds, d.isDigit := fun d hd =>
    isDigit_of_mem_toDigits (hds ▸ List.mem_cons_of_mem _ hd)
  have hvalue := reads_exponentDigits hdigits hafter.starts hafter.noDigit
    (length_lt_bound ds after)
    (by rwa [ofDigitChars_head hds] : Nat.ofDigitChars 10 ds (c.toNat - '0'.toNat) ≤ _)
  rw [ofDigitChars_head hds] at hvalue
  refine Reads.take_bind (by decide) ?_
  by_cases hi : i < 0
  · rw [toList_toString_of_neg hi, hds]
    refine Reads.peek_bind (fun d hd => by cases hd; decide) ?_
    refine Reads.take_bind (by decide) (Reads.next_bind (isAscii_of_isDigit hc) ?_)
    simp only [digit?_of_isDigit hc]
    refine Reads.bound_bind (Reads.bind_last hvalue ?_)
    dsimp only
    rw [if_pos (show ('-' :: c :: ds ++ after).head? = some '-' from rfl),
      show shift - (i.natAbs : ℤ) = shift + i by omega]
    exact h
  · have hsign : ¬ (some c = some '+' ∨ some c = some '-') := by
      rintro (hplus | hminus)
      · cases hplus
        cases hc
      · cases hminus
        cases hc
    rw [toList_toString_of_nonneg (not_lt.1 hi), hds]
    refine Reads.peek_bind (fun d hd => by cases hd; exact isAscii_of_isDigit hc) ?_
    rw [show (c :: ds ++ after).head? = some c from rfl, if_neg hsign]
    refine Reads.next_bind (isAscii_of_isDigit hc) ?_
    simp only [digit?_of_isDigit hc]
    refine Reads.bound_bind (Reads.bind_last hvalue ?_)
    dsimp only
    rw [if_neg fun hminus => hsign (.inr hminus), show shift + (i.natAbs : ℤ) = shift + i by omega]
    exact h

/-! ## Numbers -/

/-- The digits before the point: a zero alone, or digits that do not start with one. -/
structure IsWhole (ds : List Char) : Prop where
  isDigit : ∀ c ∈ ds, c.isDigit
  head : ∃ c rest, ds = c :: rest ∧ (c = '0' → rest = [])

theorem reads_number {negative : Bool} {ds text after : List Char} {j : Json} (hds : IsWhole ds)
    (hlimit : Nat.ofDigitChars 10 ds 0 ≤ significandLimit) (hstarts : Starts (text ++ after))
    (hdigit : NoDigit (text ++ after))
    (h : (afterWhole negative (Nat.ofDigitChars 10 ds 0) 0).Reads text after j) :
    (number negative).Reads (ds ++ text) after j := by
  obtain ⟨c, rest, rfl, hzero⟩ := hds.head
  have hc := hds.isDigit c List.mem_cons_self
  have hrest : ∀ d ∈ rest, d.isDigit := fun d hd => hds.isDigit d (List.mem_cons_of_mem _ hd)
  rw [Nat.ofDigitChars_cons, Nat.mul_zero, Nat.zero_add] at h hlimit
  refine Reads.next_bind (isAscii_of_isDigit hc) ?_
  simp only [digit?_of_isDigit hc]
  by_cases hhead : c = '0'
  · rw [hzero hhead, hhead] at h ⊢
    rw [List.append_eq, List.nil_append]
    refine Reads.peek_bind hstarts ?_
    rw [bind_digit?_head? hdigit]
    exact h
  · have hfuel : rest.length < (bytes (rest ++ text ++ after)).length + 1 := by
      rw [List.append_assoc]
      exact length_lt_bound rest _
    obtain ⟨n, hn⟩ := Nat.exists_eq_succ_of_ne_zero (digit_ne_zero hc hhead)
    rw [hn] at h hlimit ⊢
    refine Reads.bound_bind (Reads.bind (reads_digits hrest hstarts hdigit hfuel hlimit) ?_)
    exact Reads.skipDigits_bind hstarts hdigit h

/-- The digits behind the point, and what becomes of the number after them. -/
theorem reads_afterWhole_point {negative : Bool} {value : ℕ} {fs text after : List Char} {j : Json}
    (hfs : ∀ c ∈ fs, c.isDigit) (hne : fs ≠ [])
    (hlimit : Nat.ofDigitChars 10 fs value ≤ significandLimit) (hstarts : Starts (text ++ after))
    (hdigit : NoDigit (text ++ after))
    (h : (if (text ++ after).head? = some 'e' ∨ (text ++ after).head? = some 'E' then
        Json.float <$> exponent negative (Nat.ofDigitChars 10 fs value) (-(fs.length : ℤ))
      else
        Json.float <$> decimal negative (Nat.ofDigitChars 10 fs value) (-(fs.length : ℤ))).Reads
      text after j) :
    (afterWhole negative value 0).Reads ('.' :: (fs ++ text)) after j := by
  refine Reads.peek_bind (fun c hc => by cases hc; decide) ?_
  refine Reads.take_bind (by decide) (Reads.bound_bind ?_)
  have hfuel : fs.length < (bytes (fs ++ text ++ after)).length + 1 := by
    rw [List.append_assoc]
    exact length_lt_bound fs _
  refine Reads.bind (reads_digits hfs hstarts hdigit hfuel hlimit) ?_
  refine Reads.skipDigits_bind hstarts hdigit (Reads.peek_bind hstarts ?_)
  rw [Nat.zero_add, Nat.add_zero, if_neg (List.length_eq_zero_iff.not.2 hne), Nat.cast_zero,
    zero_sub]
  exact h

/-- A number with digits behind the point. -/
theorem reads_fraction {negative : Bool} {ds fs after : List Char} {n : ℕ} {e : ℤ} {x : Float}
    (hds : IsWhole ds) (hfs : ∀ c ∈ fs, c.isDigit) (hne : fs ≠ []) (hafter : Ends after)
    (hn : Nat.ofDigitChars 10 (ds ++ fs) 0 = n) (he : -(fs.length : ℤ) = e)
    (hlimit : n ≤ significandLimit) (h : (decimal negative n e).Reads [] after x) :
    (number negative).Reads (ds ++ '.' :: fs) after (.float x) := by
  subst hn he
  rw [Nat.ofDigitChars_append] at h hlimit
  refine reads_number hds ((le_ofDigitChars fs _).trans hlimit) (fun c hc => by cases hc; decide)
    (fun c hc => by cases hc; decide) ?_
  rw [← List.append_nil ('.' :: fs)]
  refine reads_afterWhole_point hfs hne hlimit hafter.starts hafter.noDigit ?_
  rw [List.nil_append, if_neg hafter.noExponent]
  exact Reads.bind_last h (reads_pure _ _)

/-- A number with digits behind the point and an exponent. -/
theorem reads_scientific {negative : Bool} {ds fs after : List Char} {i : ℤ} {n : ℕ} {e : ℤ}
    {x : Float} (hds : IsWhole ds) (hfs : ∀ c ∈ fs, c.isDigit) (hne : fs ≠ [])
    (hafter : Ends after) (hexponent : i.natAbs ≤ exponentLimit)
    (hn : Nat.ofDigitChars 10 (ds ++ fs) 0 = n) (he : -(fs.length : ℤ) + i = e)
    (hlimit : n ≤ significandLimit) (h : (decimal negative n e).Reads [] after x) :
    (number negative).Reads (ds ++ '.' :: (fs ++ 'e' :: (toString i).toList)) after (.float x) := by
  subst hn he
  rw [Nat.ofDigitChars_append] at h hlimit
  refine reads_number hds ((le_ofDigitChars fs _).trans hlimit) (fun c hc => by cases hc; decide)
    (fun c hc => by cases hc; decide) ?_
  refine reads_afterWhole_point hfs hne hlimit (fun c hc => by cases hc; decide)
    (fun c hc => by cases hc; decide) ?_
  rw [if_pos (.inl rfl)]
  exact Reads.bind_last (reads_exponent hexponent h hafter) (reads_pure _ _)

/-- A number with an exponent right behind its whole part. -/
theorem reads_whole_exponent {negative : Bool} {ds after : List Char} {i : ℤ} {n : ℕ} {x : Float}
    (hds : IsWhole ds) (hafter : Ends after) (hexponent : i.natAbs ≤ exponentLimit)
    (hn : Nat.ofDigitChars 10 ds 0 = n) (hlimit : n ≤ significandLimit)
    (h : (decimal negative n i).Reads [] after x) :
    (number negative).Reads (ds ++ 'e' :: (toString i).toList) after (.float x) := by
  subst hn
  rw [← Int.zero_add i] at h
  refine reads_number hds hlimit (fun c hc => by cases hc; decide)
    (fun c hc => by cases hc; decide) ?_
  refine Reads.peek_bind (fun c hc => by cases hc; decide) ?_
  exact Reads.bind_last (reads_exponent hexponent h hafter) (reads_pure _ _)

/-! ## Whole numbers -/

/-- Nothing follows the whole part: the number is whole, unless its minus takes it too far. -/
theorem reads_afterWhole_end {negative : Bool} {value : ℕ} {after : List Char} {j : Json}
    (hafter : Ends after)
    (h : (if negative then
        if value = 0 ∨ Nat.pow 2 63 < value then Json.float <$> decimal true value 0
        else pure (.integer (-value))
      else pure (.integer value) : Reader Json).Reads [] after j) :
    (afterWhole negative value 0).Reads [] after j := by
  refine Reads.peek_bind hafter.starts ?_
  rw [List.nil_append]
  cases after with
  | nil => exact h
  | cons c after =>
    obtain rfl | rfl | rfl := hafter c rfl <;> exact h

theorem isWhole_toDigits (n : ℕ) : IsWhole (Nat.toDigits 10 n) := by
  refine ⟨fun c hc => isDigit_of_mem_toDigits hc, ?_⟩
  obtain rfl | hn := Nat.eq_zero_or_pos n
  · exact ⟨'0', [], rfl, fun _ => rfl⟩
  · obtain ⟨c, rest, htoDigits, hc⟩ := Decimal.exists_head_toDigits hn
    exact ⟨c, rest, htoDigits, fun h => absurd h hc⟩

/-- The whole numbers that 64 bits can hold. -/
def Fits (i : ℤ) : Prop :=
  -(2 ^ 63 : ℤ) ≤ i ∧ i < 2 ^ 64

theorem reads_integer {i : ℤ} (hi : Fits i) {after : List Char} (hafter : Ends after) :
    (number (i < 0)).Reads (Nat.toDigits 10 i.natAbs) after (.integer i) := by
  obtain ⟨hleast, hmost⟩ := hi
  have hlimit : Nat.ofDigitChars 10 (Nat.toDigits 10 i.natAbs) 0 ≤ significandLimit := by
    rw [Nat.ofDigitChars_ten_toDigits]
    show _ ≤ 2 ^ 64 - 1
    omega
  rw [← List.append_nil (Nat.toDigits 10 i.natAbs)]
  refine reads_number (isWhole_toDigits _) hlimit hafter.starts hafter.noDigit
    (reads_afterWhole_end hafter ?_)
  rw [Nat.ofDigitChars_ten_toDigits]
  by_cases hneg : i < 0
  · rw [if_pos (decide_eq_true hneg), if_neg (by show ¬ (_ ∨ 2 ^ 63 < _); omega),
      show -(i.natAbs : ℤ) = i by omega]
    exact reads_pure _ _
  · rw [if_neg (by simpa using hneg), show (i.natAbs : ℤ) = i by omega]
    exact reads_pure _ _

/-! ## Decimals -/

theorem isWhole_zero : IsWhole ['0'] :=
  ⟨List.all_eq_true.mp rfl, '0', [], rfl, fun _ => rfl⟩

theorem isWhole_of_head {c : Char} {rest : List Char} (hc : c ≠ '0')
    (h : ∀ d ∈ c :: rest, d.isDigit) : IsWhole (c :: rest) :=
  ⟨h, c, rest, rfl, fun heq => absurd heq hc⟩

/-- **Decimals are read by their parts.** Whichever of its forms a decimal is written in, the reader
collects the parts of it that are written. -/
theorem reads_decimalText {d : Decimal} (hd : d.IsNormal) {negative : Bool} {x : Float}
    (hexponent : (d.point - 1).natAbs ≤ exponentLimit) (hlimit : d.written.1 ≤ significandLimit)
    {after : List Char} (h : (decimal negative d.written.1 d.written.2).Reads [] after x)
    (hafter : Ends after) : (number negative).Reads (decimalText d) after (.float x) := by
  obtain ⟨hdigits, c, rest, hhead, hc⟩ := hd
  unfold decimalText
  unfold Decimal.written at h hlimit
  split
  · -- zeros before the point
    rw [if_pos ‹_›] at h hlimit
    refine reads_fraction ?_ isWhole_zero.isDigit (by decide) hafter ?_ rfl hlimit h
    · rw [hhead] at hdigits ⊢
      refine isWhole_of_head hc fun d hd => ?_
      exact (List.mem_append.1 hd).elim (hdigits d) isDigit_of_mem_zeros
    · rw [Nat.ofDigitChars_append, Nat.ofDigitChars_append, Nat.ofDigitChars_replicate_zero,
        Nat.pow_succ', Nat.mul_assoc]
      rfl
  · rw [if_neg ‹_›] at h hlimit
    split
    · -- the point among the digits
      have hlt : d.point.toNat < d.digits.length := by omega
      refine reads_fraction ?_ (fun d hd => hdigits d (List.mem_of_mem_drop hd))
        (fun hnil => by rw [List.drop_eq_nil_iff] at hnil; omega) hafter
        (by rw [List.take_append_drop]) ?_ hlimit h
      · rw [hhead] at hdigits ⊢
        obtain ⟨n, hn⟩ := Nat.exists_eq_succ_of_ne_zero (show d.point.toNat ≠ 0 by omega)
        rw [hn]
        exact isWhole_of_head hc fun d hd => hdigits d (List.take_subset (n + 1) _ hd)
      · rw [List.length_drop]
        omega
    · split
      · -- zeros behind the point
        refine reads_fraction isWhole_zero
          (fun d hd => (List.mem_append.1 hd).elim isDigit_of_mem_zeros (hdigits d))
          (by rw [hhead]; exact List.append_ne_nil_of_right_ne_nil _ (List.cons_ne_nil _ _)) hafter
          ?_ ?_ hlimit h
        · rw [List.append_eq, Nat.ofDigitChars_append, Nat.ofDigitChars_append,
            Nat.ofDigitChars_replicate_zero]
          rfl
        · rw [List.append_eq, List.length_append, List.length_replicate]
          omega
      · -- an exponent
        rw [hhead] at hdigits h hlimit ⊢
        cases rest with
        | nil =>
          exact reads_whole_exponent (isWhole_of_head hc hdigits) hafter hexponent rfl hlimit h
        | cons c' rest =>
          have hwhole : IsWhole [c] := isWhole_of_head hc fun d hd => hdigits d (by
            rw [List.mem_singleton.1 hd]
            exact List.mem_cons_self)
          refine reads_scientific hwhole
            (fun d hd => hdigits d (List.mem_cons_of_mem _ hd)) (List.cons_ne_nil _ _) hafter
            hexponent rfl ?_ hlimit h
          rw [List.length_cons, List.length_cons, List.length_cons]
          omega

theorem exists_head_decimalText {d : Decimal} (hd : d.IsNormal) :
    ∃ c rest, decimalText d = c :: rest ∧ c.isDigit := by
  obtain ⟨hdigits, c, rest, hhead, -⟩ := hd
  have hc : c.isDigit := hdigits c (hhead ▸ List.mem_cons_self)
  unfold decimalText
  rw [hhead]
  split
  · exact ⟨c, _, rfl, hc⟩
  · split
    · obtain ⟨n, hn⟩ := Nat.exists_eq_succ_of_ne_zero (show d.point.toNat ≠ 0 by omega)
      rw [hn]
      exact ⟨c, _, rfl, hc⟩
    · split
      · exact ⟨'0', _, rfl, rfl⟩
      · cases rest with
        | nil => exact ⟨c, _, rfl, hc⟩
        | cons c' rest => exact ⟨c, _, rfl, hc⟩

end Json.Reader

end Pagewright
