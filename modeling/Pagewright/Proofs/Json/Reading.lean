import Pagewright.Json.Skip
import Pagewright.Json.Write

/-!
# Reading what was written

A reader is judged by what it does before a text: which value it gives, and that it stops right
behind the text. The places it counts do not matter for that, nor whether the text is in memory or
comes from a stream, as long as the stream does not fail. This module has the rules for putting
readers together, and shows that words and strings are read as they were written.
-/

namespace Pagewright.Json

/-! ## Bytes -/

/-- The bytes of a text. -/
def bytes (text : List Char) : List UInt8 :=
  text.flatMap String.utf8EncodeChar

theorem bytes_cons (c : Char) (text : List Char) :
    bytes (c :: text) = String.utf8EncodeChar c ++ bytes text :=
  rfl

theorem bytes_append (text text' : List Char) : bytes (text ++ text') = bytes text ++ bytes text' :=
  List.flatMap_append

theorem length_le_length_bytes (text : List Char) : text.length ≤ (bytes text).length := by
  induction text with
  | nil => exact Nat.le_refl 0
  | cons c text ih =>
    rw [bytes_cons, List.length_append, List.length_cons, Nat.add_comm]
    exact Nat.add_le_add (List.length_pos_iff.2 String.utf8EncodeChar_ne_nil) ih

theorem toList_loop (b : ByteArray) (i : Nat) (taken : List UInt8) :
    ByteArray.toList.loop b i taken = taken.reverse ++ b.data.toList.drop i := by
  induction i, taken using ByteArray.toList.loop.induct b with
  | case1 i taken hlt ih =>
    rw [ByteArray.toList.loop, if_pos hlt, ih, List.reverse_cons, List.append_assoc,
      List.drop_eq_getElem_cons (show i < b.data.toList.length from hlt)]
    show _ ++ (b.data[i]! :: _) = _
    rw [getElem!_pos b.data i hlt]
    rfl
  | case2 i taken hge =>
    rw [ByteArray.toList.loop, if_neg hge, List.drop_eq_nil_of_le (Nat.not_lt.1 hge),
      List.append_nil]

theorem toList_toUTF8 (text : List Char) : (String.ofList text).toUTF8.toList = bytes text := by
  show (String.ofList text).toByteArray.toList = _
  rw [ByteArray.toList, toList_loop, String.toByteArray_ofList]
  exact List.toList_data_toByteArray

/-- The character is one byte. -/
def IsAscii (c : Char) : Prop :=
  c.toNat < 128

instance (c : Char) : Decidable (IsAscii c) :=
  inferInstanceAs (Decidable (c.toNat < 128))

/-- A list of characters can be looked through for one that is more than a byte. -/
theorem isAscii_of_all {w : List Char} (h : w.all (IsAscii ·) = true) : ∀ c ∈ w, IsAscii c :=
  fun c hc => of_decide_eq_true (List.all_eq_true.mp h c hc)

theorem utf8EncodeChar_of_isAscii {c : Char} (hc : IsAscii c) :
    String.utf8EncodeChar c = [c.toUInt8] := by
  unfold String.utf8EncodeChar
  exact if_pos (Nat.le_of_lt_succ hc)

theorem ofUInt8_toUInt8 {c : Char} (hc : IsAscii c) : Char.ofUInt8 c.toUInt8 = c := by
  refine Char.ext (UInt32.toNat_inj.1 ?_)
  show c.val.toUInt8.toUInt32.toNat = c.val.toNat
  rw [UInt8.toNat_toUInt32, UInt32.toNat_toUInt8]
  have : c.val.toNat < 128 := hc
  omega

/-! ## Readers before a text -/

/-- The text is in memory, or the stream it comes from ends without failing. -/
def Origin.IsSteady (origin : Origin) : Prop :=
  ∀ reason, origin ≠ .stream (some reason)

namespace Reader

variable {α β : Type} {a : α} {b : β}

/-- Before the bytes `taken`, whatever stands behind them, the reader gives `a` and takes just
these. -/
def Takes (r : Reader α) (taken after : List UInt8) (a : α) : Prop :=
  ∀ c : Cursor, c.origin.IsSteady → c.rest = taken ++ after →
    ∃ c' : Cursor, r c = (.ok a, c') ∧ c'.rest = after ∧ c'.origin = c.origin

/-- **Reading off a text.** Before `text`, with `after` behind it, the reader gives `a` and stops
before `after`. -/
def Reads (r : Reader α) (text after : List Char) (a : α) : Prop :=
  r.Takes (bytes text) (bytes after) a

theorem takes_pure (a : α) (after : List UInt8) : Takes (pure a) [] after a :=
  fun c _ hrest => ⟨c, rfl, hrest, rfl⟩

theorem bind_run {r : Reader α} {f : α → Reader β} {c c' : Cursor} (h : r c = (.ok a, c')) :
    (r >>= f) c = f a c' := by
  have hbind : (r >>= f) c = ExceptT.bindCont f (r c).1 (r c).2 := rfl
  rw [hbind, h]
  rfl

theorem Takes.bind {r : Reader α} {f : α → Reader β} {taken taken' after : List UInt8}
    (h : r.Takes taken (taken' ++ after) a) (h' : (f a).Takes taken' after b) :
    (r >>= f).Takes (taken ++ taken') after b := by
  intro c hsteady hrest
  obtain ⟨c₁, hrun, hrest₁, horigin⟩ := h c hsteady (by rw [hrest, List.append_assoc])
  obtain ⟨c₂, hrun₂, hrest₂, horigin₂⟩ := h' c₁ (by rw [horigin]; exact hsteady) hrest₁
  exact ⟨c₂, (bind_run hrun).trans hrun₂, hrest₂, horigin₂.trans horigin⟩

theorem Takes.bind_nil {r : Reader α} {f : α → Reader β} {taken after : List UInt8}
    (h : r.Takes [] (taken ++ after) a) (h' : (f a).Takes taken after b) :
    (r >>= f).Takes taken after b :=
  h.bind h'

theorem Takes.cons_bind {r : Reader α} {f : α → Reader β} {first : UInt8} {taken after : List UInt8}
    (h : r.Takes [first] (taken ++ after) a) (h' : (f a).Takes taken after b) :
    (r >>= f).Takes (first :: taken) after b :=
  h.bind h'

theorem Takes.placed {r : Reader α} {taken after : List UInt8} (h : r.Takes taken after a) :
    (placed r).Takes taken after a := by
  intro c hsteady hrest
  obtain ⟨c₁, hrun, hrest₁, horigin⟩ := h c hsteady hrest
  refine ⟨c₁, ?_, hrest₁, horigin⟩
  unfold Reader.placed
  rw [hrun]

theorem Takes.closing {body : Reader α} {closer : Reader Unit} {taken taken' after : List UInt8}
    (h : body.Takes taken (taken' ++ after) a) (h' : closer.Takes taken' after ()) :
    (closing body closer).Takes (taken ++ taken') after a := by
  intro c hsteady hrest
  obtain ⟨c₁, hrun, hrest₁, horigin⟩ := h c hsteady (by rw [hrest, List.append_assoc])
  obtain ⟨c₂, hrun₂, hrest₂, horigin₂⟩ := h' c₁ (by rw [horigin]; exact hsteady) hrest₁
  refine ⟨c₂, ?_, hrest₂, horigin₂.trans horigin⟩
  simp only [Reader.closing, hrun, hrun₂]

/-! ### One byte -/

theorem takes_peek (after : List UInt8) : peek.Takes [] after (after.head?.map Char.ofUInt8) := by
  intro c hsteady hrest
  obtain ⟨rest, place, ahead, origin⟩ := c
  cases hrest
  cases after with
  | cons b rest => exact ⟨⟨b :: rest, place, true, origin⟩, rfl, rfl, rfl⟩
  | nil =>
    refine ⟨⟨[], place, ahead, origin⟩, ?_, rfl, rfl⟩
    obtain _ | _ | reason := origin
    · rfl
    · rfl
    · exact absurd rfl (hsteady reason)

theorem takes_take (b : UInt8) (after : List UInt8) : take.Takes [b] after () := by
  intro c _ hrest
  obtain ⟨rest, place, ahead, origin⟩ := c
  cases hrest
  exact ⟨⟨after, place.step b, false, origin⟩, rfl, rfl, rfl⟩

theorem takes_next (b : UInt8) (after : List UInt8) :
    next.Takes [b] after (some (Char.ofUInt8 b)) := by
  refine Takes.bind_nil (takes_peek (b :: after)) ?_
  show (take >>= fun _ => (pure (some (Char.ofUInt8 b)) : Reader _)).Takes ([b] ++ []) after _
  exact (takes_take b after).bind (takes_pure _ _)

theorem takes_bound (after : List UInt8) : bound.Takes [] after (after.length + 1) := by
  intro c _ hrest
  obtain ⟨rest, place, ahead, origin⟩ := c
  cases hrest
  exact ⟨⟨after, place, ahead, origin⟩, rfl, rfl, rfl⟩

theorem takes_gap {after : List UInt8} (h : ∀ b ∈ after.head?, Cursor.isGap b = false) :
    gap.Takes [] after (after.head?.map Char.ofUInt8) := by
  have hskip : ∀ place, Cursor.skipGap place after = (place, after) := by
    intro place
    cases after with
    | nil => rfl
    | cons b rest =>
      unfold Cursor.skipGap
      rw [h b rfl]
      rfl
  intro c hsteady hrest
  obtain ⟨rest, place, ahead, origin⟩ := c
  cases hrest
  obtain ⟨c', hrun, hrest', horigin⟩ := takes_peek after ⟨after, place, false, origin⟩ hsteady rfl
  refine ⟨c', ?_, hrest', horigin⟩
  have hgap : gap ⟨after, place, ahead, origin⟩ =
      peek ⟨(Cursor.skipGap place after).2, (Cursor.skipGap place after).1, false, origin⟩ := rfl
  rw [hgap, hskip, hrun]

/-! ### One character -/

section Characters

variable {c : Char} {text text' after : List Char}

/-- The text can be looked at: it starts with a character of one byte, or is empty. -/
def Starts (text : List Char) : Prop :=
  ∀ c ∈ text.head?, IsAscii c

theorem Starts.head? (h : Starts text) :
    (bytes text).head?.map Char.ofUInt8 = text.head? := by
  cases text with
  | nil => rfl
  | cons c rest =>
    rw [bytes_cons, utf8EncodeChar_of_isAscii (h c rfl)]
    exact congrArg some (ofUInt8_toUInt8 (h c rfl))

theorem Reads.bind {r : Reader α} {f : α → Reader β} (h : r.Reads text (text' ++ after) a)
    (h' : (f a).Reads text' after b) : (r >>= f).Reads (text ++ text') after b := by
  unfold Reads at h ⊢
  rw [bytes_append] at h ⊢
  exact h.bind h'

theorem reads_pure (a : α) (after : List Char) : Reads (pure a) [] after a :=
  takes_pure a _

theorem Reads.placed {r : Reader α} (h : r.Reads text after a) : (placed r).Reads text after a :=
  Takes.placed h

theorem Reads.closing {body : Reader α} {closer : Reader Unit}
    (h : body.Reads text (text' ++ after) a) (h' : closer.Reads text' after ()) :
    (closing body closer).Reads (text ++ text') after a := by
  unfold Reads at h ⊢
  rw [bytes_append] at h ⊢
  exact Takes.closing h h'

theorem reads_peek (h : Starts after) : peek.Reads [] after after.head? := by
  have := takes_peek (bytes after)
  rwa [h.head?] at this

theorem reads_take (hc : IsAscii c) : take.Reads [c] after () := by
  unfold Reads
  rw [bytes_cons, utf8EncodeChar_of_isAscii hc]
  exact takes_take _ _

theorem reads_next (hc : IsAscii c) : next.Reads [c] after (some c) := by
  have := takes_next c.toUInt8 (bytes after)
  rw [ofUInt8_toUInt8 hc] at this
  unfold Reads
  rwa [bytes_cons, utf8EncodeChar_of_isAscii hc]

theorem reads_bound : bound.Reads [] after ((bytes after).length + 1) :=
  takes_bound _

/-- The text does not start with a blank. -/
def NoGap (text : List Char) : Prop :=
  ∀ c ∈ text.head?, Cursor.isGap c.toUInt8 = false

theorem reads_gap (h : Starts after) (h' : NoGap after) : gap.Reads [] after after.head? := by
  have hblank : ∀ b ∈ (bytes after).head?, Cursor.isGap b = false := by
    cases after with
    | nil =>
      intro b hb
      cases hb
    | cons c rest =>
      rw [bytes_cons, utf8EncodeChar_of_isAscii (h c rfl)]
      intro b hb
      cases hb
      exact h' c rfl
  have hgap := takes_gap hblank
  rwa [h.head?] at hgap

variable {r : Reader α} {f : α → Reader β}

theorem Reads.cons_bind (h : r.Reads [c] (text ++ after) a) (h' : (f a).Reads text after b) :
    (r >>= f).Reads (c :: text) after b :=
  Reads.bind h h'

theorem Reads.take_bind {f : Unit → Reader β} (hc : IsAscii c) (h : (f ()).Reads text after b) :
    (take >>= f).Reads (c :: text) after b :=
  Reads.bind (reads_take hc) h

theorem Reads.next_bind {f : Option Char → Reader β} (hc : IsAscii c)
    (h : (f (some c)).Reads text after b) : (next >>= f).Reads (c :: text) after b :=
  Reads.bind (reads_next hc) h

theorem Reads.peek_bind {f : Option Char → Reader β} (hstarts : Starts (text ++ after))
    (h : (f (text ++ after).head?).Reads text after b) : (peek >>= f).Reads text after b :=
  Reads.bind (reads_peek hstarts) h

theorem Reads.gap_bind {f : Option Char → Reader β} (hstarts : Starts (text ++ after))
    (hgap : NoGap (text ++ after)) (h : (f (text ++ after).head?).Reads text after b) :
    (gap >>= f).Reads text after b :=
  Reads.bind (reads_gap hstarts hgap) h

theorem Reads.bound_bind {f : Nat → Reader β}
    (h : (f ((bytes (text ++ after)).length + 1)).Reads text after b) :
    (bound >>= f).Reads text after b :=
  Reads.bind reads_bound h

theorem Reads.bind_last (h : r.Reads text after a) (h' : (f a).Reads [] after b) :
    (r >>= f).Reads text after b := by
  have : (r >>= f).Reads (text ++ []) after b := Reads.bind h h'
  rwa [List.append_nil] at this

end Characters

/-! ## Words -/

theorem reads_word {w : List Char} (hw : ∀ c ∈ w, IsAscii c) (after : List Char) :
    (word w).Reads w after () := by
  induction w with
  | nil => exact reads_pure _ _
  | cons c rest ih =>
    refine Reads.next_bind (hw c List.mem_cons_self) ?_
    show (if c = c then word rest else failHere .expectedIdent).Reads rest after ()
    rw [if_pos rfl]
    exact ih fun d hd => hw d (List.mem_cons_of_mem _ hd)

/-! ## Strings -/

theorem takes_nextInString (b : UInt8) (after : List UInt8) :
    nextInString.Takes [b] after (Char.ofUInt8 b) :=
  Takes.cons_bind (takes_next b after) (takes_pure _ _)

theorem reads_nextInString {c : Char} (hc : IsAscii c) (after : List Char) :
    nextInString.Reads [c] after c :=
  Reads.next_bind hc (reads_pure _ _)

theorem hexDigit?_digitChar : ∀ n < 16, hexDigit? (Nat.digitChar n) = some n := by
  decide

theorem isAscii_digitChar : ∀ n < 16, IsAscii (Nat.digitChar n) := by
  decide

theorem reads_hexUnit {a b c d : Nat} (ha : a < 16) (hb : b < 16) (hc : c < 16) (hd : d < 16)
    (after : List Char) :
    hexUnit.Reads [Nat.digitChar a, Nat.digitChar b, Nat.digitChar c, Nat.digitChar d] after
      (((a * 16 + b) * 16 + c) * 16 + d) := by
  unfold hexUnit
  refine Reads.cons_bind (reads_nextInString (isAscii_digitChar a ha) _) ?_
  refine Reads.cons_bind (reads_nextInString (isAscii_digitChar b hb) _) ?_
  refine Reads.cons_bind (reads_nextInString (isAscii_digitChar c hc) _) ?_
  refine Reads.cons_bind (reads_nextInString (isAscii_digitChar d hd) _) ?_
  rw [hexDigit?_digitChar a ha, hexDigit?_digitChar b hb, hexDigit?_digitChar c hc,
    hexDigit?_digitChar d hd]
  exact reads_pure _ _

/-- The escape stands for the character, and can be passed over. -/
def IsEscape (rest : List Char) (c : Char) : Prop :=
  ∀ after, escape.Reads rest after (bytes [c]) ∧ skipEscape.Reads rest after ()

theorem isEscape_of_simple {letter c : Char} (hletter : IsAscii letter) (hu : letter ≠ 'u')
    (hsimple : simpleEscape? letter = some c) (hc : IsAscii c) : IsEscape [letter] c := by
  refine fun after => ⟨?_, ?_⟩
  · refine Reads.cons_bind (reads_nextInString hletter _) ?_
    rw [if_neg hu, hsimple, bytes_cons, utf8EncodeChar_of_isAscii hc]
    exact reads_pure _ _
  · refine Reads.cons_bind (reads_nextInString hletter _) ?_
    rw [if_neg hu, hsimple]
    exact reads_pure _ _

theorem isEscape_of_control {c : Char} (hc : c < ' ') :
    IsEscape ['u', '0', '0', hexChar (c.toNat / 16), hexChar (c.toNat % 16)] c := by
  have hlt : c.toNat < 32 := hc
  have hunit := fun after => reads_hexUnit (by decide : 0 < 16) (by decide : 0 < 16)
    (by omega : c.toNat / 16 < 16) (by omega : c.toNat % 16 < 16) after
  rw [show ((0 * 16 + 0) * 16 + c.toNat / 16) * 16 + c.toNat % 16 = c.toNat by omega] at hunit
  have hbytes : charBytes c.toNat = bytes [c] := by
    unfold charBytes
    rw [Char.ofNat_toNat, String.singleton_eq_ofList, toList_toUTF8]
  refine fun after => ⟨?_, ?_⟩
  · refine Reads.cons_bind (reads_nextInString (by decide) _) ?_
    show unicodeEscape.Reads _ after _
    refine Reads.bind_last (hunit _) ?_
    rw [if_neg (by omega), if_pos (by omega), hbytes]
    exact reads_pure _ _
  · refine Reads.cons_bind (reads_nextInString (by decide) _) ?_
    show (hexUnit >>= fun _ => (pure () : Reader Unit)).Reads _ after ()
    exact Reads.bind_last (hunit _) (reads_pure _ _)

/-- **How a character is written in a string**: as it is, or as an escape. -/
theorem stringChar_cases (c : Char) :
    (stringChar c = [c] ∧ c ≠ '"' ∧ c ≠ '\\' ∧ ¬ c < ' ') ∨
      ∃ rest, stringChar c = '\\' :: rest ∧ IsEscape rest c := by
  by_cases hsimple : c = '"' ∨ c = '\\' ∨ c = '\n' ∨ c = '\r' ∨ c = '\t' ∨ c = '\x08' ∨ c = '\x0c'
  · right
    obtain rfl | rfl | rfl | rfl | rfl | rfl | rfl := hsimple
    all_goals exact ⟨_, rfl, isEscape_of_simple (by decide) (by decide) rfl (by decide)⟩
  · simp only [not_or] at hsimple
    obtain ⟨h₁, h₂, h₃, h₄, h₅, h₆, h₇⟩ := hsimple
    have hrest : stringChar c = if c < ' ' then
        ['\\', 'u', '0', '0', hexChar (c.toNat / 16), hexChar (c.toNat % 16)] else [c] := by
      unfold stringChar
      rw [if_neg h₁, if_neg h₂, if_neg h₃, if_neg h₄, if_neg h₅, if_neg h₆, if_neg h₇]
    by_cases hcontrol : c < ' '
    · rw [hrest, if_pos hcontrol]
      exact .inr ⟨_, rfl, isEscape_of_control hcontrol⟩
    · rw [hrest, if_neg hcontrol]
      exact .inl ⟨rfl, h₁, h₂, hcontrol⟩

/-- The byte stands for itself in a string. -/
structure IsPlain (b : UInt8) : Prop where
  quote : Char.ofUInt8 b ≠ '"'
  backslash : Char.ofUInt8 b ≠ '\\'
  control : ¬ Char.ofUInt8 b < ' '

theorem toUInt8_ofUInt8 (b : UInt8) : (Char.ofUInt8 b).toUInt8 = b := by
  show b.toUInt32.toUInt8 = b
  exact UInt8.toUInt8_toUInt32 b

theorem isPlain_of_le {b : UInt8} (hb : 128 ≤ b.toNat) : IsPlain b := by
  have htoNat : (Char.ofUInt8 b).toNat = b.toNat := UInt8.toNat_toUInt32 b
  refine ⟨fun h => ?_, fun h => ?_, fun h => ?_⟩
  · rw [h] at htoNat
    exact absurd hb (by rw [← htoNat]; decide)
  · rw [h] at htoNat
    exact absurd hb (by rw [← htoNat]; decide)
  · have hlt : (Char.ofUInt8 b).toNat < 32 := h
    omega

/-- The bytes of a character beyond the first 128 are themselves beyond them. -/
theorem le_of_mem_utf8EncodeChar {c : Char} (hc : ¬ IsAscii c) {b : UInt8}
    (hb : b ∈ String.utf8EncodeChar c) : 128 ≤ b.toNat := by
  have hlarge : 128 ≤ c.val.toNat := Nat.not_lt.1 hc
  unfold String.utf8EncodeChar at hb
  simp only [show ¬ c.val.toNat ≤ 127 by omega, if_false] at hb
  split at hb
  · simp only [List.mem_cons, List.not_mem_nil, or_false] at hb
    obtain rfl | rfl := hb <;> rw [UInt8.toNat_ofNat'] <;> omega
  split at hb
  · simp only [List.mem_cons, List.not_mem_nil, or_false] at hb
    obtain rfl | rfl | rfl := hb <;> rw [UInt8.toNat_ofNat'] <;> omega
  · simp only [List.mem_cons, List.not_mem_nil, or_false] at hb
    obtain rfl | rfl | rfl | rfl := hb <;> rw [UInt8.toNat_ofNat'] <;> omega

theorem isPlain_of_mem_bytes {c : Char} (hquote : c ≠ '"') (hbackslash : c ≠ '\\')
    (hcontrol : ¬ c < ' ') {b : UInt8} (hb : b ∈ bytes [c]) : IsPlain b := by
  rw [bytes_cons] at hb
  by_cases hc : IsAscii c
  · rw [utf8EncodeChar_of_isAscii hc] at hb
    cases hb with
    | head =>
      exact ⟨by rwa [ofUInt8_toUInt8 hc], by rwa [ofUInt8_toUInt8 hc],
        by rwa [ofUInt8_toUInt8 hc]⟩
    | tail _ h => cases h
  · exact isPlain_of_le (le_of_mem_utf8EncodeChar hc (by simpa [bytes] using hb))

theorem takes_get_bind {f : Cursor → Reader β} {taken after : List UInt8}
    (h : ∀ c, (f c).Takes taken after b) : (get >>= f).Takes taken after b :=
  fun c hsteady hrest => h c c hsteady hrest

theorem takes_stringBytes_plain {bs rest after taken result : List UInt8} {fuel : Nat}
    (hbs : ∀ b ∈ bs, IsPlain b)
    (h : (stringBytes (bs.reverse ++ taken) fuel).Takes rest after result) :
    (stringBytes taken (bs.length + fuel)).Takes (bs ++ rest) after result := by
  induction bs generalizing taken with
  | nil =>
    rw [List.length_nil, Nat.zero_add]
    exact h
  | cons b bs ih =>
    obtain ⟨hquote, hbackslash, hcontrol⟩ := hbs b List.mem_cons_self
    rw [List.length_cons, Nat.add_right_comm]
    refine Takes.cons_bind (takes_nextInString b _) ?_
    rw [if_neg hquote, if_neg hbackslash, if_neg hcontrol, toUInt8_ofUInt8]
    refine ih (fun b hb => hbs b (List.mem_cons_of_mem _ hb)) ?_
    rwa [List.reverse_cons, List.append_assoc] at h

theorem takes_skipString_plain {bs rest after : List UInt8} {fuel : Nat}
    (hbs : ∀ b ∈ bs, IsPlain b) (h : (skipString fuel).Takes rest after ()) :
    (skipString (bs.length + fuel)).Takes (bs ++ rest) after () := by
  induction bs with
  | nil =>
    rw [List.length_nil, Nat.zero_add]
    exact h
  | cons b bs ih =>
    obtain ⟨hquote, hbackslash, hcontrol⟩ := hbs b List.mem_cons_self
    rw [List.length_cons, Nat.add_right_comm]
    refine takes_get_bind fun before => Takes.cons_bind (takes_nextInString b _) ?_
    rw [if_neg hquote, if_neg hbackslash, if_neg hcontrol]
    exact ih fun b hb => hbs b (List.mem_cons_of_mem _ hb)

/-- One character of a string, in a loop that takes it in as many steps as it likes, but no more
than it has bytes. -/
def LoopTakes {σ : Type} (loop : σ → Nat → Reader β) (step : σ → Char → σ) : Prop :=
  ∀ (c : Char) (s : σ), ∃ cost ≤ (bytes (stringChar c)).length,
    ∀ (fuel : Nat) (rest after : List Char) (result : β),
      (loop (step s c) fuel).Reads rest after result →
      (loop s (cost + fuel)).Reads (stringChar c ++ rest) after result

/-- The loop over a string takes it character by character. -/
theorem LoopTakes.reads {σ : Type} {loop : σ → Nat → Reader β} {step : σ → Char → σ} {out : σ → β}
    (hloop : LoopTakes loop step)
    (hquote : ∀ s fuel after, (loop s (fuel + 1)).Reads ['"'] after (out s))
    (cs after : List Char) :
    ∀ {s : σ} {fuel : Nat}, (bytes (cs.flatMap stringChar)).length < fuel →
      (loop s fuel).Reads (cs.flatMap stringChar ++ ['"']) after (out (cs.foldl step s)) := by
  induction cs with
  | nil =>
    intro s fuel hfuel
    obtain ⟨fuel, rfl⟩ := Nat.exists_eq_succ_of_ne_zero (Nat.ne_of_gt hfuel)
    exact hquote s fuel after
  | cons c cs ih =>
    intro s fuel hfuel
    rw [List.flatMap_cons, bytes_append, List.length_append] at hfuel
    rw [List.flatMap_cons, List.append_assoc]
    obtain ⟨cost, hcost, hstep⟩ := hloop c s
    have := hstep (fuel - cost) _ after _ (ih (by omega))
    rwa [Nat.add_sub_cancel' (by omega)] at this

/-- What is to be known of a loop: how it takes a character that stands for itself, byte by byte,
and how it takes an escape, at once. -/
theorem LoopTakes.of_cases {σ : Type} {loop : σ → Nat → Reader β} {step : σ → Char → σ}
    (hplain : ∀ (c : Char) (s : σ), (∀ b ∈ bytes [c], IsPlain b) →
      ∀ (fuel : Nat) (rest after : List Char) (result : β),
        (loop (step s c) fuel).Reads rest after result →
          (loop s ((bytes [c]).length + fuel)).Reads ([c] ++ rest) after result)
    (hescaped : ∀ (c : Char) (s : σ) (escaped : List Char), IsEscape escaped c →
      ∀ (fuel : Nat) (rest after : List Char) (result : β),
        (loop (step s c) fuel).Reads rest after result →
          (loop s (fuel + 1)).Reads ('\\' :: escaped ++ rest) after result) :
    LoopTakes loop step := by
  intro c s
  obtain ⟨hself, hquote, hbackslash, hcontrol⟩ | ⟨escaped, hchar, hescape⟩ := stringChar_cases c
  · refine ⟨(bytes [c]).length, Nat.le_of_eq (by rw [hself]), ?_⟩
    rw [hself]
    exact hplain c s (fun b hb => isPlain_of_mem_bytes hquote hbackslash hcontrol hb)
  · refine ⟨1, ?_, ?_⟩
    · rw [hchar, bytes_cons]
      show 1 ≤ ([92] ++ bytes escaped).length
      simp
    · intro fuel
      rw [hchar, Nat.add_comm]
      exact hescaped c s escaped hescape fuel

theorem loopTakes_stringBytes :
    LoopTakes stringBytes (fun taken c => (bytes [c]).reverse ++ taken) := by
  refine .of_cases (fun c taken hbytes fuel rest after result h => ?_)
    (fun c taken escaped hescape fuel rest after result h => ?_)
  · unfold Reads at h ⊢
    rw [bytes_append]
    exact takes_stringBytes_plain hbytes h
  · refine Reads.cons_bind (reads_nextInString (by decide) _) ?_
    rw [if_neg (by decide), if_pos rfl]
    exact Reads.bind (hescape _).1 h

theorem loopTakes_skipString : LoopTakes (fun (_ : Unit) => skipString) (fun _ _ => ()) := by
  refine .of_cases (fun c _ hbytes fuel rest after result h => ?_)
    (fun c _ escaped hescape fuel rest after result h => ?_)
  · unfold Reads at h ⊢
    rw [bytes_append]
    exact takes_skipString_plain hbytes h
  · refine takes_get_bind fun before => Reads.cons_bind (reads_nextInString (by decide) _) ?_
    rw [if_neg (by decide), if_pos rfl]
    exact Reads.bind (hescape _).2 h

theorem reverse_foldl_bytes (cs : List Char) (taken : List UInt8) :
    (cs.foldl (fun taken c => (bytes [c]).reverse ++ taken) taken).reverse =
      taken.reverse ++ bytes cs := by
  induction cs generalizing taken with
  | nil => exact (List.append_nil _).symm
  | cons c cs ih =>
    rw [List.foldl_cons, ih, List.reverse_append, List.reverse_reverse, List.append_assoc,
      ← bytes_append]
    rfl

theorem fromUTF8?_bytes (s : String) :
    String.fromUTF8? (bytes s.toList).toByteArray = some s := by
  have hbytes : (bytes s.toList).toByteArray = s.toByteArray := String.utf8Encode_toList
  rw [hbytes]
  unfold String.fromUTF8?
  rw [dif_pos s.isValidUTF8]
  rfl

theorem length_bytes_lt (text rest : List Char) :
    (bytes text).length < (bytes (text ++ rest)).length + 1 := by
  rw [bytes_append, List.length_append]
  omega

/-- **A string reads back.** -/
theorem reads_string (s : String) (after : List Char) : string.Reads (stringText s) after s := by
  refine Reads.take_bind (by decide) (Reads.bound_bind ?_)
  rw [List.append_eq, List.append_assoc]
  have hquote : ∀ taken fuel after,
      (stringBytes taken (fuel + 1)).Reads ['"'] after taken.reverse := fun taken fuel after =>
    Reads.cons_bind (reads_nextInString (by decide) _) (reads_pure _ _)
  have hloop := loopTakes_stringBytes.reads hquote s.toList after (s := [])
    (length_bytes_lt _ (['"'] ++ after))
  rw [reverse_foldl_bytes] at hloop
  refine Reads.bind_last hloop ?_
  rw [List.reverse_nil, List.nil_append, fromUTF8?_bytes]
  exact reads_pure _ _

/-- **A string can be passed over.** -/
theorem reads_skipString (s : String) (after : List Char) :
    (take >>= fun _ => bound >>= skipString).Reads (stringText s) after () := by
  refine Reads.take_bind (by decide) (Reads.bound_bind ?_)
  rw [List.append_eq, List.append_assoc]
  have hquote : ∀ (_ : Unit) fuel after, (skipString (fuel + 1)).Reads ['"'] after () :=
    fun _ fuel after => takes_get_bind fun before =>
      Reads.cons_bind (reads_nextInString (by decide) _) (reads_pure _ _)
  exact loopTakes_skipString.reads hquote s.toList after (s := ())
    (length_bytes_lt _ (['"'] ++ after))

end Reader

end Pagewright.Json
