import Pagewright.Proofs.Html.Escape

/-!
# Escaped text is plain text with references in it

The reader of markup knows where a text or a value ends and comes over it to the characters that
were meant. Here nothing is said about tags and quotes. An escaped text is looked at by itself, as
it may be copied to another place: which characters there are in it, where its references begin, and
what the text is once the references have been put back (`Html.decodeReferences?`).

Every character is written by one of two rules. It stands for itself if it means nothing in markup
and is one of the first code points, and else it is written as a reference (`Html.Form`). A
reference is a name or a number between `&` and `;`, so neither of the two signs is ever part of it,
and a text that looks like a reference has its `&` written as one. This is why no reference goes
from one character over to the next.

A line feed between tags is not a character but a line break, and a carriage return is left out.
-/

namespace Pagewright

/-- **A place in a list that is put together from pieces** lies in one of the pieces, behind those
in front of it. -/
theorem exists_of_flatMap_eq {α β : Type} {f : α → List β} {xs : List α} {before after : List β}
    {y : β} (h : xs.flatMap f = before ++ y :: after) :
    ∃ done x todo b a, xs = done ++ x :: todo ∧ f x = b ++ y :: a ∧
      before = done.flatMap f ++ b ∧ after = a ++ todo.flatMap f := by
  induction xs generalizing before with
  | nil => exact absurd h.symm (List.append_ne_nil_of_right_ne_nil _ (List.cons_ne_nil _ _))
  | cons x xs ih =>
    have hlater : ∀ front, xs.flatMap f = front ++ y :: after → before = f x ++ front →
        ∃ done x' todo b a, x :: xs = done ++ x' :: todo ∧ f x' = b ++ y :: a ∧
          before = done.flatMap f ++ b ∧ after = a ++ todo.flatMap f := by
      rintro front hxs rfl
      obtain ⟨done, x', todo, b, a, rfl, hpiece, rfl, hafter⟩ := ih hxs
      refine ⟨x :: done, x', todo, b, a, rfl, hpiece, ?_, hafter⟩
      rw [List.flatMap_cons, List.append_assoc]
    rw [List.flatMap_cons, List.append_eq_append_iff] at h
    rcases h with ⟨front, hbefore, hxs⟩ | ⟨piece, hpiece, hrest⟩
    · exact hlater front hxs hbefore
    · cases piece with
      | nil =>
        refine hlater [] hrest.symm ?_
        rw [hpiece, List.append_nil, List.append_nil]
      | cons y' a =>
        obtain ⟨rfl, rfl⟩ := List.cons.inj hrest
        exact ⟨[], x, xs, before, a, rfl, hpiece, rfl, rfl⟩

namespace Html

/-! ## Decoding -/

/-- The characters of a text, with what has been read of a reference if the text begins inside
one. -/
def decodeFrom : Option (List Char) → List Char → Option (List Char)
  | none, [] => some []
  | some _, [] => none
  | none, c :: cs =>
    if c = '&' then decodeFrom (some []) cs else (decodeFrom none cs).map (c :: ·)
  | some reference, c :: cs =>
    if c = ';' then (decodeReference reference).bind fun d => (decodeFrom none cs).map (d :: ·)
    else decodeFrom (some (reference ++ [c])) cs

/-- **The text with its references decoded**, if every `&` in it starts a reference. All other
characters stand for themselves. -/
def decodeReferences? (s : String) : Option String :=
  (decodeFrom none s.toList).map String.ofList

/-- Every line break as a line feed. -/
def feedsForBreaks : List Char → List Char
  | '<' :: 'b' :: 'r' :: '>' :: cs => '\n' :: feedsForBreaks cs
  | c :: cs => c :: feedsForBreaks cs
  | [] => []

/-- **The text between tags**: first every line break becomes a line feed, and then the references
are decoded. -/
def decodeText? (s : String) : Option String :=
  decodeReferences? (String.ofList (feedsForBreaks s.toList))

/-! ## References -/

/-- **The references that are written**, and the characters they mean. -/
inductive ReferenceTo : Char → List Char → Prop where
  | lt : ReferenceTo '<' "&lt;".toList
  | gt : ReferenceTo '>' "&gt;".toList
  | amp : ReferenceTo '&' "&amp;".toList
  | quot : ReferenceTo '"' "&quot;".toList
  | feed : ReferenceTo '\n' "&#10;".toList
  | numeric {c : Char} (h : firstNumeric ≤ c.toNat) : ReferenceTo c (numericReference c)

/-- A letter, a digit or the sign in front of a number. -/
def isReferenceChar (c : Char) : Bool :=
  c.isAlphanum || c = '#'

theorem ne_of_isReferenceChar {c d : Char} (hc : isReferenceChar c = true)
    (hd : isReferenceChar d = false) : c ≠ d := by
  rintro rfl
  rw [hc] at hd
  cases hd

/-- The characters of references are below those that have to be written as references. -/
theorem toNat_lt_of_isReferenceChar {c : Char} (h : isReferenceChar c = true) :
    c.toNat < firstNumeric := by
  rcases Bool.or_eq_true_iff.mp h with h | h
  · unfold Char.isAlphanum Char.isAlpha Char.isUpper Char.isLower Char.isDigit at h
    simp only [Bool.or_eq_true, Bool.and_eq_true, decide_eq_true_eq, UInt32.le_iff_toNat_le,
      ge_iff_le] at h
    change ((65 ≤ c.toNat ∧ c.toNat ≤ 90) ∨ (97 ≤ c.toNat ∧ c.toNat ≤ 122)) ∨
      (48 ≤ c.toNat ∧ c.toNat ≤ 57) at h
    change c.toNat < 160
    omega
  · rw [of_decide_eq_true h]
    decide

/-- **A reference is a word between `&` and `;`** from which its character is decoded. -/
theorem ReferenceTo.exists_word {c : Char} {cs : List Char} (h : ReferenceTo c cs) :
    ∃ word, cs = '&' :: (word ++ [';']) ∧ (∀ d ∈ word, isReferenceChar d = true) ∧
      decodeReference word = some c := by
  cases h with
  | lt => exact ⟨"lt".toList, rfl, List.all_eq_true.mp rfl, rfl⟩
  | gt => exact ⟨"gt".toList, rfl, List.all_eq_true.mp rfl, rfl⟩
  | amp => exact ⟨"amp".toList, rfl, List.all_eq_true.mp rfl, rfl⟩
  | quot => exact ⟨"quot".toList, rfl, List.all_eq_true.mp rfl, rfl⟩
  | feed => exact ⟨"#10".toList, rfl, List.all_eq_true.mp rfl, rfl⟩
  | numeric h =>
    refine ⟨'#' :: Nat.toDigits 10 c.toNat, rfl, ?_, Reader.decodeReference_numeric c⟩
    refine List.forall_mem_cons.mpr ⟨rfl, fun d hd => ?_⟩
    have hdigit := Nat.isDigit_of_mem_toDigits (by decide) (by decide) hd
    simp [isReferenceChar, Char.isAlphanum, hdigit]

/-- What stands in a reference is collected up to its end. -/
theorem decodeFrom_word {word : List Char} (h : ∀ d ∈ word, isReferenceChar d = true)
    (reference rest : List Char) :
    decodeFrom (some reference) (word ++ rest) = decodeFrom (some (reference ++ word)) rest := by
  induction word generalizing reference with
  | nil => rw [List.append_nil, List.nil_append]
  | cons d word ih =>
    obtain ⟨hd, hword⟩ := List.forall_mem_cons.mp h
    rw [List.cons_append, decodeFrom, if_neg (ne_of_isReferenceChar hd rfl), ih hword,
      ← List.append_cons]

namespace ReferenceTo

variable {c : Char} {cs : List Char}

/-- A character of a reference is one of its two signs or belongs to the word between them. -/
theorem mem (h : ReferenceTo c cs) {d : Char} (hd : d ∈ cs) :
    d = '&' ∨ d = ';' ∨ isReferenceChar d = true := by
  obtain ⟨word, rfl, hword, -⟩ := h.exists_word
  rcases List.mem_cons.mp hd with rfl | hd
  · exact .inl rfl
  · rcases List.mem_append.mp hd with hd | hd
    · exact .inr (.inr (hword d hd))
    · exact .inr (.inl (List.mem_singleton.mp hd))

/-- **The sign `&` is the first character of a reference** and stands nowhere else in it. -/
theorem eq_nil_of_eq_append (h : ReferenceTo c cs) {before after : List Char}
    (hcs : cs = before ++ '&' :: after) : before = [] := by
  obtain ⟨word, rfl, hword, -⟩ := h.exists_word
  cases before with
  | nil => rfl
  | cons d before =>
    have hmem : '&' ∈ word ++ [';'] := by
      rw [(List.cons.inj hcs).2]
      exact List.mem_append_right _ List.mem_cons_self
    rcases List.mem_append.mp hmem with hmem | hmem
    · exact absurd (hword _ hmem) (by decide)
    · exact absurd (List.mem_singleton.mp hmem) (by decide)

/-- **A reference is decoded to its character**, whatever follows it. -/
theorem decodeFrom_append (h : ReferenceTo c cs) (rest : List Char) :
    decodeFrom none (cs ++ rest) = (decodeFrom none rest).map (c :: ·) := by
  obtain ⟨word, rfl, hword, hc⟩ := h.exists_word
  rw [List.cons_append, List.append_assoc, decodeFrom, if_pos rfl, decodeFrom_word hword,
    List.singleton_append, decodeFrom, if_pos rfl, List.nil_append, hc]
  rfl

end ReferenceTo

/-! ## The written form of a character -/

/-- **What a character is written as** where the characters `special` have a meaning of their own:
as itself or as a reference. -/
inductive Form (special : List Char) (c : Char) : List Char → Prop where
  | itself (hspecial : c ∉ special) (hlow : c.toNat < firstNumeric) : Form special c [c]
  | reference {cs : List Char} (h : ReferenceTo c cs) : Form special c cs

namespace Form

variable {special : List Char} {c d : Char} {cs : List Char}

theorem toNat_lt (h : Form special c cs) (hd : d ∈ cs) : d.toNat < firstNumeric := by
  cases h with
  | itself _ hlow => exact (List.mem_singleton.mp hd) ▸ hlow
  | reference h =>
    rcases h.mem hd with rfl | rfl | hd
    · decide
    · decide
    · exact toNat_lt_of_isReferenceChar hd

/-- **A character with a meaning of its own is not there**, unless references are made of it. -/
theorem not_mem (h : Form special c cs) (hd : d ∈ special) (hamp : d ≠ '&') (hend : d ≠ ';')
    (hword : isReferenceChar d = false) : d ∉ cs := by
  intro hmem
  cases h with
  | itself hspecial _ => exact hspecial (List.mem_singleton.mp hmem ▸ hd)
  | reference h =>
    rcases h.mem hmem with rfl | rfl | hd
    · exact hamp rfl
    · exact hend rfl
    · exact absurd rfl (ne_of_isReferenceChar hd hword)

/-- **Where there is an `&`, there is a reference.** -/
theorem referenceTo (h : Form special c cs) (hamp : '&' ∈ special) {before after : List Char}
    (hcs : cs = before ++ '&' :: after) : before = [] ∧ ReferenceTo c cs := by
  cases h with
  | itself hspecial _ =>
    have hmem : '&' ∈ [c] := hcs ▸ List.mem_append_right _ List.mem_cons_self
    exact absurd (List.mem_singleton.mp hmem ▸ hamp) hspecial
  | reference h => exact ⟨h.eq_nil_of_eq_append hcs, h⟩

/-- **The character is decoded from its written form**, whatever follows it. -/
theorem decodeFrom_append (h : Form special c cs) (hamp : '&' ∈ special) (rest : List Char) :
    decodeFrom none (cs ++ rest) = (decodeFrom none rest).map (c :: ·) := by
  cases h with
  | itself hspecial _ =>
    rw [List.singleton_append, decodeFrom, if_neg]
    rintro rfl
    exact hspecial hamp
  | reference h => exact h.decodeFrom_append rest

end Form

/-! ## Values of attributes -/

theorem form_attributeChar (c : Char) :
    Form ['<', '>', '&', '"', '\n'] c (attributeChar c) := by
  unfold attributeChar
  split
  · next h => subst h; exact .reference .lt
  split
  · next h => subst h; exact .reference .gt
  split
  · next h => subst h; exact .reference .amp
  split
  · next h => subst h; exact .reference .quot
  split
  · next h => subst h; exact .reference .feed
  split
  · next h => exact .reference (.numeric h)
  · next hlt hgt hamp hquote hfeed hnumeric =>
    refine .itself ?_ (Nat.lt_of_not_le hnumeric)
    simp [hlt, hgt, hamp, hquote, hfeed]

theorem toList_escapeAttribute (s : String) :
    (escapeAttribute s).toList = s.toList.flatMap attributeChar :=
  String.toList_ofList

/-- **The references in a value are decoded to the value.** -/
theorem decodeReferences?_escapeAttribute (s : String) :
    decodeReferences? (escapeAttribute s) = some s := by
  have hall : ∀ cs : List Char, decodeFrom none (cs.flatMap attributeChar) = some cs := by
    intro cs
    induction cs with
    | nil => rfl
    | cons c cs ih =>
      rw [List.flatMap_cons, (form_attributeChar c).decodeFrom_append (by decide), ih]
      rfl
  unfold decodeReferences?
  rw [toList_escapeAttribute, hall, Option.map_some, String.ofList_toList]

/-- **Every `&` in a value starts a reference** to one of its characters. -/
theorem exists_referenceTo_of_escapeAttribute {s : String} {before after : List Char}
    (h : (escapeAttribute s).toList = before ++ '&' :: after) :
    ∃ c ∈ s.toList, ∃ cs rest, ReferenceTo c cs ∧ '&' :: after = cs ++ rest := by
  rw [toList_escapeAttribute] at h
  obtain ⟨done, c, todo, b, a, hs, hpiece, -, rfl⟩ := exists_of_flatMap_eq h
  obtain ⟨rfl, href⟩ := (form_attributeChar c).referenceTo (by decide) hpiece
  refine ⟨c, by simp [hs], _, todo.flatMap attributeChar, href, ?_⟩
  rw [hpiece]
  rfl

/-- The characters of an escaped value. -/
theorem mem_escapeAttribute {s : String} {d : Char} (h : d ∈ (escapeAttribute s).toList) :
    d.toNat < firstNumeric ∧ d ≠ '<' ∧ d ≠ '>' ∧ d ≠ '"' ∧ d ≠ '\n' := by
  rw [toList_escapeAttribute] at h
  obtain ⟨c, -, hd⟩ := List.mem_flatMap.mp h
  have hform := form_attributeChar c
  refine ⟨hform.toNat_lt hd, ?_, ?_, ?_, ?_⟩
  all_goals
    rintro rfl
    exact hform.not_mem (by decide) (by decide) (by decide) (by decide) hd

/-! ## Text between tags -/

/-- A character of a text is written as a line break, as nothing, or in one of its two forms. -/
theorem textChar_cases (c : Char) :
    c = '\n' ∧ textChar c = "<br>".toList ∨ c = '\r' ∧ textChar c = [] ∨
      c ≠ '\n' ∧ c ≠ '\r' ∧ Form ['<', '>', '&'] c (textChar c) := by
  by_cases hfeed : c = '\n'
  · subst hfeed
    exact .inl ⟨rfl, rfl⟩
  by_cases hreturn : c = '\r'
  · subst hreturn
    exact .inr (.inl ⟨rfl, rfl⟩)
  refine .inr (.inr ⟨hfeed, hreturn, ?_⟩)
  unfold textChar
  split
  · next h => subst h; exact .reference .lt
  split
  · next h => subst h; exact .reference .gt
  split
  · next h => subst h; exact .reference .amp
  split
  · next h => exact .reference (.numeric h)
  · next hlt hgt hamp hnumeric =>
    refine .itself ?_ (Nat.lt_of_not_le hnumeric)
    simp [hlt, hgt, hamp]

theorem toList_escapeText (s : String) :
    (escapeText s).toList = s.toList.flatMap textChar :=
  String.toList_ofList

theorem toNat_lt_of_mem_escapeText {s : String} {d : Char} (h : d ∈ (escapeText s).toList) :
    d.toNat < firstNumeric := by
  rw [toList_escapeText] at h
  obtain ⟨c, -, hd⟩ := List.mem_flatMap.mp h
  rcases textChar_cases c with ⟨-, hc⟩ | ⟨-, hc⟩ | ⟨-, -, hform⟩
  · rw [hc] at hd
    exact of_decide_eq_true (List.all_eq_true.mp (show ("<br>".toList.all
      fun d => decide (d.toNat < firstNumeric)) = true from rfl) d hd)
  · rw [hc] at hd
    cases hd
  · exact hform.toNat_lt hd

/-- **Outside references, `<` and `>` are those of line breaks.** A place with one of the two is in
the line break that a line feed is written as. -/
theorem exists_break_of_escapeText {s : String} {before after : List Char} {d : Char}
    (hd : d = '<' ∨ d = '>') (h : (escapeText s).toList = before ++ d :: after) :
    ∃ front b a back, "<br>".toList = b ++ d :: a ∧ before = front ++ b ∧ after = a ++ back := by
  rw [toList_escapeText] at h
  obtain ⟨done, c, todo, b, a, -, hpiece, hbefore, hafter⟩ := exists_of_flatMap_eq h
  rcases textChar_cases c with ⟨-, hc⟩ | ⟨-, hc⟩ | ⟨-, -, hform⟩
  · exact ⟨_, b, a, _, hc ▸ hpiece, hbefore, hafter⟩
  · rw [hc] at hpiece
    exact absurd hpiece.symm (List.append_ne_nil_of_right_ne_nil _ (List.cons_ne_nil _ _))
  · have hmem : d ∈ textChar c := hpiece ▸ List.mem_append_right _ List.mem_cons_self
    rcases hd with rfl | rfl <;>
      exact absurd hmem (hform.not_mem (by decide) (by decide) (by decide) (by decide))

theorem exists_eq_of_lt {s : String} {before after : List Char}
    (h : (escapeText s).toList = before ++ '<' :: after) :
    ∃ rest, after = "br>".toList ++ rest := by
  obtain ⟨front, b, a, back, hbreak, -, rfl⟩ := exists_break_of_escapeText (.inl rfl) h
  have ha : a = "br>".toList := by
    have hsplit : b = [] ∧ a = "br>".toList := by simpa [List.cons_eq_append_iff] using hbreak
    exact hsplit.2
  exact ⟨back, by rw [ha]⟩

theorem exists_eq_of_gt {s : String} {before after : List Char}
    (h : (escapeText s).toList = before ++ '>' :: after) :
    ∃ rest, before = rest ++ "<br".toList := by
  obtain ⟨front, b, a, back, hbreak, rfl, -⟩ := exists_break_of_escapeText (.inr rfl) h
  have hb : b = "<br".toList := by
    obtain ⟨b, rfl, b, rfl, b, rfl, rfl, -⟩ : ∃ b₁, b = '<' :: b₁ ∧ ∃ b₂, b₁ = 'b' :: b₂ ∧
        ∃ b₃, b₂ = 'r' :: b₃ ∧ b₃ = [] ∧ a = [] := by
      simpa [List.cons_eq_append_iff] using hbreak
    rfl
  exact ⟨front, by rw [hb]⟩

theorem feedsForBreaks_cons {c : Char} (h : c ≠ '<') (cs : List Char) :
    feedsForBreaks (c :: cs) = c :: feedsForBreaks cs := by
  rw [feedsForBreaks]
  rintro rest rfl
  exact absurd rfl h

/-- Without `<` there is no line break. -/
theorem feedsForBreaks_append {cs : List Char} (h : '<' ∉ cs) (rest : List Char) :
    feedsForBreaks (cs ++ rest) = cs ++ feedsForBreaks rest := by
  induction cs with
  | nil => rfl
  | cons c cs ih =>
    rw [List.mem_cons, not_or] at h
    rw [List.cons_append, feedsForBreaks_cons (Ne.symm h.1), ih h.2, List.cons_append]

/-- **A text between tags is decoded to the text without its carriage returns.** -/
theorem decodeText?_escapeText (s : String) :
    decodeText? (escapeText s) = some (String.ofList (s.toList.filter (· ≠ '\r'))) := by
  have hall : ∀ cs : List Char, decodeFrom none (feedsForBreaks (cs.flatMap textChar))
      = some (cs.filter (· ≠ '\r')) := by
    intro cs
    induction cs with
    | nil => rfl
    | cons c cs ih =>
      rw [List.flatMap_cons]
      rcases textChar_cases c with ⟨rfl, hc⟩ | ⟨rfl, hc⟩ | ⟨-, hreturn, hform⟩
      · rw [hc]
        show decodeFrom none ('\n' :: feedsForBreaks (cs.flatMap textChar)) = _
        rw [decodeFrom, if_neg (by decide), ih]
        rfl
      · rw [hc, List.nil_append, ih]
        rfl
      · have hlt : '<' ∉ textChar c :=
          hform.not_mem (by decide) (by decide) (by decide) (by decide)
        rw [feedsForBreaks_append hlt, hform.decodeFrom_append (by decide), ih,
          List.filter_cons_of_pos (by simpa using hreturn)]
        rfl
  unfold decodeText? decodeReferences?
  rw [String.toList_ofList, toList_escapeText, hall]
  rfl

/-! ## Escaped text and what it stands for -/

/-- **Nothing in an escaped text can be mistaken, and nothing of the text is lost.** A value between
quotes consists of characters below U+00A0, none of which ends the value, the tag or the line, every
`&` in it starts one of the references that are written, and the references are decoded to the
value. A text between tags consists of characters below U+00A0 too, `<` and `>` stand in it only as
the ends of a line break, and it is decoded to the text without its carriage returns. -/
theorem decode_escape (s : String) :
    ((∀ c ∈ (escapeAttribute s).toList,
        c.toNat < 0xA0 ∧ c ≠ '<' ∧ c ≠ '>' ∧ c ≠ '"' ∧ c ≠ '\n') ∧
      (∀ before after, (escapeAttribute s).toList = before ++ '&' :: after →
        ∃ c ∈ s.toList, ∃ reference rest,
          ReferenceTo c reference ∧ '&' :: after = reference ++ rest) ∧
      decodeReferences? (escapeAttribute s) = some s) ∧
    (∀ c ∈ (escapeText s).toList, c.toNat < 0xA0) ∧
    (∀ before after, (escapeText s).toList = before ++ '<' :: after →
      ∃ rest, after = "br>".toList ++ rest) ∧
    (∀ before after, (escapeText s).toList = before ++ '>' :: after →
      ∃ rest, before = rest ++ "<br".toList) ∧
    decodeText? (escapeText s) = some (String.ofList (s.toList.filter (· ≠ '\r'))) :=
  ⟨⟨fun _ => mem_escapeAttribute, fun _ _ => exists_referenceTo_of_escapeAttribute,
      decodeReferences?_escapeAttribute s⟩,
    fun _ => toNat_lt_of_mem_escapeText, fun _ _ => exists_eq_of_lt, fun _ _ => exists_eq_of_gt,
    decodeText?_escapeText s⟩

/-- A text that looks like a reference and like a line break, with a line feed behind a carriage
return and a character of a higher code point. -/
def lookalike : String := "&lt;<br>\r\n\u00e9\""

/-- The text is written without anything that it looks like, and all of it is decoded again except
for the carriage return between tags. The second `&` in the value starts the reference to `<`. -/
theorem decode_escape_lookalike :
    escapeAttribute lookalike = "&amp;lt;&lt;br&gt;\r&#10;&#233;&quot;" ∧
      escapeText lookalike = "&amp;lt;&lt;br&gt;<br>&#233;\"" ∧
      decodeReferences? (escapeAttribute lookalike) = some lookalike ∧
      decodeText? (escapeText lookalike) = some "&lt;<br>\n\u00e9\"" ∧
      (∃ c ∈ lookalike.toList, ∃ reference rest, ReferenceTo c reference ∧
        "&lt;br&gt;\r&#10;&#233;&quot;".toList = reference ++ rest) ∧
      ∃ rest, "br>&#233;\"".toList = "br>".toList ++ rest := by
  obtain ⟨⟨hchars, hamp, hattribute⟩, -, hlt, -, htext⟩ := decode_escape lookalike
  have hplace := hamp "&amp;lt;".toList "lt;br&gt;\r&#10;&#233;&quot;".toList rfl
  have hbreak := hlt "&amp;lt;&lt;br&gt;".toList "br>&#233;\"".toList rfl
  exact ⟨rfl, rfl, hattribute, htext, hplace, hbreak⟩

end Html

end Pagewright
