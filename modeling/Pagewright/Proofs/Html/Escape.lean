import Pagewright.Proofs.Html.Reader

/-!
# Escaped text is read as the text

A character of a text or of a value is written as itself, as a reference, or not at all, and the
reader comes over it to the character that was meant. So no text opens or closes a tag, and no value
ends before its quote, whatever the characters in it are. No escaped text holds a line feed either,
so that all line feeds in markup are those of the writer.
-/

namespace Pagewright

namespace Html

/-- A character of a text as it is read. -/
def proseChar (c : Char) : List Dom :=
  if c = '\r' then []
  else if c = '\n' then [.element "br" [] []]
  else [.character c]

/-- **A text as it is read**: carriage returns are left out, and a line feed is a line break. -/
def prose (s : String) : List Dom :=
  s.toList.flatMap proseChar

namespace Reader

variable {tree : PartialTree}

/-! ## References -/

/-- **A mode that collects characters** has collected all of them in the end. -/
theorem reads_collected {mode : List Char → Mode} {cs : List Char} (collected : List Char)
    (h : ∀ c ∈ cs, ∀ before, step ⟨mode before, tree⟩ c = some ⟨mode (before ++ [c]), tree⟩) :
    Reads ⟨mode collected, tree⟩ cs ⟨mode (collected ++ cs), tree⟩ := by
  induction cs generalizing collected with
  | nil => rw [List.append_nil]; exact Reads.nil _
  | cons c cs ih =>
    refine Reads.cons (h c List.mem_cons_self collected) ?_
    rw [List.append_cons collected c cs]
    exact ih (collected ++ [c]) (fun d hd => h d (List.mem_cons_of_mem _ hd))

/-- **A reference** is read as the character it means, wherever a mode collects references. -/
theorem reads_reference {start : State} (mode : List Char → Mode) (finish : Char → State)
    {reference : List Char} {c : Char} (hopen : step start '&' = some ⟨mode [], tree⟩)
    (hcollect : ∀ d ≠ ';', ∀ before,
      step ⟨mode before, tree⟩ d = some ⟨mode (before ++ [d]), tree⟩)
    (hclose : step ⟨mode reference, tree⟩ ';' = (decodeReference reference).map finish)
    (hname : ';' ∉ reference) (hc : decodeReference reference = some c) :
    Reads start ('&' :: reference ++ [';']) (finish c) := by
  have hall : Reads ⟨mode [], tree⟩ reference ⟨mode reference, tree⟩ :=
    reads_collected [] (fun d hd => hcollect d (fun h => hname (h ▸ hd)))
  refine Reads.append (Reads.cons hopen hall) (Reads.single ?_)
  rw [hclose, hc]
  rfl

/-- A reference between tags. -/
theorem reads_contentReference (reference : List Char) {c : Char}
    (hname : ';' ∉ reference) (hc : decodeReference reference = some c) :
    Reads ⟨.content, tree⟩ ('&' :: reference ++ [';'])
      ⟨.content, tree.extend [.character c]⟩ :=
  reads_reference .reference (fun c => ⟨.content, tree.extend [.character c]⟩) rfl
    (fun _ hd _ => if_neg hd) rfl hname hc

/-- A reference between quotes. -/
theorem reads_quotedReference (tag : Tag) (name value reference : List Char) {c : Char}
    (hname : ';' ∉ reference) (hc : decodeReference reference = some c) :
    Reads ⟨.value tag name value, tree⟩ ('&' :: reference ++ [';'])
      ⟨.value tag name (value ++ [c]), tree⟩ :=
  reads_reference (.valueReference tag name value)
    (fun c => ⟨.value tag name (value ++ [c]), tree⟩) rfl (fun _ hd _ => if_neg hd) rfl hname hc

/-- The digits of a character's code point lead back to the character. -/
theorem decodeReference_numeric (c : Char) :
    decodeReference ('#' :: Nat.toDigits 10 c.toNat) = some c := by
  have hdigits : (Nat.toDigits 10 c.toNat).all Char.isDigit :=
    List.all_eq_true.mpr (fun d hd => Nat.isDigit_of_mem_toDigits (by decide) (by decide) hd)
  show (if Nat.toDigits 10 c.toNat ≠ [] ∧ (Nat.toDigits 10 c.toNat).all Char.isDigit then
    some (Char.ofNat (Nat.ofDigitChars 10 (Nat.toDigits 10 c.toNat) 0)) else none) = some c
  rw [if_pos ⟨Nat.toDigits_ne_nil, hdigits⟩, Nat.ofDigitChars_ten_toDigits, Char.ofNat_toNat]

theorem semicolon_not_mem_numeric (c : Char) : ';' ∉ '#' :: Nat.toDigits 10 c.toNat := by
  intro h
  rcases List.mem_cons.mp h with h | h
  · exact absurd h (by decide)
  · exact absurd (Nat.isDigit_of_mem_toDigits (by decide) (by decide) h) (by decide)

/-! ## Texts and values -/

/-- **An escaped character between tags is read as the character**, a line feed as a line break. -/
theorem reads_textChar (c : Char) :
    Reads ⟨.content, tree⟩ (textChar c) ⟨.content, tree.extend (proseChar c)⟩ := by
  unfold textChar
  split
  · next h => subst h; exact reads_contentReference "lt".toList (by decide) rfl
  split
  · next h => subst h; exact reads_contentReference "gt".toList (by decide) rfl
  split
  · next h => subst h; exact reads_contentReference "amp".toList (by decide) rfl
  split
  · next h => subst h; rfl
  next hlt hgt hamp hfeed =>
  -- What is left is written as itself, as a number, or, if it is a carriage return, not at all.
  unfold proseChar
  rw [if_neg hfeed]
  split
  · rw [PartialTree.extend_nil]
    exact Reads.nil _
  split
  · exact reads_contentReference _ (semicolon_not_mem_numeric c) (decodeReference_numeric c)
  · refine Reads.single ?_
    show some (contentStep tree c) = _
    unfold contentStep
    rw [if_neg hlt, if_neg hamp, if_neg hfeed]

/-- **An escaped character between quotes is read as the character.** -/
theorem reads_attributeChar (tag : Tag) (name value : List Char) (c : Char) :
    Reads ⟨.value tag name value, tree⟩ (attributeChar c)
      ⟨.value tag name (value ++ [c]), tree⟩ := by
  have hreference := @reads_quotedReference tree tag name value
  unfold attributeChar
  split
  · next h => subst h; exact hreference "lt".toList (by decide) rfl
  split
  · next h => subst h; exact hreference "gt".toList (by decide) rfl
  split
  · next h => subst h; exact hreference "amp".toList (by decide) rfl
  split
  · next h => subst h; exact hreference "quot".toList (by decide) rfl
  split
  · next h => subst h; exact hreference "#10".toList (by decide) rfl
  next hlt hgt hamp hquote hfeed =>
  split
  · exact hreference _ (semicolon_not_mem_numeric c) (decodeReference_numeric c)
  · refine Reads.single ?_
    show (if c = '"' then _ else if c = '&' then _ else _) = _
    rw [if_neg hquote, if_neg hamp]

/-- A text is read character by character. -/
theorem reads_escapeText (s : String) :
    Reads ⟨.content, tree⟩ (escapeText s).toList ⟨.content, tree.extend (prose s)⟩ := by
  unfold escapeText prose
  rw [String.toList_ofList]
  induction s.toList generalizing tree with
  | nil => exact (PartialTree.extend_nil tree).symm ▸ Reads.nil _
  | cons c cs ih =>
    rw [List.flatMap_cons, List.flatMap_cons, ← PartialTree.extend_extend]
    exact (reads_textChar c).append ih

/-- A value is read character by character. -/
theorem reads_escapeAttribute (tag : Tag) (name : List Char) (s : String) :
    Reads ⟨.value tag name [], tree⟩ (escapeAttribute s).toList
      ⟨.value tag name s.toList, tree⟩ := by
  have hfrom : ∀ (cs value : List Char), Reads ⟨.value tag name value, tree⟩
      (cs.flatMap attributeChar) ⟨.value tag name (value ++ cs), tree⟩ := by
    intro cs
    induction cs with
    | nil => intro value; rw [List.append_nil]; exact Reads.nil _
    | cons c cs ih =>
      intro value
      rw [List.flatMap_cons, List.append_cons]
      exact (reads_attributeChar tag name value c).append (ih (value ++ [c]))
  unfold escapeAttribute
  rw [String.toList_ofList]
  exact hfrom s.toList []

/-! ## No line feed -/

theorem feed_not_mem_numericReference (c : Char) : '\n' ∉ numericReference c := by
  intro h
  rcases List.mem_append.mp h with h | h
  · rcases List.mem_cons.mp h with h | h
    · exact absurd h (by decide)
    · rcases List.mem_cons.mp h with h | h
      · exact absurd h (by decide)
      · exact absurd (Nat.isDigit_of_mem_toDigits (by decide) (by decide) h) (by decide)
  · exact absurd (List.mem_singleton.mp h) (by decide)

theorem feed_not_mem_textChar (c : Char) : '\n' ∉ textChar c := by
  unfold textChar
  split
  · decide
  split
  · decide
  split
  · decide
  split
  · decide
  split
  · decide
  split
  · exact feed_not_mem_numericReference c
  · next hfeed _ _ => exact fun h => hfeed (List.mem_singleton.mp h).symm

theorem feed_not_mem_attributeChar (c : Char) : '\n' ∉ attributeChar c := by
  unfold attributeChar
  split
  · decide
  split
  · decide
  split
  · decide
  split
  · decide
  split
  · decide
  split
  · exact feed_not_mem_numericReference c
  · next hfeed _ => exact fun h => hfeed (List.mem_singleton.mp h).symm

theorem feed_not_mem_escapeText (s : String) : '\n' ∉ (escapeText s).toList := by
  unfold escapeText
  rw [String.toList_ofList]
  intro h
  obtain ⟨c, -, hc⟩ := List.mem_flatMap.mp h
  exact feed_not_mem_textChar c hc

theorem feed_not_mem_escapeAttribute (s : String) : '\n' ∉ (escapeAttribute s).toList := by
  unfold escapeAttribute
  rw [String.toList_ofList]
  intro h
  obtain ⟨c, -, hc⟩ := List.mem_flatMap.mp h
  exact feed_not_mem_attributeChar c hc

end Reader

end Html

end Pagewright
