import Mathlib.Data.List.Basic
import Pagewright.Proofs.Stylesheet.Classes
import Pagewright.Proofs.Stylesheet.Lexemes
import Pagewright.Stylesheet.Parse

/-!
# Commas inside selectors

A rule begins with a list of selectors, and commas stand between them. But not every comma stands
between selectors. One may be part of an argument in parentheses, of a condition in square brackets,
of a string or of a comment, and then it is inside a selector. The classes of a rule are found
without this distinction: the text is cut at every comma, and whatever then begins with a class
counts (`Rule.leadingClasses`).

This module has the distinction (`Rule.selectorList`), and says what it would change. A class that
no selector begins with is found exactly where a comma inside a selector is followed by one
(`Rule.innerClasses`). And a class that a selector does begin with (`lead?`) is missed exactly where
a comment stands in front of the selector, since the comment is not passed over (`commentFirst`).
-/

namespace Pagewright

namespace Text

/-- Letters and digits come after the characters that are blank and below 128. -/
theorem le_toNat_of_isAlphanum {c : Char} (h : c.isAlphanum = true) : '0'.toNat ≤ c.toNat := by
  unfold Char.isAlphanum Char.isAlpha Char.isUpper Char.isLower Char.isDigit at h
  simp only [Bool.or_eq_true, Bool.and_eq_true, decide_eq_true_eq, UInt32.le_iff_toNat_le,
    ge_iff_le] at h
  change ((65 ≤ c.toNat ∧ c.toNat ≤ 90) ∨ (97 ≤ c.toNat ∧ c.toNat ≤ 122)) ∨
    (48 ≤ c.toNat ∧ c.toNat ≤ 57) at h
  change 48 ≤ c.toNat
  omega

/-- **No blank is a letter or a digit.** -/
theorem isAlphanumeric_of_isBlank {c : Char} (h : isBlank c = true) : isAlphanumeric c = false := by
  -- The tables are compared range by range, and those below 128 with the digit zero.
  have hlow : (blankRanges.all fun r => r.2 < '0'.toNat || 128 ≤ r.1) = true := by decide
  have hapart : (blankRanges.all fun r => alphanumericRanges.all fun s =>
      r.2 < s.1 || s.2 < r.1) = true := by decide +kernel
  obtain ⟨r, hr, hholds⟩ := List.any_eq_true.mp h
  have hlow := List.all_eq_true.mp hlow r hr
  have hapart := List.all_eq_true.mp (List.all_eq_true.mp hapart r hr)
  simp only [CodeRange.holds, Bool.and_eq_true, Bool.or_eq_true, decide_eq_true_eq]
    at hholds hlow hapart
  unfold isAlphanumeric
  split
  · rw [← Bool.not_eq_true]
    intro halphanum
    have hle := le_toNat_of_isAlphanum halphanum
    omega
  · refine List.any_eq_false.mpr (fun s hs => ?_)
    have hs := hapart s hs
    simp only [CodeRange.holds, Bool.and_eq_true, decide_eq_true_eq]
    omega

end Text

namespace Stylesheet

open Lexeme

/-! ## The selectors of a list -/

/-- **The brackets that are open** behind a lexeme, each given as the one that will close it, the
innermost first. A closing bracket that none of the open ones is waiting for closes nothing. -/
def Lexeme.nest (awaited : List Char) : Lexeme → List Char
  | plain c =>
    if c = '(' then ')' :: awaited
    else if c = '[' then ']' :: awaited
    else if awaited.head? = some c then awaited.tail
    else awaited
  | comment _ | quoted _ | unterminated _ => awaited

/-- **The selectors of a list**, cut where a comma stands and no bracket is open. -/
def splitSelectors (awaited : List Char) : List Lexeme → List (List Lexeme)
  | [] => [[]]
  | l :: ls =>
    if awaited = [] ∧ l = .plain ',' then [] :: splitSelectors [] ls
    else (splitSelectors (l.nest awaited) ls).modifyHead (l :: ·)

/-! ## The class of a selector -/

/-- The lexeme is a blank. -/
def Lexeme.isBlank : Lexeme → Bool
  | plain c => Text.isBlank c
  | comment _ | quoted _ | unterminated _ => false

/-- The lexeme is a comment. -/
def Lexeme.isComment : Lexeme → Bool
  | comment _ => true
  | plain _ | quoted _ | unterminated _ => false

/-- The lexeme can stand in the name of a class. -/
def Lexeme.isOfName : Lexeme → Bool
  | plain c => isNameChar c
  | comment _ | quoted _ | unterminated _ => false

/-- The class right at the beginning of a selector: a dot with a name behind it. -/
def classOf? : List Lexeme → Option (List Char)
  | .plain '.' :: rest =>
    let name := texts (rest.takeWhile Lexeme.isOfName)
    if name = [] then none else some name
  | _ => none

/-- **The class that a selector begins with**, behind blanks and comments. -/
def lead? (selector : List Lexeme) : Option (List Char) :=
  classOf? (selector.dropWhile fun l => l.isBlank || l.isComment)

/-- A comment stands in front of the selector. -/
def commentFirst (selector : List Lexeme) : Bool :=
  (selector.dropWhile Lexeme.isBlank).head?.any Lexeme.isComment

namespace Rule

/-- The selectors that a rule begins with. -/
def selectorList (rule : Rule) : List (List Lexeme) :=
  if rule.isDirective then [] else splitSelectors [] (lexemes rule.selector.toList)

/-- **The classes that selectors of the rule begin with**, in order. -/
def listedClasses (rule : Rule) : List String :=
  (rule.selectorList.filterMap lead?).map String.ofList

end Rule

/-! ## Cutting at commas -/

/-- There is at least one selector. -/
theorem splitSelectors_ne_nil (awaited : List Char) (ls : List Lexeme) :
    splitSelectors awaited ls ≠ [] := by
  induction ls generalizing awaited with
  | nil => exact List.cons_ne_nil _ _
  | cons l ls ih =>
    rw [splitSelectors]
    split
    · exact List.cons_ne_nil _ _
    · exact mt List.modifyHead_eq_nil_iff.mp (ih _)

/-- **To cut at every comma** is to cut into selectors, and then each of these at the commas inside
it. -/
theorem splitAt_texts (awaited : List Char) (ls : List Lexeme) :
    Text.splitAt ',' (texts ls)
      = ((splitSelectors awaited ls).map texts).flatMap (Text.splitAt ',') := by
  induction ls generalizing awaited with
  | nil => rfl
  | cons l ls ih =>
    rw [splitSelectors, texts_cons]
    split
    · next hcomma =>
      obtain ⟨rfl, rfl⟩ := hcomma
      rw [List.map_cons, List.flatMap_cons, ← ih]
      exact Text.splitAt_append_cons ',' [] _
    · obtain ⟨first, others, hsplit⟩ :=
        List.exists_cons_of_ne_nil (splitSelectors_ne_nil (l.nest awaited) ls)
      have hls := ih (l.nest awaited)
      rw [hsplit, List.map_cons, List.flatMap_cons] at hls
      rw [hsplit, List.modifyHead_cons, List.map_cons, List.flatMap_cons, texts_cons]
      exact Text.splitAt_append_of_eq hls l.text

/-! ## The class behind a comma -/

/-- No blank stands in a name. -/
theorem isNameChar_of_isBlank {c : Char} (h : Text.isBlank c = true) : isNameChar c = false := by
  have hother : c ≠ '-' ∧ c ≠ '_' := by
    constructor <;> rintro rfl <;> cases h
  simp [isNameChar, Text.isAlphanumeric_of_isBlank h, hother]

/-- A name ends in front of a character that cannot stand in one. -/
theorem takeWhile_append_of_head {cs ds : List Char} (h : ds.head?.any isNameChar = false) :
    (cs ++ ds).takeWhile isNameChar = cs.takeWhile isNameChar := by
  induction cs with
  | nil => cases ds <;> simp_all
  | cons c cs ih => simp [List.takeWhile_cons, ih]

/-- A text that does not begin with a dot does not begin with a class. -/
theorem leadingClass?_of_ne {c : Char} (h : c ≠ '.') (cs : List Char) :
    leadingClass? (c :: cs) = none := by
  unfold leadingClass?
  split <;> simp_all

/-- A class is read off a text in the same way if more follows that cannot belong to it. -/
theorem leadingClass?_append (cs : List Char) {ds : List Char}
    (hname : ds.head?.any isNameChar = false) (hdot : ds.head? ≠ some '.') :
    leadingClass? (cs ++ ds) = leadingClass? cs := by
  cases cs with
  | nil =>
    cases ds with
    | nil => rfl
    | cons d ds => exact leadingClass?_of_ne (fun h => hdot (congrArg some h)) ds
  | cons c cs =>
    by_cases hc : c = '.'
    · subst hc
      rw [List.cons_append, leadingClass?, leadingClass?, takeWhile_append_of_head hname]
    · rw [List.cons_append, leadingClass?_of_ne hc, leadingClass?_of_ne hc]

/-- **The class that a text begins with** behind blanks. -/
def classAt? (cs : List Char) : Option (List Char) :=
  leadingClass? (Text.trimLeft cs)

/-- What is taken off the end of a text are blanks. -/
theorem exists_trimRight_append (cs : List Char) :
    ∃ blanks, (∀ c ∈ blanks, Text.isBlank c = true) ∧ cs = Text.trimRight cs ++ blanks := by
  refine ⟨(cs.reverse.takeWhile Text.isBlank).reverse, fun c hc => ?_, ?_⟩
  · exact List.all_eq_true.mp List.all_takeWhile c (List.mem_reverse.mp hc)
  · unfold Text.trimRight
    rw [← List.reverse_append, List.takeWhile_append_dropWhile, List.reverse_reverse]

/-- Blanks at the end of a text do not belong to a class. -/
theorem leadingClass?_trim (cs : List Char) : leadingClass? (Text.trim cs) = classAt? cs := by
  obtain ⟨blanks, hblanks, hcs⟩ := exists_trimRight_append (Text.trimLeft cs)
  have hhead : ∀ c, blanks.head? = some c → Text.isBlank c = true :=
    fun c hc => hblanks c (List.mem_of_head? hc)
  have hname : blanks.head?.any isNameChar = false := by
    cases hc : blanks.head? with
    | none => rfl
    | some c => exact isNameChar_of_isBlank (hhead c hc)
  have hdot : blanks.head? ≠ some '.' := fun hc => (nomatch hhead '.' hc)
  calc leadingClass? (Text.trimRight (Text.trimLeft cs))
      = leadingClass? (Text.trimRight (Text.trimLeft cs) ++ blanks) :=
        (leadingClass?_append _ hname hdot).symm
    _ = leadingClass? (Text.trimLeft cs) := by rw [← hcs]

/-- What comes behind a comma does not belong to a class in front of it. -/
theorem classAt?_append_comma (cs ds : List Char) : classAt? (cs ++ ',' :: ds) = classAt? cs := by
  have htrim : Text.trimLeft (cs ++ ',' :: ds) = Text.trimLeft cs ++ ',' :: ds := by
    unfold Text.trimLeft
    induction cs with
    | nil => rfl
    | cons c cs ih => cases hc : Text.isBlank c <;> simp [hc, ih]
  have hname : (some ',').any isNameChar = false := by decide
  unfold classAt?
  rw [htrim]
  exact leadingClass?_append _ hname (by simp)

/-! ## The class in front of a comma -/

/-- **A comment or a string shows by its first character.** -/
def Lexeme.Shows : Lexeme → Prop
  | plain _ => True
  | comment text | quoted text | unterminated text =>
    ∃ c rest, text = c :: rest ∧ (c = '/' ∨ isQuote c = true)

/-- What begins a comment or a string is no blank, and no part of a class. -/
theorem apart_of_begins {c : Char} (hc : c = '/' ∨ isQuote c = true) :
    Text.isBlank c = false ∧ isNameChar c = false ∧ c ≠ '.' := by
  have hcases : c = '/' ∨ c = '"' ∨ c = '\'' := by simpa [isQuote] using hc
  rcases hcases with rfl | rfl | rfl <;> decide

/-- A string without an end begins with a quote as well. -/
theorem isQuote_of_unterminated {text : List Char} (h : lexemes text = [.unterminated text]) :
    ∃ c rest, text = c :: rest ∧ isQuote c = true := by
  match text with
  | [] => cases h
  | c :: cs =>
    refine ⟨c, cs, rfl, ?_⟩
    by_contra hquote
    rw [Bool.not_eq_true] at hquote
    by_cases hcomment : Source.BeginsComment (c :: cs)
    · obtain ⟨rfl, hstar⟩ := Source.beginsComment_iff.mp hcomment
      obtain ⟨cs, rfl⟩ := List.head?_eq_some_iff.mp hstar
      obtain ⟨text, rest, hcut⟩ := Source.exists_cut_comment cs
      rw [hcut.lexemes_eq] at h
      cases h
    · rw [(Source.Cut.plain hquote hcomment).lexemes_eq] at h
      cases h

theorem shows_of_mem {cs : List Char} {l : Lexeme} (h : l ∈ lexemes cs) : l.Shows := by
  obtain ⟨before, after, hcs⟩ := List.append_of_mem h
  obtain ⟨rest, -, hrest⟩ := exists_of_lexemes_append hcs
  obtain ⟨behind, hcut, -⟩ := Source.cut_of_lexemes hrest
  cases hcut with
  | comment hcomment =>
    obtain ⟨body, -, rfl⟩ := hcomment
    exact ⟨'/', _, rfl, .inl rfl⟩
  | openComment hcomment =>
    obtain ⟨body, -, rfl⟩ := hcomment
    exact ⟨'/', _, rfl, .inl rfl⟩
  | string hstring =>
    obtain ⟨quote, body, hquote, -, rfl⟩ := hstring
    exact ⟨quote, _, rfl, .inr hquote⟩
  | unterminated hopen =>
    obtain ⟨c, rest, htext, hquote⟩ := isQuote_of_unterminated hopen
    exact ⟨c, rest, htext, .inr hquote⟩
  | plain => trivial

/-- Selectors are made of the lexemes of the list. -/
theorem mem_of_mem_splitSelectors {awaited : List Char} {ls selector : List Lexeme}
    (h : selector ∈ splitSelectors awaited ls) : ∀ l ∈ selector, l ∈ ls := by
  induction ls generalizing awaited selector with
  | nil =>
    rw [List.mem_singleton.mp h]
    exact List.forall_mem_nil _
  | cons l ls ih =>
    rw [splitSelectors] at h
    split at h
    · rcases List.mem_cons.mp h with rfl | h
      · exact List.forall_mem_nil _
      · exact fun l' hl' => List.mem_cons_of_mem _ (ih h l' hl')
    · obtain ⟨first, others, hsplit⟩ :=
        List.exists_cons_of_ne_nil (splitSelectors_ne_nil (l.nest awaited) ls)
      rw [hsplit, List.modifyHead_cons] at h
      rcases List.mem_cons.mp h with rfl | h
      · have hfirst := ih (hsplit ▸ List.mem_cons_self : first ∈ splitSelectors (l.nest awaited) ls)
        exact List.forall_mem_cons.mpr
          ⟨List.mem_cons_self, fun l' hl' => List.mem_cons_of_mem _ (hfirst l' hl')⟩
      · exact fun l' hl' => List.mem_cons_of_mem _
          (ih (hsplit ▸ List.mem_cons_of_mem _ h) l' hl')

/-- Blanks in front are the same as lexemes and as characters. -/
theorem trimLeft_texts {ls : List Lexeme} (hls : ∀ l ∈ ls, l.Shows) :
    Text.trimLeft (texts ls) = texts (ls.dropWhile Lexeme.isBlank) := by
  induction ls with
  | nil => rfl
  | cons l ls ih =>
    obtain ⟨hl, hrest⟩ := List.forall_mem_cons.mp hls
    rw [texts_cons, List.dropWhile_cons]
    cases l with
    | plain c =>
      show Text.trimLeft (c :: texts ls) = texts (if Text.isBlank c then _ else _)
      rw [Text.trimLeft, List.dropWhile_cons]
      split
      · exact ih hrest
      · rfl
    | comment text | quoted text | unterminated text =>
      obtain ⟨c, rest, rfl, hc⟩ := hl
      exact List.dropWhile_cons_of_neg (Bool.eq_false_iff.mp (apart_of_begins hc).1)

/-- A name is the same as lexemes and as characters. -/
theorem takeWhile_texts {ls : List Lexeme} (hls : ∀ l ∈ ls, l.Shows) :
    (texts ls).takeWhile isNameChar = texts (ls.takeWhile Lexeme.isOfName) := by
  induction ls with
  | nil => rfl
  | cons l ls ih =>
    obtain ⟨hl, hrest⟩ := List.forall_mem_cons.mp hls
    rw [texts_cons, List.takeWhile_cons]
    cases l with
    | plain c =>
      show (c :: texts ls).takeWhile isNameChar = texts (if isNameChar c then _ else _)
      rw [List.takeWhile_cons]
      split
      · exact congrArg (c :: ·) (ih hrest)
      · rfl
    | comment text | quoted text | unterminated text =>
      obtain ⟨c, rest, rfl, hc⟩ := hl
      exact List.takeWhile_cons_of_neg (Bool.eq_false_iff.mp (apart_of_begins hc).2.1)

/-- A class right at the beginning is the same in lexemes and in characters. -/
theorem classOf?_eq {ls : List Lexeme} (hls : ∀ l ∈ ls, l.Shows) :
    classOf? ls = leadingClass? (texts ls) := by
  cases ls with
  | nil => rfl
  | cons l ls =>
    obtain ⟨hl, hrest⟩ := List.forall_mem_cons.mp hls
    cases l with
    | plain c =>
      by_cases hc : c = '.'
      · subst hc
        show _ = leadingClass? ('.' :: texts ls)
        rw [classOf?, leadingClass?, takeWhile_texts hrest]
        cases texts (ls.takeWhile Lexeme.isOfName) <;> rfl
      · rw [texts_cons]
        refine Eq.trans ?_ (leadingClass?_of_ne hc (texts ls)).symm
        unfold classOf?
        split
        · next heq =>
          cases heq
          exact absurd rfl hc
        · rfl
    | comment text | quoted text | unterminated text =>
      obtain ⟨c, rest, rfl, hc⟩ := hl
      exact (leadingClass?_of_ne (apart_of_begins hc).2.2 _).symm

/-- Without a comment in front there are only blanks to pass over. -/
theorem dropWhile_gap {ls : List Lexeme} (h : commentFirst ls = false) :
    (ls.dropWhile fun l => l.isBlank || l.isComment) = ls.dropWhile Lexeme.isBlank := by
  unfold commentFirst at h
  induction ls with
  | nil => rfl
  | cons l ls ih =>
    rw [List.dropWhile_cons] at h ⊢
    rw [List.dropWhile_cons]
    cases hblank : l.isBlank with
    | true =>
      rw [hblank] at h
      exact ih h
    | false =>
      rw [hblank] at h
      rw [show l.isComment = false from h]
      rfl

/-- **The class that is found at the beginning of a selector** is the one that the selector begins
with, unless a comment is in the way. -/
theorem classAt?_texts {selector : List Lexeme} (hselector : ∀ l ∈ selector, l.Shows) :
    classAt? (texts selector) = if commentFirst selector then none else lead? selector := by
  have hrest : ∀ l ∈ selector.dropWhile Lexeme.isBlank, l.Shows := fun l hl =>
    hselector l (List.dropWhile_sublist _ |>.mem hl)
  rw [classAt?, trimLeft_texts hselector, ← classOf?_eq hrest]
  cases hcomment : commentFirst selector with
  | true =>
    unfold commentFirst at hcomment
    cases hfirst : selector.dropWhile Lexeme.isBlank with
    | nil => rfl
    | cons l rest =>
      rw [hfirst] at hcomment
      cases l with
      | comment text => rfl
      | plain | quoted | unterminated => cases hcomment
  | false =>
    rw [lead?, dropWhile_gap hcomment]
    rfl

/-- **The pieces of a text between commas.** The first one begins like the text, and the others
begin like what comes behind the commas. -/
theorem exists_splitAt_comma (cs : List Char) :
    ∃ first others, Text.splitAt ',' cs = first :: others ∧ classAt? first = classAt? cs ∧
      ((∀ part ∈ others, classAt? part = none) ↔
        ∀ before after, cs = before ++ ',' :: after → classAt? after = none) := by
  by_cases hcomma : ',' ∈ cs
  · obtain ⟨before, after, hcs, hbefore⟩ := List.eq_append_cons_of_mem hcomma
    have hlength : after.length < cs.length := by
      rw [hcs, List.length_append, List.length_cons]
      omega
    obtain ⟨first, others, hafter, hfirst, hothers⟩ := exists_splitAt_comma after
    subst hcs
    refine ⟨before, first :: others, ?_, (classAt?_append_comma before after).symm, ?_⟩
    · rw [Text.splitAt_append_cons, Text.splitAt_of_not_mem hbefore, hafter]
      rfl
    · rw [List.forall_mem_cons, hfirst, hothers]
      constructor
      · -- A comma of the text is the first one, or it is a comma of what comes behind that.
        rintro ⟨hnone, hlater⟩ before' after' hsplit
        rcases List.append_eq_append_iff.mp hsplit with ⟨more, -, hmore⟩ | ⟨more, rfl, hmore⟩
        · cases more with
          | nil => cases hmore; exact hnone
          | cons c more => cases hmore; exact hlater more after' rfl
        · cases more with
          | nil => cases hmore; exact hnone
          | cons c more => cases hmore; simp at hbefore
      · intro hall
        refine ⟨hall before after rfl, ?_⟩
        rintro before' after' rfl
        exact hall (before ++ ',' :: before') after' (by simp)
  · refine ⟨cs, [], Text.splitAt_of_not_mem hcomma, rfl, fun _ before after hsplit => ?_, by simp⟩
    exact absurd (hsplit ▸ List.mem_append_right _ List.mem_cons_self) hcomma
termination_by cs.length
decreasing_by exact hlength

/-! ## The classes of a rule -/

section Additions

variable {α β : Type} (f g : α → List β) (xs : List α)

/-- Where something is added to the parts of a list, nothing of the whole is lost. -/
theorem sublist_flatMap_append : (xs.flatMap f).Sublist (xs.flatMap fun x => f x ++ g x) := by
  induction xs with
  | nil => exact .slnil
  | cons x xs ih => exact (List.sublist_append_left _ _).append ih

/-- What is added to the parts of a list shows in the whole, unless it is nothing. -/
theorem flatMap_append_eq_iff :
    xs.flatMap (fun x => f x ++ g x) = xs.flatMap f ↔ ∀ x ∈ xs, g x = [] := by
  induction xs with
  | nil => simp
  | cons x xs ih =>
    rw [List.forall_mem_cons, ← ih, List.flatMap_cons, List.flatMap_cons, List.append_assoc,
      List.append_cancel_left_eq]
    constructor
    · intro h
      have hlength := congrArg List.length h
      have hle := (sublist_flatMap_append f g xs).length_le
      rw [List.length_append] at hlength
      have hnil : g x = [] := List.eq_nil_of_length_eq_zero (by omega)
      rw [hnil] at h
      exact ⟨hnil, h⟩
    · rintro ⟨hnil, h⟩
      rw [hnil, h]
      rfl

end Additions

namespace Rule

variable (rule : Rule)

/-- The classes behind the commas inside a selector. -/
def innerClasses (selector : List Char) : List (List Char) :=
  (Text.splitAt ',' selector).tail.filterMap classAt?

/-- There are none if no comma inside the selector is followed by a class. -/
theorem innerClasses_eq_nil_iff {selector : List Char} : innerClasses selector = [] ↔
    ∀ before after, selector = before ++ ',' :: after → classAt? after = none := by
  obtain ⟨first, others, hsplit, -, hothers⟩ := exists_splitAt_comma selector
  rw [innerClasses, hsplit, List.tail_cons, List.filterMap_eq_nil_iff, hothers]

theorem shows_of_mem_selectorList {selector : List Lexeme} (h : selector ∈ rule.selectorList) :
    ∀ l ∈ selector, l.Shows := by
  unfold selectorList at h
  split at h
  · cases h
  · exact fun l hl => shows_of_mem (mem_of_mem_splitSelectors h l hl)

/-- The classes found in a rule, selector by selector: the text of each is cut at its commas. -/
theorem leadingClasses_eq_flatMap_texts : rule.leadingClasses
    = (rule.selectorList.flatMap fun selector => (classAt? (texts selector)).toList ++
        innerClasses (texts selector)).map String.ofList := by
  unfold leadingClasses selectors selectorList
  split
  · rfl
  · rw [List.filterMap_map,
      show leadingClass? ∘ Text.trim = classAt? from funext leadingClass?_trim]
    conv_lhs =>
      rw [← texts_lexemes rule.selector.toList, splitAt_texts [], List.filterMap_flatMap,
        List.flatMap_map]
    congr 1
    refine List.flatMap_congr (fun selector _ => ?_)
    obtain ⟨first, others, hsplit, hfirst, -⟩ := exists_splitAt_comma (texts selector)
    rw [innerClasses, hsplit, List.filterMap_cons, hfirst]
    cases classAt? (texts selector) <;> rfl

/-- **The classes found in a rule** are those of its selectors that have no comment in front, each
followed by the classes behind the commas inside the selector. -/
theorem leadingClasses_eq_flatMap : rule.leadingClasses
    = (rule.selectorList.flatMap fun selector =>
        (if commentFirst selector then [] else (lead? selector).toList) ++
          innerClasses (texts selector)).map String.ofList := by
  rw [leadingClasses_eq_flatMap_texts]
  congr 1
  refine List.flatMap_congr (fun selector hselector => ?_)
  rw [classAt?_texts (rule.shows_of_mem_selectorList hselector)]
  cases commentFirst selector <;> rfl

/-- The classes that selectors begin with, by themselves. -/
theorem listedClasses_eq_flatMap : rule.listedClasses
    = (rule.selectorList.flatMap fun selector => (lead? selector).toList).map String.ofList := by
  rw [listedClasses, ← List.filterMap_eq_flatMap_toList]

/-- **The classes found in a rule.** Each selector contributes the class that it begins with, unless
a comment stands in front of it, and the classes behind the commas inside it. So if no such class is
behind a comment, none is missed, they are in order, and the classes found are those that the
selectors begin with if and only if no comma inside a selector is followed by a class. -/
theorem leadingClasses_eq_iff (rule : Rule) :
    rule.leadingClasses = (rule.selectorList.flatMap fun selector =>
        (if commentFirst selector then [] else (lead? selector).toList) ++
          innerClasses (texts selector)).map String.ofList ∧
      ((∀ selector ∈ rule.selectorList, commentFirst selector → lead? selector = none) →
        rule.listedClasses.Sublist rule.leadingClasses ∧
        (rule.leadingClasses = rule.listedClasses ↔ ∀ selector ∈ rule.selectorList,
          ∀ before after, texts selector = before ++ ',' :: after → classAt? after = none)) := by
  refine ⟨rule.leadingClasses_eq_flatMap, fun hcomment => ?_⟩
  have hfound : rule.leadingClasses = (rule.selectorList.flatMap fun selector =>
      (lead? selector).toList ++ innerClasses (texts selector)).map String.ofList := by
    rw [leadingClasses_eq_flatMap]
    congr 1
    refine List.flatMap_congr (fun selector hselector => ?_)
    split
    · next hfirst =>
      rw [hcomment selector hselector hfirst]
      rfl
    · rfl
  rw [hfound, listedClasses_eq_flatMap]
  constructor
  · exact (sublist_flatMap_append _ _ _).map _
  · rw [List.map_inj_right (fun _ _ => String.ofList_injective), flatMap_append_eq_iff]
    exact forall₂_congr fun selector _ => innerClasses_eq_nil_iff

/-- A rule with a comma inside its last selector and a comment in front of another. -/
def cards : Rule where
  selector := ".card > a, /* all */ h1, .note:is(a, b)"
  text := ".card > a, /* all */ h1, .note:is(a, b) \x7b \x7d"

/-- No class is in danger there. -/
theorem leadingClasses_eq_iff_cards :
    (∀ selector ∈ cards.selectorList, commentFirst selector → lead? selector = none) ∧
      cards.leadingClasses = cards.listedClasses ∧ cards.listedClasses = ["card", "note"] := by
  have hcomment : ∀ selector ∈ cards.selectorList,
      commentFirst selector → lead? selector = none := by decide
  have hinner : ∀ selector ∈ cards.selectorList, innerClasses (texts selector) = [] := by decide
  have hiff := ((leadingClasses_eq_iff cards).2 hcomment).2
  refine ⟨hcomment, hiff.2 fun selector hselector => ?_, by decide⟩
  exact innerClasses_eq_nil_iff.1 (hinner selector hselector)

/-- A class behind a comment is missed, and one inside the comment is found. -/
example : (⟨".x, /* a, .b */ .y", ""⟩ : Rule).listedClasses = ["x", "y"] ∧
    (⟨".x, /* a, .b */ .y", ""⟩ : Rule).leadingClasses = ["x", "b"] := by
  decide

/-- A rule with a comma inside its first selector. -/
def negation : Rule where
  selector := ".x:not(.a, .b), .y"
  text := ".x:not(.a, .b), .y \x7b \x7d"

/-- **A class that leads no selector is found**: none of the two selectors of the rule begins with
`b`. -/
theorem leadingClasses_ne_negation :
    parse ".x:not(.a, .b), .y \x7b \x7d" = .ok ⟨[negation]⟩ ∧
      negation.selectorList.map texts = [".x:not(.a, .b)".toList, " .y".toList] ∧
      negation.listedClasses = ["x", "y"] ∧ negation.leadingClasses = ["x", "b", "y"] := by
  decide

end Rule

end Stylesheet

end Pagewright
