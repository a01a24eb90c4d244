import Pagewright.Proofs.Stylesheet.Sources

/-!
# Nothing of a stylesheet is lost

Reading a stylesheet takes its rules out of their surroundings. What it leaves behind are gaps,
blanks and comments, and nothing else: the gaps and the texts of the rules, each in its place, are
the source (`Source.Splits.exists_gaps`). The text of a rule goes from its first character to its
last, neither of which is a blank, and the selector is a beginning of it.

So the rules can be put together anew, with a line feed for each gap, and are read as they were.
-/

namespace Pagewright.Stylesheet

namespace Source

/-! ## Gaps -/

/-- **A gap between rules**: blanks and comments. -/
inductive IsGap : List Char → Prop where
  | nil : IsGap []
  | blank {c : Char} {cs : List Char} (hc : Text.isBlank c = true) (h : IsGap cs) : IsGap (c :: cs)
  | comment {text cs : List Char} (hcomment : IsComment text) (h : IsGap cs) : IsGap (text ++ cs)

/-- **The gap behind the last rule**, in which a comment may lack its end. -/
def IsLastGap (cs : List Char) : Prop :=
  ∃ gap rest, IsGap gap ∧ (rest = [] ∨ IsOpenComment rest) ∧ cs = gap ++ rest

/-- **The source consists of these texts with gaps around them**: one in front of each, and one
behind the last. -/
def Gapped (source : List Char) (texts : List (List Char)) : Prop :=
  ∃ gaps last, gaps.length = texts.length ∧ (∀ gap ∈ gaps, IsGap gap) ∧ IsLastGap last ∧
    source = (List.zipWith (· ++ ·) gaps texts).flatten ++ last

/-- What can stand in front of any gap can stand in front of a source. -/
theorem Gapped.prepend {source : List Char} {texts : List (List Char)} (h : Gapped source texts)
    (piece : List Char) (hpiece : ∀ gap, IsGap gap → IsGap (piece ++ gap)) :
    Gapped (piece ++ source) texts := by
  obtain ⟨gaps, last, hlength, hgaps, hlast, rfl⟩ := h
  cases gaps with
  | nil =>
    obtain ⟨gap, rest, hgap, hrest, rfl⟩ := hlast
    refine ⟨[], piece ++ (gap ++ rest), hlength, hgaps, ?_, rfl⟩
    exact ⟨piece ++ gap, rest, hpiece gap hgap, hrest, (List.append_assoc _ _ _).symm⟩
  | cons gap gaps =>
    cases texts with
    | nil => cases hlength
    | cons text texts =>
      obtain ⟨hgap, hgaps⟩ := List.forall_mem_cons.mp hgaps
      refine ⟨(piece ++ gap) :: gaps, last, hlength,
        List.forall_mem_cons.mpr ⟨hpiece gap hgap, hgaps⟩, hlast, ?_⟩
      simp

/-- **A source that the grammar cuts consists of the rules and of gaps.** -/
theorem Splits.exists_gaps {source : List Char} {texts : List (List Char)}
    (h : Splits source texts) : Gapped source texts := by
  induction h with
  | nil => exact ⟨[], [], rfl, List.forall_mem_nil _, ⟨[], [], .nil, .inl rfl, rfl⟩, rfl⟩
  | @blank c source texts hc _ ih => exact ih.prepend [c] (fun _ hgap => .blank hc hgap)
  | @comment text source texts hcomment _ ih =>
    exact ih.prepend text (fun _ hgap => .comment hcomment hgap)
  | @openComment text hcomment =>
    exact ⟨[], text, rfl, List.forall_mem_nil _, ⟨[], text, .nil, .inr hcomment, rfl⟩, rfl⟩
  | @rule text source texts _ _ ih =>
    obtain ⟨gaps, last, hlength, hgaps, hlast, rfl⟩ := ih
    refine ⟨[] :: gaps, last, congrArg Nat.succ hlength,
      List.forall_mem_cons.mpr ⟨.nil, hgaps⟩, hlast, ?_⟩
    simp

end Source

open Lexeme

/-! ## The two ends of a rule -/

/-- What is left of a text without the blanks at its end is a beginning of it. -/
theorem trimRight_prefix_self (cs : List Char) : Text.trimRight cs <+: cs := by
  unfold Text.trimRight
  rw [← List.reverse_suffix, List.reverse_reverse]
  exact List.dropWhile_suffix _

/-- A beginning of a text that does not begin with a blank stays one without the blanks at its
ends. -/
theorem trim_prefix_of_prefix {c : Char} (hc : Text.isBlank c = false) {cs beginning : List Char}
    (h : beginning <+: c :: cs) : Text.trim beginning <+: c :: cs := by
  cases beginning with
  | nil => exact List.nil_prefix
  | cons d beginning =>
    obtain ⟨rfl, -⟩ := List.cons_prefix_cons.mp h
    unfold Text.trim
    rw [trimLeft_cons hc]
    exact (trimRight_prefix_self _).trans h

/-- There is nothing to take off a text that neither begins nor ends with a blank. -/
theorem trim_eq_self {c d : Char} (hc : Text.isBlank c = false) (hd : Text.isBlank d = false)
    {cs : List Char} (hhead : cs.head? = some c) (hlast : cs.getLast? = some d) :
    Text.trim cs = cs := by
  obtain ⟨rest, rfl⟩ := List.head?_eq_some_iff.mp hhead
  obtain ⟨front, hfront⟩ := List.getLast?_eq_some_iff.mp hlast
  unfold Text.trim Text.trimRight
  rw [trimLeft_cons hc, hfront, List.reverse_append]
  show (List.dropWhile Text.isBlank (d :: front.reverse)).reverse = _
  rw [List.dropWhile_cons_of_neg (by rw [hd]; exact Bool.false_ne_true)]
  simp

namespace IsRule

variable {ls : List Lexeme} {rule : Rule}

/-- A rule does not begin with a blank. -/
theorem exists_head (h : IsRule ls rule) :
    ∃ c cs, rule.text.toList = c :: cs ∧ Text.isBlank c = false := by
  rw [h.exists_eq.1]
  cases h with
  | directive hprelude => exact ⟨'@', _, rfl, by decide⟩
  | block hfirst hprelude hblock =>
    obtain ⟨c, cs, htext, hblank, -⟩ := exists_of_begins hfirst
    rw [List.cons_append, texts_cons, htext]
    exact ⟨c, _, rfl, hblank⟩

/-- **A rule begins with its selector.** -/
theorem selector_prefix_text (h : IsRule ls rule) : rule.selector.toList <+: rule.text.toList := by
  obtain ⟨c, cs, htext, hblank⟩ := h.exists_head
  rw [htext]
  suffices hbeginning : ∃ beginning, rule.selector.toList = Text.trim beginning ∧
      beginning <+: rule.text.toList by
    obtain ⟨beginning, hselector, hbeginning⟩ := hbeginning
    rw [hselector]
    exact trim_prefix_of_prefix hblank (htext ▸ hbeginning)
  cases h with
  | @directive prelude hprelude =>
    refine ⟨_, String.toList_ofList, ?_⟩
    show _ <+: (String.ofList _).toList
    rw [String.toList_ofList]
    exact List.reverse_prefix.mpr (List.dropWhile_suffix _)
  | block hfirst hprelude hblock =>
    refine ⟨_, String.toList_ofList, ?_⟩
    rw [String.toList_ofList, texts_append]
    exact List.prefix_append _ _

/-- **The text of a rule has no blanks at its ends.** -/
theorem trim_text (h : IsRule ls rule) : Text.trim rule.text.toList = rule.text.toList := by
  obtain ⟨c, cs, htext, hblank⟩ := h.exists_head
  obtain ⟨htexts, inner, d, rfl, hd⟩ := h.exists_eq
  have hend : Text.isBlank d = false := by
    rcases hd with rfl | rfl <;> decide
  refine trim_eq_self hblank hend (by rw [htext]; rfl) ?_
  rw [htexts, texts_append]
  simp [Lexeme.text]

end IsRule

/-! ## Reading again what was read -/

/-- **Rules are read again from their texts**, one below the other. -/
theorem reads_joined {rules : List Rule} (h : ∀ rule ∈ rules, Reads rule.text.toList [rule]) :
    Reads ("\n".intercalate (rules.map (·.text))).toList rules := by
  induction rules with
  | nil => exact Reads.nil
  | cons rule rules ih =>
    obtain ⟨hrule, hrules⟩ := List.forall_mem_cons.mp h
    cases rules with
    | nil =>
      rw [List.map_singleton, String.intercalate_singleton]
      exact hrule
    | cons next rules =>
      rw [List.map_cons, List.map_cons, String.intercalate_cons_cons, ← List.map_cons,
        String.toList_append, String.toList_append, List.append_assoc]
      exact hrule.append ((Reads.blank (by decide)).append (ih hrules))

/-- **Reading loses nothing.** The source consists of the texts of the rules that are read and of
gaps around them, which are blanks and comments, and only in the last of which a comment may lack
its end. The text of each rule begins with its selector and has no blanks at its ends. And the texts
one below the other are read as the same rules. -/
theorem parse_keeps (source : String) (sheet : Stylesheet) (h : parse source = .ok sheet) :
    (∃ gaps last, gaps.length = sheet.rules.length ∧ (∀ gap ∈ gaps, Source.IsGap gap) ∧
        Source.IsLastGap last ∧
        source.toList
          = (List.zipWith (fun gap rule => gap ++ rule.text.toList) gaps sheet.rules).flatten
            ++ last) ∧
      (∀ rule ∈ sheet.rules, rule.selector.toList <+: rule.text.toList ∧
        Text.trim rule.text.toList = rule.text.toList) ∧
      parse ("\n".intercalate (sheet.rules.map (·.text))) = .ok sheet := by
  refine ⟨?_, fun rule hrule => ?_, ?_⟩
  · obtain ⟨gaps, last, hlength, hgaps, hlast, hsource⟩ := (Source.splits_of_parse h).exists_gaps
    rw [List.length_map] at hlength
    rw [List.zipWith_map_right] at hsource
    exact ⟨gaps, last, hlength, hgaps, hlast, hsource⟩
  · obtain ⟨before, ls, after, -, hisRule⟩ := (parse_eq_ok_iff.mp h).exists_of_mem hrule
    exact ⟨hisRule.selector_prefix_text, hisRule.trim_text⟩
  · exact (reads_joined (fun rule hrule => (reads_of_parse h hrule).1)).parse

/-- A directive with a semicolon in a string, and a rule. -/
def importAndRule : Stylesheet :=
  ⟨[⟨"@import 'a;b'", "@import 'a;b' ;"⟩, ⟨".q", ".q\x7bx:1\x7d"⟩]⟩

/-- The two rules are read out of a source with a comment in front, a blank between them and a
comment without an end behind them. They are read again from the two texts alone. -/
theorem parse_keeps_importAndRule :
    parse "/* a */@import 'a;b' ; .q\x7bx:1\x7d/* b" = .ok importAndRule ∧
      (∃ gaps last, gaps.length = 2 ∧ (∀ gap ∈ gaps, Source.IsGap gap) ∧ Source.IsLastGap last ∧
        "/* a */@import 'a;b' ; .q\x7bx:1\x7d/* b".toList
          = (List.zipWith (fun gap rule => gap ++ rule.text.toList) gaps
              importAndRule.rules).flatten ++ last) ∧
      parse "@import 'a;b' ;\n.q\x7bx:1\x7d" = .ok importAndRule := by
  have hread : parse "/* a */@import 'a;b' ; .q\x7bx:1\x7d/* b" = .ok importAndRule := by decide
  obtain ⟨hgaps, -, hagain⟩ := parse_keeps _ _ hread
  exact ⟨hread, hgaps, hagain⟩

end Pagewright.Stylesheet
