import Pagewright.Proofs.Stylesheet.Classes
import Pagewright.Proofs.Stylesheet.Collector
import Pagewright.Proofs.Stylesheet.Texts

/-!
# Looking up a class

A class can be looked up in a stylesheet in three ways. An editor lists the classes
(`classNames`), the check of a document asks whether there is a class (`hasClass`), and a page takes
the rules of a class (`rulesFor`). The list is made from the names that are read off the selectors,
and the other two compare each selector with a given name. For every name that a class can have the
three agree, so that the check accepts what the editor offers and the page has rules for it.
-/

namespace Pagewright.Stylesheet

variable {sheet : Stylesheet} {name : String}

/-- A stylesheet has a class if and only if one of its rules has it. -/
theorem hasClass_iff_exists (h : IsName name.toList) :
    sheet.hasClass name = true ↔ ∃ rule ∈ sheet.rules, name ∈ rule.leadingClasses := by
  unfold hasClass
  rw [List.any_eq_true]
  exact exists_congr fun rule => and_congr_right fun _ => Rule.definesClass_iff_mem h

/-- The classes of a stylesheet are those of its rules. -/
theorem mem_classNames_iff :
    name ∈ sheet.classNames ↔ ∃ rule ∈ sheet.rules, name ∈ rule.leadingClasses := by
  unfold classNames
  rw [List.mem_eraseDups, List.mem_flatMap]

/-- **The rules of a class** are those that have it among their classes. -/
theorem rulesFor_eq_filter (h : IsName name.toList) :
    sheet.rulesFor name = (sheet.rules.filter (name ∈ ·.leadingClasses)).map (·.text) := by
  unfold rulesFor
  congr 1
  refine List.filter_congr (fun rule _ => ?_)
  rw [Bool.eq_iff_iff, decide_eq_true_iff]
  exact Rule.definesClass_iff_mem h

/-- **A rule is known by its text**, since the text can be read. -/
theorem eq_of_text_eq {source : String} (h : parse source = .ok sheet) {rule rule' : Rule}
    (hrule : rule ∈ sheet.rules) (hrule' : rule' ∈ sheet.rules) (htext : rule.text = rule'.text) :
    rule = rule' := by
  have hread := (reads_of_parse h hrule).1.parse
  have hread' := (reads_of_parse h hrule').1.parse
  rw [htext, hread'] at hread
  cases hread
  rfl

/-- **The ways to look up a class agree.** A name is listed if and only if the stylesheet has the
class, and if and only if there are rules for it. These are the rules that have the name among their
classes, and no others, also where they are told by their texts. The list has no repetitions, and
all that is listed can be the name of a class. -/
theorem lookups_agree (source : String) (sheet : Stylesheet) (h : parse source = .ok sheet) :
    (∀ name : String, IsName name.toList →
        (name ∈ sheet.classNames ↔ sheet.hasClass name = true) ∧
          (sheet.hasClass name = true ↔ sheet.rulesFor name ≠ []) ∧
          sheet.rulesFor name = (sheet.rules.filter (name ∈ ·.leadingClasses)).map (·.text) ∧
          ∀ rule ∈ sheet.rules, rule.text ∈ sheet.rulesFor name ↔ name ∈ rule.leadingClasses) ∧
      sheet.classNames.Nodup ∧ ∀ name ∈ sheet.classNames, IsName name.toList := by
  refine ⟨fun name hname => ⟨?_, ?_, rulesFor_eq_filter hname, fun rule hrule => ?_⟩,
    nodup_eraseDups _, fun name hname => ?_⟩
  · rw [mem_classNames_iff, hasClass_iff_exists hname]
  · rw [hasClass_iff_exists hname, rulesFor_eq_filter hname, ne_eq, List.map_eq_nil_iff,
      List.filter_eq_nil_iff]
    simp
  · rw [rulesFor_eq_filter hname, List.mem_map]
    constructor
    · rintro ⟨rule', hrule', htext⟩
      obtain ⟨hmem, hclass⟩ := List.mem_filter.mp hrule'
      rw [← eq_of_text_eq h hmem hrule htext]
      exact of_decide_eq_true hclass
    · exact fun hclass => ⟨rule, List.mem_filter.mpr ⟨hrule, decide_eq_true hclass⟩, rfl⟩
  · obtain ⟨rule, -, hclass⟩ := mem_classNames_iff.mp hname
    exact Rule.isName_of_mem_leadingClasses hclass

/-- A rule with three selectors, two of which begin with classes of which one begins like the
other. -/
def cardSheet : Stylesheet :=
  ⟨[⟨".btn:hover, .card > p, .cards", ".btn:hover, .card > p, .cards\x7b\x7d"⟩, ⟨"p", "p\x7b\x7d"⟩]⟩

/-- The first of its rules is found under `card`, and nothing is found under `car`. -/
theorem lookups_agree_cards :
    parse ".btn:hover, .card > p, .cards\x7b\x7d p\x7b\x7d" = .ok cardSheet ∧
      (IsName "card".toList ∧ cardSheet.hasClass "card" = true ∧ "card" ∈ cardSheet.classNames ∧
        cardSheet.rulesFor "card" ≠ []) ∧
      IsName "car".toList ∧ cardSheet.hasClass "car" = false ∧ "car" ∉ cardSheet.classNames ∧
        ¬ cardSheet.rulesFor "car" ≠ [] := by
  have hread : parse ".btn:hover, .card > p, .cards\x7b\x7d p\x7b\x7d" = .ok cardSheet := by decide
  have hcard : IsName "card".toList := ⟨nofun, List.all_eq_true.mp (by decide)⟩
  have hcar : IsName "car".toList := ⟨nofun, List.all_eq_true.mp (by decide)⟩
  have hfound : cardSheet.hasClass "card" = true := by decide
  have hmissing : cardSheet.hasClass "car" = false := by decide
  obtain ⟨hnames, -⟩ := lookups_agree _ _ hread
  obtain ⟨hlisted, hrules, -⟩ := hnames "card" hcard
  obtain ⟨hlisted', hrules', -⟩ := hnames "car" hcar
  rw [hmissing] at hlisted' hrules'
  exact ⟨hread, ⟨hcard, hfound, hlisted.mpr hfound, hrules.mp hfound⟩, hcar, hmissing,
    fun h => (nomatch hlisted'.mp h), fun h => (nomatch hrules'.mpr h)⟩

end Pagewright.Stylesheet
