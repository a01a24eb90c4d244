import Pagewright.Stylesheet.Rule

/-!
# The classes of a rule

There are two ways of asking for the class of a rule. One reads the class off a selector: the
longest name after the dot (`leadingClass?`). The other has a name already and asks whether a
selector begins with it (`beginsWith`). For what can be the name of a class, the answers agree: a
selector begins with a name if and only if the name is the one that is read off.
-/

namespace Pagewright.Stylesheet

/-- The text can be the name of a class: it has characters, and all of them can stand in a name. -/
def IsName (name : List Char) : Prop :=
  name ≠ [] ∧ ∀ c ∈ name, isNameChar c = true

/-- The longest run of name characters is the one that no name character follows. -/
theorem takeWhile_eq_iff {name : List Char} (h : ∀ c ∈ name, isNameChar c = true)
    (rest : List Char) :
    rest.takeWhile isNameChar = name
      ↔ name.isPrefixOf rest = true ∧ (rest.drop name.length).head?.any isNameChar = false := by
  induction name generalizing rest with
  | nil => cases rest <;> simp [List.takeWhile_cons]
  | cons c name ih =>
    have hc := h c List.mem_cons_self
    cases rest with
    | nil => simp
    | cons d rest =>
      rw [List.takeWhile_cons, List.isPrefixOf_cons_cons, List.length_cons, List.drop_succ_cons,
        Bool.and_eq_true, beq_iff_eq, and_assoc,
        ← ih (fun x hx => h x (List.mem_cons_of_mem _ hx))]
      by_cases hcd : c = d
      · subst hcd
        simp [hc]
      · split <;> simp [hcd, Ne.symm hcd]

/-- What is read off a selector is a name. -/
theorem isName_of_leadingClass? {name cs : List Char} (h : leadingClass? cs = some name) :
    IsName name := by
  unfold leadingClass? at h
  split at h
  · next rest =>
    split at h
    · cases h
    · next hne =>
      cases h
      exact ⟨hne, List.all_eq_true.mp List.all_takeWhile⟩
  · cases h

/-- **A selector begins with a name if and only if the name is read off it.** -/
theorem beginsWith_iff_leadingClass? {name : List Char} (h : IsName name) (cs : List Char) :
    beginsWith name cs = true ↔ leadingClass? cs = some name := by
  unfold beginsWith leadingClass?
  split
  · next rest =>
    rw [Bool.and_eq_true, Bool.not_eq_true', ← takeWhile_eq_iff h.2]
    split
    · next hnil => simp [hnil, h.1.symm]
    · exact Option.some_inj.symm
  · simp

namespace Rule

variable {rule : Rule} {name : String}

/-- The classes of a rule are names. -/
theorem isName_of_mem_leadingClasses (h : name ∈ rule.leadingClasses) : IsName name.toList := by
  obtain ⟨chars, hchars, rfl⟩ := List.mem_map.mp h
  obtain ⟨selector, -, hselector⟩ := List.mem_filterMap.mp hchars
  rw [String.toList_ofList]
  exact isName_of_leadingClass? hselector

/-- **A rule belongs to a class if and only if the class is one of those of the rule.** -/
theorem definesClass_iff_mem (h : IsName name.toList) :
    rule.definesClass name = true ↔ name ∈ rule.leadingClasses := by
  have hempty : name.isEmpty = false := by
    rw [← Bool.not_eq_true, String.isEmpty_iff]
    rintro rfl
    exact h.1 rfl
  have hselector : ∀ selector : List Char,
      beginsWith name.toList selector = true ↔ leadingClass? selector = some name.toList :=
    beginsWith_iff_leadingClass? h
  unfold definesClass leadingClasses
  simp only [hempty, Bool.not_false, Bool.true_and, List.any_eq_true, hselector, List.mem_map,
    List.mem_filterMap]
  constructor
  · rintro ⟨selector, hmem, hleading⟩
    exact ⟨name.toList, ⟨selector, hmem, hleading⟩, String.ofList_toList⟩
  · rintro ⟨chars, ⟨selector, hmem, hleading⟩, rfl⟩
    rw [String.toList_ofList]
    exact ⟨selector, hmem, hleading⟩

end Rule

/-- **A class of the stylesheet has a rule.** -/
theorem rulesFor_ne_nil {sheet : Stylesheet} {name : String} (h : name ∈ sheet.classNames) :
    sheet.rulesFor name ≠ [] := by
  obtain ⟨rule, hrule, hname⟩ := List.mem_flatMap.mp (List.mem_eraseDups.mp h)
  have hdefines : rule.definesClass name = true :=
    (Rule.definesClass_iff_mem (Rule.isName_of_mem_leadingClasses hname)).mpr hname
  exact List.ne_nil_of_mem (List.mem_map_of_mem (List.mem_filter.mpr ⟨hrule, hdefines⟩))

end Pagewright.Stylesheet
