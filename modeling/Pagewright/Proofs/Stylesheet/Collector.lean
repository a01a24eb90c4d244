import Pagewright.Stylesheet.Collector

/-!
# What a collector has collected

A collector remembers the classes it has looked up, so as not to look them up again, and it drops
rules that it has already. Neither of the two shows in what it collects: the rules are those of all
the classes in the order in which they were asked for, with the repetitions left out
(`Collector.rules_resolveAll`). What it gives back for a class is what the class adds to them.
-/

namespace Pagewright

/-- Leaving out repetitions and selecting items can be done in either order. -/
theorem filter_eraseDups {α : Type} [BEq α] [LawfulBEq α] (p : α → Bool) (xs : List α) :
    xs.eraseDups.filter p = (xs.filter p).eraseDups := by
  match xs with
  | [] => rfl
  | x :: xs =>
    have hlength : (xs.filter (fun y => !y == x)).length < (x :: xs).length :=
      Nat.lt_succ_of_le (List.length_filter_le _ _)
    have ih := filter_eraseDups p (xs.filter fun y => !y == x)
    have hcomm : (xs.filter fun y => !y == x).filter p = (xs.filter p).filter fun y => !y == x := by
      rw [List.filter_filter, List.filter_filter]
      exact congrArg (xs.filter ·) (funext fun y => Bool.and_comm _ _)
    rw [List.eraseDups_cons]
    cases hx : p x with
    | true =>
      rw [List.filter_cons_of_pos hx, List.filter_cons_of_pos hx, List.eraseDups_cons, ih, hcomm]
    | false =>
      -- None of the selected items is the first one, so there is nothing to leave out.
      have hne : ∀ y ∈ xs.filter p, (!y == x) = true := by
        intro y hy
        have hpy := (List.mem_filter.mp hy).2
        rw [Bool.not_eq_true', beq_eq_false_iff_ne]
        rintro rfl
        rw [hx] at hpy
        cases hpy
      have hfirst : ¬ p x = true := by simp [hx]
      rw [List.filter_cons_of_neg hfirst, List.filter_cons_of_neg hfirst, ih, hcomm,
        List.filter_eq_self.mpr hne]
termination_by xs.length
decreasing_by exact hlength

/-- Where repetitions are left out, there are none. -/
theorem nodup_eraseDups {α : Type} [BEq α] [LawfulBEq α] (xs : List α) : xs.eraseDups.Nodup := by
  match xs with
  | [] => exact List.nodup_nil
  | x :: xs =>
    have hlength : (xs.filter (fun y => !y == x)).length < (x :: xs).length :=
      Nat.lt_succ_of_le (List.length_filter_le _ _)
    rw [List.eraseDups_cons, List.nodup_cons]
    exact ⟨by simp, nodup_eraseDups _⟩
termination_by xs.length
decreasing_by exact hlength

namespace Collector

variable {source : ClassSource} {collector : Collector} {names : List String}

/-- The collector after looking up classes one after the other. -/
def resolveAll (source : ClassSource) (collector : Collector) (names : List String) : Collector :=
  names.foldl (resolve source) collector

@[simp] theorem resolveAll_nil : collector.resolveAll source [] = collector := rfl

@[simp] theorem resolveAll_append (source : ClassSource) (collector : Collector)
    (names more : List String) :
    collector.resolveAll source (names ++ more)
      = (collector.resolveAll source names).resolveAll source more :=
  List.foldl_append

/-- **The collector has looked up these classes**, and its rules are theirs. -/
structure Covers (source : ClassSource) (collector : Collector) (names : List String) : Prop where
  seen : ∀ name, name ∈ collector.seen ↔ name ∈ names
  rules : collector.rules = (names.flatMap source).eraseDups

theorem covers_empty (source : ClassSource) : empty.Covers source [] :=
  ⟨fun _ => Iff.rfl, rfl⟩

/-- One more class adds those of its rules that are not there yet. -/
theorem Covers.resolve (h : collector.Covers source names) (name : String) :
    (collector.resolve source name).Covers source (names ++ [name]) := by
  have hrules : ((names ++ [name]).flatMap source).eraseDups
      = collector.rules ++ (source name).eraseDups.filter (· ∉ collector.rules) := by
    have hmem : ∀ rule, rule ∈ collector.rules ↔ rule ∈ names.flatMap source := by
      intro rule
      rw [h.rules, List.mem_eraseDups]
    rw [List.flatMap_append, List.flatMap_singleton, List.eraseDups_append, ← h.rules,
      filter_eraseDups, List.removeAll]
    refine congrArg (collector.rules ++ List.eraseDups ·) ?_
    exact congrArg ((source name).filter ·) (funext fun rule => by
      simp only [List.elem_eq_mem, decide_not, hmem])
  by_cases hseen : name ∈ collector.seen
  · -- All rules of a class that was looked up before are there.
    have hnone : (source name).eraseDups.filter (· ∉ collector.rules) = [] := by
      refine List.filter_eq_nil_iff.mpr (fun rule hrule => ?_)
      have hmem : rule ∈ names.flatMap source :=
        List.mem_flatMap.mpr ⟨name, (h.seen name).mp hseen, List.mem_eraseDups.mp hrule⟩
      simpa [h.rules] using hmem
    unfold Collector.resolve added
    rw [if_pos hseen, if_pos hseen]
    refine ⟨fun other => ?_, by rw [hrules, hnone]⟩
    rw [h.seen, List.mem_append, List.mem_singleton]
    exact ⟨.inl, fun hother => hother.elim id (fun heq => heq ▸ (h.seen name).mp hseen)⟩
  · unfold Collector.resolve added
    rw [if_neg hseen, if_neg hseen]
    refine ⟨fun other => ?_, hrules.symm⟩
    rw [List.mem_cons, h.seen, List.mem_append, List.mem_singleton, or_comm]

theorem Covers.resolveAll (h : collector.Covers source names) (more : List String) :
    (collector.resolveAll source more).Covers source (names ++ more) := by
  induction more generalizing collector names with
  | nil => simpa using h
  | cons name more ih =>
    have hmore := ih (h.resolve name)
    rw [List.append_assoc] at hmore
    exact hmore

/-- **The rules collected are those of the classes in order, repetitions left out.** -/
theorem rules_resolveAll (source : ClassSource) (names : List String) :
    (empty.resolveAll source names).rules = (names.flatMap source).eraseDups :=
  ((covers_empty source).resolveAll names).rules

/-! ## What one class adds -/

/-- **A class adds those of its rules that no class before it has.** -/
theorem Covers.mem_added (h : collector.Covers source names) {name rule : String} :
    rule ∈ collector.added source name ↔ rule ∈ source name ∧ rule ∉ names.flatMap source := by
  have hrules : rule ∈ collector.rules ↔ rule ∈ names.flatMap source := by
    rw [h.rules, List.mem_eraseDups]
  unfold added
  by_cases hseen : name ∈ collector.seen
  · -- Nothing is added, and there is nothing to add.
    have hknown : rule ∈ source name → rule ∈ names.flatMap source :=
      fun hrule => List.mem_flatMap.mpr ⟨name, (h.seen name).mp hseen, hrule⟩
    rw [if_pos hseen]
    exact ⟨nofun, fun ⟨hrule, hnew⟩ => absurd (hknown hrule) hnew⟩
  · rw [if_neg hseen, List.mem_filter, List.mem_eraseDups, decide_eq_true_iff, hrules]

/-- A class that was looked up before adds nothing. -/
theorem Covers.added_eq_nil (h : collector.Covers source names) {name : String}
    (hname : name ∈ names) : collector.added source name = [] :=
  if_pos ((h.seen name).mpr hname)

/-- The order of the classes has no influence on which rules are collected. -/
theorem rules_resolveAll_perm (source : ClassSource) {names' : List String}
    (h : names'.Perm names) :
    (empty.resolveAll source names').rules.Perm (empty.resolveAll source names).rules := by
  rw [rules_resolveAll, rules_resolveAll]
  refine (List.perm_ext_iff_of_nodup (nodup_eraseDups _) (nodup_eraseDups _)).mpr (fun rule => ?_)
  rw [List.mem_eraseDups, List.mem_eraseDups]
  exact (h.flatMap_right source).mem_iff

/-- **Collecting is looking up all classes and leaving out the repetitions**, whatever the place
where they are looked up. No rule is collected twice. The next class adds the rules that it has and
none of the classes before it, and what is given back is the text of these, one below the other; for
a class that comes again that is nothing. And the same classes in another order collect the same
rules. -/
theorem resolveAll_collects (source : ClassSource) (names : List String) :
    (empty.resolveAll source names).rules = (names.flatMap source).eraseDups ∧
      (empty.resolveAll source names).rules.Nodup ∧
      (∀ name, ∃ added,
        (empty.resolveAll source (names ++ [name])).rules
            = (empty.resolveAll source names).rules ++ added ∧
          (empty.resolveAll source names).addedText source name = "\n".intercalate added ∧
          (∀ rule, rule ∈ added ↔ rule ∈ source name ∧ rule ∉ names.flatMap source) ∧
          (name ∈ names →
            added = [] ∧ (empty.resolveAll source names).addedText source name = "")) ∧
      ∀ names', names'.Perm names →
        (empty.resolveAll source names').rules.Perm (empty.resolveAll source names).rules := by
  have hcovers := (covers_empty source).resolveAll names
  refine ⟨rules_resolveAll source names, ?_, fun name => ?_,
    fun names' => rules_resolveAll_perm source⟩
  · rw [rules_resolveAll]
    exact nodup_eraseDups _
  · refine ⟨(empty.resolveAll source names).added source name, ?_, rfl,
      fun rule => hcovers.mem_added, fun hname => ?_⟩
    · rw [resolveAll_append]
      rfl
    · have hnone := hcovers.added_eq_nil hname
      exact ⟨hnone, congrArg ("\n".intercalate) hnone⟩

/-- Buttons and links share a rule, and buttons have one of their rules twice. -/
def sharedRules : ClassSource := fun name =>
  if name = "button" then [".button\x7b\x7d", ".button, .link\x7b\x7d", ".button\x7b\x7d"]
  else if name = "link" then [".button, .link\x7b\x7d", ".link\x7b\x7d"]
  else []

/-- After a class that there is not and the links, the buttons add one rule, and only once. Had they
come first, the same rules would have been collected. -/
theorem resolveAll_collects_buttons :
    (empty.resolveAll sharedRules ["icon", "link"]).addedText sharedRules "button"
        = ".button\x7b\x7d" ∧
      (empty.resolveAll sharedRules ["icon", "link", "button"]).addedText sharedRules "button"
        = "" ∧
      (empty.resolveAll sharedRules ["button", "link", "icon"]).rules.Perm
        (empty.resolveAll sharedRules ["icon", "link", "button"]).rules ∧
      (empty.resolveAll sharedRules ["button", "link", "icon"]).rules
        ≠ (empty.resolveAll sharedRules ["icon", "link", "button"]).rules := by
  obtain ⟨-, -, hnext, -⟩ := resolveAll_collects sharedRules ["icon", "link"]
  obtain ⟨added, hrules, htext, -, -⟩ := hnext "button"
  obtain ⟨-, -, hnext', horder⟩ := resolveAll_collects sharedRules ["icon", "link", "button"]
  obtain ⟨_, -, -, -, hagain⟩ := hnext' "button"
  refine ⟨?_, (hagain (by decide)).2, horder _ (by decide), by decide⟩
  have hadded : [".button\x7b\x7d"] = added := List.append_cancel_left hrules
  rw [htext, ← hadded]
  rfl

end Collector

end Pagewright
