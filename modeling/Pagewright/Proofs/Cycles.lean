import Pagewright.Proofs.Nesting

/-!
# Without a cycle, components nest no deeper than there are components

The check reports every component that comes back to itself along a chain of uses. Its search never
enters a name that is already on the chain, which cuts off nearly all of the chains there are. Yet
nothing is lost: what lies between two visits of the same name can be left out of a chain, so where
there is a chain to a target there is one without repetitions (`Chain.exists_nodup`), and that one
is not cut off (`chainTo_ne_none`).

A chain without repetitions is no longer than the list of components, which has two consequences.
The levels that the search is given are enough. And if no component comes back to itself, no chain
has a repetition, so that components are nested no deeper than there are components. A document of
few components without errors can therefore be generated without going too deep.
-/

namespace Pagewright

namespace Document

variable {doc : Document}

/-- The component found for a name bears the name. -/
theorem name_of_component? {name : String} {c : Component} (h : doc.component? name = some c) :
    c.name = name := by
  have hfound := List.find?_some h
  simpa using hfound

/-! ## Chains without repetitions -/

namespace Chain

variable {es : List Element} {chain rest : List String} {name target : String}

/-- Only components are on a chain. -/
theorem subset_names (h : doc.Chain es chain) : chain ⊆ doc.components.map (·.name) := by
  induction h with
  | nil => exact List.nil_subset _
  | cons huse hc _ ih =>
    refine List.cons_subset.mpr ⟨List.mem_map.mpr ⟨_, ?_, name_of_component? hc⟩, ih⟩
    exact mem_components_of_component? hc

/-- **A chain without repetitions is no longer than the list of components.** -/
theorem length_le (h : doc.Chain es chain) (hnodup : chain.Nodup) :
    chain.length ≤ doc.components.length := by
  have hlength := hnodup.length_le_of_subset h.subset_names
  rwa [List.length_map] at hlength

/-- The first part of a chain is a chain. -/
theorem left_of_append (h : doc.Chain es (chain ++ rest)) : doc.Chain es chain := by
  induction chain generalizing es with
  | nil => exact .nil es
  | cons name chain ih =>
    cases h with
    | cons huse hc hchain => exact .cons huse hc (ih hchain)

/-- What follows a name on a chain is a chain from the component of that name. -/
theorem right_of_append (h : doc.Chain es (chain ++ name :: rest)) :
    ∃ c, doc.component? name = some c ∧ doc.Chain c.body rest := by
  induction chain generalizing es with
  | nil =>
    cases h with
    | cons huse hc hchain => exact ⟨_, hc, hchain⟩
  | cons first chain ih =>
    cases h with
    | cons huse hc hchain => exact ih hchain

/-- **Where there is a chain to a target, there is one without repetitions.** The chain is freed of
them from its end: if its first name comes again later, it is the later visit from which the chain
goes on. -/
theorem exists_nodup (h : doc.Chain es (chain ++ [target])) :
    ∃ chain', doc.Chain es (chain' ++ [target]) ∧ (chain' ++ [target]).Nodup := by
  induction chain generalizing es with
  | nil => exact ⟨[], h, List.nodup_cons.mpr ⟨List.not_mem_nil, List.nodup_nil⟩⟩
  | cons name chain ih =>
    cases h with
    | cons huse hc hchain =>
      obtain ⟨chain', hchain', hnodup⟩ := ih hchain
      by_cases hagain : name ∈ chain' ++ [target]
      · rcases List.mem_append.mp hagain with hagain | hagain
        · obtain ⟨before, after, rfl⟩ := List.append_of_mem hagain
          rw [List.append_assoc, List.cons_append] at hchain' hnodup
          obtain ⟨c, hc', hafter⟩ := hchain'.right_of_append
          exact ⟨name :: after, .cons huse hc' hafter, (List.nodup_append.mp hnodup).2.1⟩
        · cases List.mem_singleton.mp hagain
          exact ⟨[], .cons huse hc (.nil _), (List.nodup_append.mp hnodup).2.1⟩
      · exact ⟨name :: chain', .cons huse hc hchain', List.nodup_cons.mpr ⟨hagain, hnodup⟩⟩

end Chain

/-- **No component comes back to itself**: there is no chain of uses from the body of a component to
its own name. -/
def Acyclic (doc : Document) : Prop :=
  ∀ name c, doc.component? name = some c → ∀ chain, ¬ doc.Chain c.body (chain ++ [name])

/-- Without a cycle, no chain has a repetition. -/
theorem Acyclic.nodup (hdoc : doc.Acyclic) {es : List Element} {chain : List String}
    (h : doc.Chain es chain) : chain.Nodup := by
  induction h with
  | nil => exact List.nodup_nil
  | @cons es name c chain huse hc hchain ih =>
    refine List.nodup_cons.mpr ⟨fun hagain => ?_, ih⟩
    -- Up to its second visit, the chain would lead from the component back to its name.
    obtain ⟨before, after, rfl⟩ := List.append_of_mem hagain
    rw [List.append_cons] at hchain
    exact hdoc name c hc before hchain.left_of_append

/-! ## The search for a cycle -/

/-- **The search finds a chain to its target** if there is one without repetitions that avoids the
names entered so far and for which there are levels enough. -/
theorem chainTo_ne_none {target : String} {levels : Nat} {seen : List String} {es : List Element}
    {chain : List String} (h : doc.Chain es (chain ++ [target]))
    (hnodup : (chain ++ [target]).Nodup) (hseen : ∀ name ∈ chain, name ∉ seen)
    (hlevels : chain.length < levels) :
    doc.chainTo target levels seen (Element.uses es) ≠ none := by
  induction chain generalizing levels seen es with
  | nil =>
    cases h with
    | cons huse hc hchain =>
      obtain ⟨levels, rfl⟩ := Nat.exists_eq_succ_of_ne_zero (Nat.ne_zero_of_lt hlevels)
      intro hnone
      have htarget := List.findSome?_eq_none_iff.mp hnone target huse
      simp at htarget
  | cons name chain ih =>
    cases h with
    | @cons _ _ c _ huse hc hchain =>
      obtain ⟨levels, rfl⟩ := Nat.exists_eq_succ_of_ne_zero (Nat.ne_zero_of_lt hlevels)
      obtain ⟨hname, hnodup⟩ := List.nodup_cons.mp hnodup
      have htarget : name ≠ target := fun heq => hname (by simp [heq])
      have hnew : name ∉ seen := hseen name List.mem_cons_self
      have hseen' : ∀ x ∈ chain, x ∉ seen ++ [name] := by
        intro x hx hmem
        rcases List.mem_append.mp hmem with hold | hself
        · exact hseen x (List.mem_cons_of_mem _ hx) hold
        · exact hname (List.mem_append_left _ (List.mem_singleton.mp hself ▸ hx))
      -- The search enters the name, and what it finds below is what it finds.
      intro hnone
      have hbelow := List.findSome?_eq_none_iff.mp hnone name huse
      rw [if_neg htarget, if_neg hnew, hc] at hbelow
      exact ih hchain hnodup hseen' (Nat.lt_of_succ_lt_succ hlevels) hbelow

/-- **A component that comes back to itself is found out.** -/
theorem chainBack?_ne_none {c : Component} {chain : List String}
    (h : doc.Chain c.body (chain ++ [c.name])) : doc.chainBack? c ≠ none := by
  obtain ⟨chain', hchain', hnodup⟩ := h.exists_nodup
  have hlevels : chain'.length < doc.components.length := by
    have hlength := hchain'.length_le hnodup
    rwa [List.length_append, List.length_singleton] at hlength
  refine chainTo_ne_none hchain' hnodup (fun name hname hself => ?_) hlevels
  have hdiffer := (List.nodup_append.mp hnodup).2.2 name hname c.name (List.mem_singleton.mpr rfl)
  exact hdiffer (List.mem_singleton.mp hself)

/-- **If no cycle is reported, there is none.** -/
theorem acyclic_of_report {known : Option (List String)}
    (h : ∀ d ∈ doc.diagnostics known, ∀ name chain, d.finding ≠ .selfInstantiation name chain) :
    doc.Acyclic := by
  intro name c hc chain hchain
  rw [← name_of_component? hc] at hchain
  obtain ⟨found, hfound⟩ := Option.ne_none_iff_exists'.mp (chainBack?_ne_none hchain)
  obtain ⟨i, hi⟩ := exists_mem_zipIdx_of_mem (mem_components_of_component? hc)
  have hself : ⟨[.component i], .selfInstantiation c.name found⟩ ∈ doc.selfUses := by
    refine List.mem_flatMap.mpr ⟨(c, i), hi, ?_⟩
    simp only [hfound, List.mem_singleton]
  refine h ⟨[.component i], .selfInstantiation c.name found⟩ ?_ c.name found rfl
  simp [diagnostics, hself]

/-! ## Documents of few components -/

/-- **Without a reported cycle, components nest no deeper than there are components.** If the check
of a document reports no component that comes back to itself, every chain of uses from the body has
at most as many names on it as the document has components. So if there are at most 64 of them and
the check reports no error at all, the document is never refused because components are nested too
deep. -/
theorem nesting_le_components (doc : Document) (known : Option (List String)) :
    ((∀ d ∈ doc.diagnostics known, ∀ name chain, d.finding ≠ .selfInstantiation name chain) →
        ∀ chain, doc.Chain doc.body chain → chain.length ≤ doc.components.length) ∧
      (doc.components.length ≤ 64 → hasErrors (doc.diagnostics known) = false →
        ∀ source options component limit,
          (doc.generate source options).1 ≠ .error (.tooDeep component limit)) := by
  have hbound : (∀ d ∈ doc.diagnostics known, ∀ name chain,
      d.finding ≠ .selfInstantiation name chain) →
      ∀ chain, doc.Chain doc.body chain → chain.length ≤ doc.components.length :=
    fun hcycles chain hchain => hchain.length_le ((acyclic_of_report hcycles).nodup hchain)
  refine ⟨hbound, fun hfew herrors source options component limit hresult => ?_⟩
  have hdoc : doc.Checked known (fun _ => True) :=
    checked_of_not_hasErrors herrors (fun _ _ _ _ => trivial)
  have hcycles : ∀ d ∈ doc.diagnostics known, ∀ name chain,
      d.finding ≠ .selfInstantiation name chain := by
    intro d hd name chain hfinding
    have hwarning := (hdoc d hd).1
    rw [hfinding] at hwarning
    cases hwarning
  have hchains : ∀ chain, doc.Chain doc.body chain → chain.length ≤ depthLimit :=
    fun chain hchain => Nat.le_trans (hbound hcycles chain hchain) hfew
  have hnot : ¬ (GenerationError.tooDeep component limit).IsTooDeep :=
    ((hdoc.parts_notTooDeep source hchains).emit hdoc.script_eq_ok options).of_error trivial
      (Prod.ext hresult rfl)
  exact hnot trivial

/-- A panel of cards with labels, in which the label is used on two ways. -/
def panel : Document where
  head := []
  components :=
    [⟨"Label", [⟨"words", .string⟩], [.paragraph .none (.symbol "words")]⟩,
     ⟨"Panel", [], [.useComponent "Label" [.text "Today"], .div .none [.useComponent "Card" []]]⟩,
     ⟨"Card", [], [.useComponent "Label" [.text "Milk"]]⟩]
  body := [.useComponent "Label" [.text "Tasks"], .useComponent "Panel" []]
  functions := []
  statements := []
  styles := []

/-- The longest chain of the panel has as many names on it as there are components. -/
theorem nesting_le_components_panel :
    panel.Chain panel.body ["Panel", "Card", "Label"] ∧
      (∀ chain, panel.Chain panel.body chain → chain.length ≤ 3) ∧
      ∀ source options component limit,
        (panel.generate source options).1 ≠ .error (.tooDeep component limit) := by
  have hreport : panel.diagnostics none = [] := rfl
  have hpanel := nesting_le_components panel none
  rw [hreport] at hpanel
  refine ⟨?_, hpanel.1 (fun _ h => nomatch h), hpanel.2 (by decide) rfl⟩
  exact .cons (by decide) rfl (.cons (by decide) rfl (.cons (by decide) rfl (.nil _)))

end Document

end Pagewright
