import Mathlib.Data.List.Nodup
import Pagewright.Proofs.Cycles
import Pagewright.Proofs.Report

/-!
# Components that come back to themselves are found

The check follows the uses of a component to find a way back to it. It goes through them in document
order, with one path for all that it tries: it puts a name on the path when it enters the component
of that name, and takes it off again when nothing was found below (`Document.Search`). The search
that the check is made of hands each branch a path of its own, and may enter only so many components
one inside the other. Both searches come to the same (`Document.search_chainTo`). For a failed
branch leaves the path as it was, and a path on which no name stands twice is no longer than the
list of components.

So the search ends, and it ends with a path exactly if there is a chain of uses that leads back.
That path is such a chain, however many branches were tried in vain before.
-/

namespace Pagewright

namespace Document

variable {doc : Document} {target : String}

/-! ## The search with one path -/

/-- **A run of the search** for a way to the target, through the uses of the component at the end of
the path: whether it was found, and the path as it is then. There is no bound on how deep a run
goes, but it is a run only if it ends. -/
inductive Search (doc : Document) (target : String) :
    (path uses : List String) → (found : Bool) → (path' : List String) → Prop where
  | exhausted (path : List String) : Search doc target path [] false path
  | arrives (path uses : List String) :
      Search doc target path (target :: uses) true (path ++ [target])
  /-- A name that is on the path or has no component is passed over. -/
  | skips {path path' uses : List String} {name : String} {found : Bool} (hname : name ≠ target)
      (hdead : name ∈ path ∨ doc.component? name = none)
      (h : Search doc target path uses found path') :
      Search doc target path (name :: uses) found path'
  | finds {path path' uses : List String} {name : String} {c : Component} (hname : name ≠ target)
      (hnew : name ∉ path) (hc : doc.component? name = some c)
      (h : Search doc target (path ++ [name]) (Element.uses c.body) true path') :
      Search doc target path (name :: uses) true path'
  /-- Nothing was found below a name, which is taken off the path again. -/
  | returns {path below path' uses : List String} {name : String} {c : Component} {found : Bool}
      (hname : name ≠ target) (hnew : name ∉ path) (hc : doc.component? name = some c)
      (hbelow : Search doc target (path ++ [name]) (Element.uses c.body) false below)
      (h : Search doc target below.dropLast uses found path') :
      Search doc target path (name :: uses) found path'

namespace Search

variable {path path' uses : List String} {found : Bool}

/-- **A search in vain leaves the path as it was.** -/
theorem path_eq (h : doc.Search target path uses found path') (hfound : found = false) :
    path' = path := by
  induction h with
  | exhausted path => rfl
  | arrives path uses => cases hfound
  | skips _ _ _ ih => exact ih hfound
  | finds _ _ _ _ _ => cases hfound
  | returns _ _ _ _ _ ihbelow ih =>
    rw [ih hfound, ihbelow rfl, List.dropLast_concat]

/-- **There is one run only**, since each name leaves no choice. -/
theorem unique (h : doc.Search target path uses found path') {found' : Bool}
    {path'' : List String} (h' : doc.Search target path uses found' path'') :
    found' = found ∧ path'' = path' := by
  induction h generalizing found' path'' with
  | exhausted path => cases h'; exact ⟨rfl, rfl⟩
  | arrives path uses =>
    cases h' with
    | arrives => exact ⟨rfl, rfl⟩
    | skips hname => exact absurd rfl hname
    | finds hname => exact absurd rfl hname
    | returns hname => exact absurd rfl hname
  | skips hname hdead _ ih =>
    cases h' with
    | arrives => exact absurd rfl hname
    | skips _ _ h' => exact ih h'
    | finds _ hnew hc _ => simp [hnew, hc] at hdead
    | returns _ hnew hc _ _ => simp [hnew, hc] at hdead
  | finds hname hnew hc _ ih =>
    cases h' with
    | arrives => exact absurd rfl hname
    | skips _ hdead _ => simp [hnew, hc] at hdead
    | finds _ _ hc' h' =>
      cases hc.symm.trans hc'
      exact ih h'
    | returns _ _ hc' hbelow _ =>
      cases hc.symm.trans hc'
      cases (ih hbelow).1
  | returns hname hnew hc _ _ ihbelow ih =>
    cases h' with
    | arrives => exact absurd rfl hname
    | skips _ hdead _ => simp [hnew, hc] at hdead
    | finds _ _ hc' hbelow =>
      cases hc.symm.trans hc'
      cases (ihbelow hbelow).1
    | returns _ _ hc' hbelow h' =>
      cases hc.symm.trans hc'
      cases (ihbelow hbelow).2
      exact ih h'

/-- **What the search has found is a chain of uses**, put behind the path that it started from. -/
theorem exists_chain {first : Component} (hfirst : doc.component? target = some first)
    {es : List Element} (h : doc.Search target path uses found path')
    (huses : uses ⊆ Element.uses es) (hfound : found = true) :
    ∃ between, path' = path ++ (between ++ [target]) ∧ doc.Chain es (between ++ [target]) := by
  induction h generalizing es with
  | exhausted path => cases hfound
  | arrives path uses =>
    exact ⟨[], rfl, .cons (huses List.mem_cons_self) hfirst (.nil _)⟩
  | skips _ _ _ ih => exact ih (List.cons_subset.mp huses).2 hfound
  | @finds path path' uses name c _ _ hc _ ih =>
    obtain ⟨between, rfl, hchain⟩ := ih (List.Subset.refl _) rfl
    refine ⟨name :: between, ?_, .cons (huses List.mem_cons_self) hc hchain⟩
    rw [List.append_assoc]
    rfl
  | @returns path below path' uses name c found _ _ _ hbelow _ _ ih =>
    rw [hbelow.path_eq rfl, List.dropLast_concat] at ih
    exact ih (List.cons_subset.mp huses).2 hfound

end Search

/-! ## The search of the check -/

/-- What the search of the check does with one name, and with those after it. -/
theorem chainTo_cons (levels : Nat) (chain : List String) (name : String) (uses : List String) :
    doc.chainTo target (levels + 1) chain (name :: uses)
      = (if name = target then some (chain ++ [name])
          else if name ∈ chain then none
          else (doc.component? name).bind fun c =>
            doc.chainTo target levels (chain ++ [name]) (Element.uses c.body)).or
        (doc.chainTo target (levels + 1) chain uses) := by
  rw [chainTo, List.findSome?_cons, chainTo]
  by_cases hname : name = target
  · simp [hname]
  · by_cases hchain : name ∈ chain
    · simp [hname, hchain]
    · cases hc : doc.component? name with
      | none => simp [hname, hchain]
      | some c =>
        simp only [hname, hchain, if_false, Option.bind_some]
        cases doc.chainTo target levels (chain ++ [name]) (Element.uses c.body) <;> rfl

/-- **The search of the check is a run of the search with one path**, if it may go deep enough. What
it enters are components that are not on the path, so that the path does not grow longer than the
list of components. -/
theorem search_chainTo {levels : Nat} {path : List String} (uses : List String)
    (hnodup : path.Nodup) (hnames : path ⊆ doc.components.map (·.name))
    (hlevels : doc.components.length < path.length + levels) :
    doc.Search target path uses (doc.chainTo target levels path uses).isSome
      ((doc.chainTo target levels path uses).getD path) := by
  induction levels generalizing path uses with
  | zero =>
    have hlength := hnodup.length_le_of_subset hnames
    rw [List.length_map] at hlength
    omega
  | succ levels ih =>
    induction uses with
    | nil => exact .exhausted path
    | cons name uses ihuses =>
      rw [chainTo_cons]
      by_cases hname : name = target
      · subst hname
        rw [if_pos rfl]
        exact .arrives path uses
      · rw [if_neg hname]
        by_cases hpath : name ∈ path
        · rw [if_pos hpath]
          exact .skips hname (.inl hpath) ihuses
        · rw [if_neg hpath]
          cases hc : doc.component? name with
          | none => exact .skips hname (.inr hc) ihuses
          | some c =>
            have hnodup' : (path ++ [name]).Nodup := by
              rw [← List.concat_eq_append]
              exact hnodup.concat hpath
            have hnames' : path ++ [name] ⊆ doc.components.map (·.name) := by
              refine List.append_subset.mpr ⟨hnames, List.cons_subset.mpr ⟨?_, List.nil_subset _⟩⟩
              exact List.mem_map.mpr ⟨c, mem_components_of_component? hc, name_of_component? hc⟩
            have hbelow := ih (Element.uses c.body) hnodup' hnames'
              (by rw [List.length_append, List.length_singleton]; omega)
            rw [Option.bind_some]
            cases hchain : doc.chainTo target levels (path ++ [name]) (Element.uses c.body) with
            | some chain =>
              rw [hchain] at hbelow
              exact .finds hname hpath hc hbelow
            | none =>
              rw [hchain] at hbelow
              refine .returns hname hpath hc hbelow ?_
              rw [Option.getD_none, List.dropLast_concat]
              exact ihuses

/-- **The search for the way back to a component ends**, in the way the check says. -/
theorem search_chainBack? {c : Component} (hc : c ∈ doc.components) :
    doc.Search c.name [c.name] (Element.uses c.body) (doc.chainBack? c).isSome
      ((doc.chainBack? c).getD [c.name]) := by
  refine search_chainTo _ (List.nodup_singleton _) ?_ ?_
  · exact List.cons_subset.mpr ⟨List.mem_map_of_mem hc, List.nil_subset _⟩
  · rw [List.length_singleton]
    omega

/-- **The way back that the check finds is a chain of uses.** -/
theorem exists_of_chainBack? {c : Component} (hc : c ∈ doc.components) {path : List String}
    (h : doc.chainBack? c = some path) :
    ∃ between, path = c.name :: between ++ [c.name] ∧ doc.Chain c.body (between ++ [c.name]) := by
  have hsearch := search_chainBack? hc
  rw [h] at hsearch
  have hsome : (doc.component? c.name).isSome = true :=
    List.find?_isSome.mpr ⟨c, hc, decide_eq_true rfl⟩
  obtain ⟨first, hfirst⟩ := Option.isSome_iff_exists.mp hsome
  exact hsearch.exists_chain hfirst (List.Subset.refl _) rfl

/-! ## The report of a component -/

/-- What is found of an element stands at its path or below it. -/
theorem below_of_mem_diagnostics {scope : Scope} {names : NameTable} {path : Path} {e : Element}
    {d : Diagnostic} (hd : d ∈ scope.diagnostics names path e) : path <+: d.path := by
  have hfound : ∀ {more : Path} {fs : List Finding}, d ∈ Path.found (path ++ more) fs →
      path <+: d.path := by
    intro more fs hd
    obtain ⟨f, -, rfl⟩ := List.mem_map.mp hd
    exact List.prefix_append path more
  have hself : ∀ {fs : List Finding}, d ∈ path.found fs → path <+: d.path := by
    intro fs hd
    rw [← List.append_nil path] at hd
    exact hfound hd
  unfold Scope.diagnostics at hd
  split at hd
  · cases List.mem_singleton.mp hd
    exact List.prefix_rfl
  · rcases List.mem_append.mp hd with hd | hd
    · rcases List.mem_append.mp hd with hd | hd
      · split at hd
        · rcases List.mem_append.mp hd with hd | hd
          · exact hself hd
          · obtain ⟨declaration, -, hd⟩ := List.mem_flatMap.mp hd
            exact hfound hd
        · cases hd
      · exact hfound hd
    · exact hself hd

/-- **A way back is reported of a component** if the search has found it, and not otherwise. -/
theorem selfInstantiation_mem_iff {known : Option (List String)} {i : Nat} {c : Component}
    (hi : doc.components[i]? = some c) {name : String} {path : List String} :
    ⟨[.component i], .selfInstantiation name path⟩ ∈ doc.diagnostics known ↔
      name = c.name ∧ doc.chainBack? c = some path := by
  constructor
  · intro hd
    have hreported :
        _ ∈ doc.duplicateComponents ++ doc.selfUses ++ doc.componentDiagnostics known :=
      mem_diagnosticsOf hd rfl
    rcases List.mem_append.mp hreported with hreported | hreported
    · rcases List.mem_append.mp hreported with hreported | hreported
      · -- Of what is defined twice, other things are reported.
        obtain ⟨⟨c', j⟩, -, hfinding⟩ := List.mem_flatMap.mp hreported
        simp at hfinding
      · obtain ⟨⟨c', j⟩, hj, hfinding⟩ := List.mem_flatMap.mp hreported
        dsimp only at hfinding
        split at hfinding
        · next found hfound =>
          cases List.mem_singleton.mp hfinding
          cases hi.symm.trans (List.mk_mem_zipIdx_iff_getElem?.mp hj)
          exact ⟨rfl, hfound⟩
        · cases hfinding
    · -- What is found in the body of a component has a longer path.
      obtain ⟨⟨c', j⟩, -, hbody⟩ := List.mem_flatMap.mp hreported
      obtain ⟨⟨place, e⟩, hplace, hfinding⟩ := List.mem_flatMap.mp hbody
      obtain ⟨⟨k, hbelow⟩, -⟩ := Element.mem_of_mem_locatedFrom hplace
      have hlength := (hbelow.trans (below_of_mem_diagnostics hfinding)).length_le
      simp at hlength
  · rintro ⟨rfl, hfound⟩
    have hself : ⟨[.component i], .selfInstantiation c.name path⟩ ∈ doc.selfUses := by
      refine List.mem_flatMap.mpr ⟨(c, i), List.mk_mem_zipIdx_iff_getElem?.mpr hi, ?_⟩
      simp only [hfound, List.mem_singleton]
    simp [diagnostics, hself]

/-- **A component is reported to instantiate itself exactly if there is a chain of uses from its
body back to its name.** The search for such a chain ends, and in one way only. The path that is
reported is the one the search ends with, and it is what the message shows. It begins and ends with
the name of the component, and from its second name on it is a chain: each name is used by the body
of the component before it. -/
theorem selfInstantiation_reported_iff (doc : Document) (known : Option (List String)) (i : Nat)
    (c : Component) (hi : doc.components[i]? = some c) :
    ((∃ name path, ⟨[.component i], .selfInstantiation name path⟩ ∈ doc.diagnostics known) ↔
        ∃ between, doc.Chain c.body (between ++ [c.name])) ∧
      (∃ found path, ∀ found' path',
        doc.Search c.name [c.name] (Element.uses c.body) found' path' ↔
          found' = found ∧ path' = path) ∧
      ∀ name path, ⟨[.component i], .selfInstantiation name path⟩ ∈ doc.diagnostics known →
        (Finding.selfInstantiation name path).message
            = "component `" ++ c.name ++ "` instantiates itself (" ++ " -> ".intercalate path
              ++ ")" ∧
          doc.Search c.name [c.name] (Element.uses c.body) true path ∧
          ∃ between, path = c.name :: between ++ [c.name] ∧
            doc.Chain c.body (between ++ [c.name]) := by
  have hc : c ∈ doc.components := List.mem_of_getElem? hi
  have hsearch := search_chainBack? hc
  refine ⟨⟨?_, ?_⟩, ?_, ?_⟩
  · rintro ⟨name, path, hreported⟩
    obtain ⟨between, -, hchain⟩ :=
      exists_of_chainBack? hc ((selfInstantiation_mem_iff hi).mp hreported).2
    exact ⟨between, hchain⟩
  · rintro ⟨between, hchain⟩
    obtain ⟨path, hpath⟩ := Option.ne_none_iff_exists'.mp (chainBack?_ne_none hchain)
    exact ⟨c.name, path, (selfInstantiation_mem_iff hi).mpr ⟨rfl, hpath⟩⟩
  · refine ⟨_, _, fun found' path' => ⟨fun h => hsearch.unique h, ?_⟩⟩
    rintro ⟨rfl, rfl⟩
    exact hsearch
  · intro name path hreported
    obtain ⟨rfl, hpath⟩ := (selfInstantiation_mem_iff hi).mp hreported
    rw [hpath] at hsearch
    exact ⟨rfl, hsearch, exists_of_chainBack? hc hpath⟩

/-- A page that is inside itself, with a side that is too. The page uses a component that there is
not, and there is a second page, which is empty. -/
def nestedPage : Document where
  head := []
  components :=
    [⟨"Page", [], [.useComponent "Banner" [], .useComponent "Side" [],
        .div .none [.useComponent "Main" []]]⟩,
     ⟨"Side", [], [.useComponent "Note" [], .useComponent "Side" []]⟩,
     ⟨"Note", [], []⟩,
     ⟨"Main", [], [.useComponent "Side" [], .sectionBlock .none none [.useComponent "Page" []]]⟩,
     ⟨"Page", [], []⟩]
  body := []
  functions := []
  statements := []
  styles := []

/-- The way back to the page leads through the main part. It is found after the side has been tried
in vain, twice, and the path shows nothing of that. The second page uses nothing, and so nothing is
reported of it, though it bears the name of the first. -/
theorem selfInstantiation_reported_iff_nestedPage :
    ⟨[.component 0], .selfInstantiation "Page" ["Page", "Main", "Page"]⟩
        ∈ nestedPage.diagnostics none ∧
      nestedPage.Search "Page" ["Page"] ["Banner", "Side", "Main"] true ["Page", "Main", "Page"] ∧
      (∃ name path, ⟨[.component 1], .selfInstantiation name path⟩ ∈ nestedPage.diagnostics none) ∧
      ∀ name path,
        ⟨[.component 4], .selfInstantiation name path⟩ ∉ nestedPage.diagnostics none := by
  have hpage : ⟨[.component 0], .selfInstantiation "Page" ["Page", "Main", "Page"]⟩
      ∈ nestedPage.diagnostics none := by decide
  refine ⟨hpage, ?_, ?_, fun name path hreported => ?_⟩
  · exact ((selfInstantiation_reported_iff nestedPage none 0 _ rfl).2.2 _ _ hpage).2.1
  · refine (selfInstantiation_reported_iff nestedPage none 1 _ rfl).1.mpr ⟨[], ?_⟩
    exact .cons (by decide) rfl (.nil _)
  · obtain ⟨between, hchain⟩ :=
      (selfInstantiation_reported_iff nestedPage none 4 _ rfl).1.mp ⟨name, path, hreported⟩
    cases between <;> cases hchain with
    | cons huse => cases huse

end Document

end Pagewright
