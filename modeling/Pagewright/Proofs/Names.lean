import Mathlib.Data.List.Nodup
import Pagewright.Proofs.Expansion
import Pagewright.Proofs.Fidelity
import Pagewright.Proofs.Html.References
import Pagewright.Proofs.Paths

/-!
# The names of elements

The name of an element becomes its `id`, and an `id` should be on a page only once. The check of a
body therefore carries a table of the names given so far, and the path of the element that bears
each. It says of an element that its name is taken if the name is in the table.

All else that is reported can be set aside: what is reported about names is what the table says on
its way through the body (`Document.nameReport_diagnostics`). The table in front of an element holds
the first bearers among the elements before it (`NameTable.lookup_recordAll`). Since elements are
located in document order, these are the first bearers of all, seen from the paths
(`Document.nameTaken_mem_iff`).

If nothing is reported, the names of the body are distinct, and so are the `id`s of the page, as
long as components bring no names of their own.
-/

namespace Pagewright

/-! ## What is reported about names -/

/-- The finding says that a name is taken. -/
def Finding.isNameTaken : Finding → Bool
  | nameTaken _ _ => true
  | _ => false

/-- None of the findings is about a name. -/
def NameFree (fs : List Finding) : Prop :=
  ∀ f ∈ fs, f.isNameTaken = false

/-- **What is reported about names.** -/
def nameReport (ds : List Diagnostic) : List Diagnostic :=
  ds.filter (·.finding.isNameTaken)

@[simp] theorem nameReport_append (ds ds' : List Diagnostic) :
    nameReport (ds ++ ds') = nameReport ds ++ nameReport ds' :=
  List.filter_append _ _

@[simp] theorem Path.found_append (path : Path) (fs fs' : List Finding) :
    path.found (fs ++ fs') = path.found fs ++ path.found fs' :=
  List.map_append

theorem nameReport_found {path : Path} {fs : List Finding} (h : NameFree fs) :
    nameReport (path.found fs) = [] := by
  refine List.filter_eq_nil_iff.mpr (fun d hd => ?_)
  obtain ⟨f, hf, rfl⟩ := List.mem_map.mp hd
  rw [h f hf]
  exact Bool.false_ne_true

theorem nameReport_flatMap {α : Type} {xs : List α} {f : α → List Diagnostic}
    (h : ∀ x ∈ xs, nameReport (f x) = []) : nameReport (xs.flatMap f) = [] := by
  unfold nameReport at h ⊢
  rw [List.filter_flatMap]
  exact List.flatMap_eq_nil_iff.mpr h

section NameFree

variable (doc : Document) (params : List Parameter)

theorem nameFree_operatorFindings (x : Expression) : NameFree (x.operatorFindings params) := by
  intro f hf
  obtain ⟨y, -, hy⟩ := List.mem_filterMap.mp hf
  cases y with
  | operation left op right =>
    cases op <;> grind [Expression.operatorFinding?, Finding.isNameTaken]
  | _ => cases hy

theorem nameFree_markupFindings (x : Expression) : NameFree (x.markupFindings params) := by
  refine List.forall_mem_append.mpr ⟨fun f hf => ?_, nameFree_operatorFindings params x⟩
  obtain ⟨y, -, hy⟩ := List.mem_filterMap.mp hf
  cases y with
  | symbol name =>
    rw [Expression.nameFinding?] at hy
    split at hy
    · cases hy
    · cases hy
      rfl
  | textbox name =>
    cases hy
    rfl
  | _ => cases hy

theorem nameFree_statement (textboxes known : List String) (s : Statement) :
    NameFree (s.findings textboxes known) := by
  refine List.forall_mem_append.mpr ⟨fun f hf => ?_, nameFree_operatorFindings [] s.value⟩
  obtain ⟨y, -, hy⟩ := List.mem_filterMap.mp hf
  cases y with
  | symbol name | textbox name =>
    rw [Expression.scriptFinding?] at hy
    split at hy
    · cases hy
    · cases hy
      rfl
  | _ => cases hy

theorem nameFree_useFindings (name : String) (args : List Expression) :
    NameFree (doc.useFindings params name args) := by
  intro f hf
  unfold Document.useFindings at hf
  grind [Finding.isNameTaken]

theorem nameFree_clickFindings (click : Click) : NameFree (doc.clickFindings click) := by
  intro f hf
  unfold Document.clickFindings at hf
  grind [Finding.isNameTaken]

theorem nameFree_classFindings (known : Option (List String)) (attrs : Attributes) :
    NameFree (attrs.classFindings known) := by
  cases known with
  | none => exact List.forall_mem_nil _
  | some known => exact List.forall_mem_map.mpr (fun _ _ => rfl)

theorem Element.nameFree_captionFindings (e : Element) : NameFree (e.captionFindings params) := by
  unfold captionFindings
  split
  · exact nameFree_markupFindings params _
  · exact List.forall_mem_nil _

/-- The findings of an element itself are about its expressions, its click, the component it uses,
or its shape. -/
theorem Element.nameFree_findings (e : Element) : NameFree (e.findings doc params) := by
  have hmarkup := nameFree_markupFindings params
  have hclick := nameFree_clickFindings doc
  have huse := nameFree_useFindings doc params
  unfold NameFree at *
  cases e <;> simp only [findings, List.forall_mem_append, List.mem_flatMap, forall_exists_index,
    and_imp] <;> grind [Finding.isNameTaken]

theorem nameReport_declarations (path : Path) (step : Nat → Step) (ds : List Declaration) :
    nameReport (Declaration.diagnostics path step params ds) = [] :=
  nameReport_flatMap (fun _ _ => nameReport_found (nameFree_markupFindings params _))

theorem nameReport_statements (textboxes : List String) (path : Nat → Path) (i : Nat)
    (known : List String) (body : List Statement) :
    nameReport (Statement.inOrder textboxes path i known body) = [] := by
  induction body generalizing i known with
  | nil => rfl
  | cons s rest ih =>
    rw [Statement.inOrder, nameReport_append, nameReport_found (nameFree_statement _ _ _), ih]
    rfl

end NameFree

/-! ## The table of names -/

namespace NameTable

theorem finding?_eq_some_iff {names : NameTable} {e : Element} {f : Finding} :
    names.finding? e = some f ↔
      ∃ name first, e.name? = some name ∧ names.lookup name = some first ∧
        f = .nameTaken name first := by
  unfold finding?
  simp only [Option.bind_eq_some_iff, Option.map_eq_some_iff]
  constructor
  · rintro ⟨name, hname, first, hfirst, rfl⟩
    exact ⟨name, first, hname, hfirst, rfl⟩
  · rintro ⟨name, first, hname, hfirst, rfl⟩
    exact ⟨name, hname, first, hfirst, rfl⟩

/-- What a table of names says about elements, one after the other. -/
def warnings : NameTable → List (Path × Element) → List Diagnostic
  | _, [] => []
  | names, (path, e) :: rest =>
    path.found (names.finding? e).toList ++ warnings (names.record path e) rest

/-- The table with the names of elements, one after the other. -/
def recordAll (names : NameTable) (located : List (Path × Element)) : NameTable :=
  located.foldl (fun names p => names.record p.1 p.2) names

/-- A name that is in the table stays with its first bearer. -/
theorem lookup_record (names : NameTable) (path : Path) (e : Element) (name : String) :
    (names.record path e).lookup name
      = (names.lookup name).or (if e.name? = some name then some path else none) := by
  unfold record
  cases hname : e.name? with
  | none => simp
  | some own =>
    by_cases hown : own = name
    · subst hown
      cases hlookup : names.lookup own <;> simp [hlookup]
    · have hother : (name == own) = false := beq_eq_false_iff_ne.mpr (Ne.symm hown)
      simp only [Option.some.injEq, hown, if_false, Option.or_none]
      split
      · rfl
      · rw [List.lookup_cons, hother]

/-- **The table holds the first bearers** of the names that are not in it before. -/
theorem lookup_recordAll (names : NameTable) (located : List (Path × Element)) (name : String) :
    (names.recordAll located).lookup name
      = (names.lookup name).or
          ((located.find? (·.2.name? = some name)).map Prod.fst) := by
  induction located generalizing names with
  | nil => simp [recordAll]
  | cons first rest ih =>
    have hrest := ih (names.record first.1 first.2)
    rw [lookup_record] at hrest
    rw [recordAll, List.foldl_cons]
    refine hrest.trans ?_
    by_cases hfirst : first.2.name? = some name
    · simp [hfirst]
    · simp [hfirst]

/-- What is said about an element depends on the elements before it only. -/
theorem mem_warnings_iff {names : NameTable} {located : List (Path × Element)} {d : Diagnostic} :
    d ∈ names.warnings located ↔
      ∃ before e after, located = before ++ (d.path, e) :: after ∧
        (names.recordAll before).finding? e = some d.finding := by
  induction located generalizing names with
  | nil => simp [warnings]
  | cons first rest ih =>
    obtain ⟨path, e⟩ := first
    rw [warnings, List.mem_append, ih]
    constructor
    · rintro (h | ⟨before, x, after, rfl, h⟩)
      · obtain ⟨f, hf, rfl⟩ := List.mem_map.mp h
        exact ⟨[], e, rest, rfl, Option.mem_toList.mp hf⟩
      · exact ⟨(path, e) :: before, x, after, rfl, h⟩
    · rintro ⟨before, x, after, hlocated, h⟩
      cases before with
      | nil =>
        cases hlocated
        exact .inl (List.mem_map.mpr ⟨d.finding, Option.mem_toList.mpr h, rfl⟩)
      | cons first before =>
        cases hlocated
        exact .inr ⟨before, x, after, rfl, h⟩

/-- Each element is warned about at most once, in the order of the elements. -/
theorem map_path_warnings (names : NameTable) (located : List (Path × Element)) :
    ((names.warnings located).map (·.path)).Sublist (located.map Prod.fst) := by
  induction located generalizing names with
  | nil => exact .slnil
  | cons first rest ih =>
    obtain ⟨path, e⟩ := first
    rw [warnings, List.map_append, List.map_cons]
    cases names.finding? e with
    | none => exact (ih _).cons path
    | some f => exact (ih _).cons_cons path

/-- **Without a warning, the names are distinct**, and none of them is in the table before. -/
theorem nodup_of_warnings {names : NameTable} {located : List (Path × Element)}
    (h : names.warnings located = []) :
    ((located.map Prod.snd).filterMap Element.name?).Nodup ∧
      ∀ name ∈ (located.map Prod.snd).filterMap Element.name?, names.lookup name = none := by
  induction located generalizing names with
  | nil => exact ⟨List.nodup_nil, List.forall_mem_nil _⟩
  | cons first rest ih =>
    obtain ⟨path, e⟩ := first
    obtain ⟨hfound, hrest⟩ := List.append_eq_nil_iff.mp h
    obtain ⟨hnodup, hfresh⟩ := ih hrest
    simp only [lookup_record, Option.or_eq_none_iff] at hfresh
    cases hname : e.name? with
    | none =>
      rw [List.map_cons, List.filterMap_cons_none hname]
      exact ⟨hnodup, fun name hmem => (hfresh name hmem).1⟩
    | some own =>
      rw [List.map_cons, List.filterMap_cons_some hname]
      refine ⟨List.nodup_cons.mpr ⟨fun hmem => ?_, hnodup⟩, ?_⟩
      · have hother := (hfresh own hmem).2
        rw [if_pos hname] at hother
        cases hother
      · refine List.forall_mem_cons.mpr ⟨?_, fun name hmem => (hfresh name hmem).1⟩
        cases hlookup : names.lookup own with
        | none => rfl
        | some first => simp [finding?, hname, hlookup, Path.found] at hfound

end NameTable

/-! ## The report of a document -/

namespace Scope

/-- Of one element, the table says whether its name is taken, and no other check does. -/
theorem nameReport_diagnostics (scope : Scope) (names : NameTable) (path : Path) (e : Element) :
    nameReport (scope.diagnostics names path e) = path.found (names.finding? e).toList := by
  have hcaption := e.nameFree_captionFindings scope.params
  have hfindings := e.nameFree_findings scope.doc scope.params
  have hunnamed (h : e.attributes? = none) : names.finding? e = none := by
    simp [NameTable.finding?, Element.name?, h]
  unfold diagnostics
  split
  · next hhead =>
    rw [hunnamed (by cases e <;> first | rfl | cases hhead)]
    rfl
  · rw [nameReport_append, nameReport_append, nameReport_found hcaption,
      nameReport_found hfindings, List.append_nil, List.append_nil]
    cases hattrs : e.attributes? with
    | none =>
      rw [hunnamed hattrs]
      rfl
    | some attrs =>
      have hname : nameReport (path.found (names.finding? e).toList)
          = path.found (names.finding? e).toList := by
        refine List.filter_eq_self.mpr (List.forall_mem_map.mpr (fun f hf => ?_))
        obtain ⟨name, first, -, -, rfl⟩ :=
          NameTable.finding?_eq_some_iff.mp (Option.mem_toList.mp hf)
        rfl
      have hclasses := nameFree_classFindings scope.known attrs
      rw [nameReport_append, nameReport_declarations, Path.found_append, nameReport_append, hname,
        nameReport_found hclasses, List.append_nil, List.append_nil]

/-- Of elements that share a table, the table says whose names are taken. -/
theorem nameReport_inOrder (scope : Scope) (names : NameTable)
    (located : List (Path × Element)) :
    nameReport (scope.inOrder names located) = names.warnings located := by
  induction located generalizing names with
  | nil => rfl
  | cons first rest ih =>
    rw [inOrder, nameReport_append, nameReport_diagnostics, ih, NameTable.warnings]

end Scope

namespace Document

/-- Definitions are reported for their own names only. -/
theorem nameReport_definitions (doc : Document) :
    nameReport (doc.duplicateComponents ++ doc.duplicateFunctions ++ doc.selfUses) = [] := by
  have hcomponents : nameReport doc.duplicateComponents = [] := by
    refine nameReport_flatMap (fun p _ => nameReport_found (List.forall_mem_append.mpr ⟨?_, ?_⟩))
    · split
      · exact List.forall_mem_singleton.mpr rfl
      · exact List.forall_mem_nil _
    · exact List.forall_mem_map.mpr (fun _ _ => rfl)
  have hfunctions : nameReport doc.duplicateFunctions = [] := by
    refine nameReport_flatMap (fun p _ => ?_)
    dsimp only
    split <;> rfl
  have hself : nameReport doc.selfUses = [] := by
    refine nameReport_flatMap (fun p _ => ?_)
    dsimp only
    split <;> rfl
  rw [nameReport_append, nameReport_append, hcomponents, hfunctions, hself]
  rfl

theorem nameReport_headDiagnostics (doc : Document) : nameReport doc.headDiagnostics = [] := by
  refine nameReport_flatMap (fun p _ => nameReport_found ?_)
  split
  · exact nameFree_markupFindings [] _
  · exact nameFree_markupFindings [] _
  · exact List.forall_mem_singleton.mpr rfl

/-- A component is checked with an empty table, which says nothing. -/
theorem nameReport_componentDiagnostics (doc : Document) (known : Option (List String)) :
    nameReport (doc.componentDiagnostics known) = [] := by
  refine nameReport_flatMap (fun p _ => nameReport_flatMap (fun q _ => ?_))
  rw [Scope.nameReport_diagnostics]
  simp [NameTable.finding?, Path.found]

theorem nameReport_scriptDiagnostics (doc : Document) : nameReport doc.scriptDiagnostics = [] := by
  refine (nameReport_append _ _).trans (List.append_eq_nil_iff.mpr ⟨?_, ?_⟩)
  · exact nameReport_statements _ _ _ _ _
  · exact nameReport_flatMap (fun p _ => nameReport_statements _ _ _ _ _)

theorem nameReport_styleDiagnostics (doc : Document) : nameReport doc.styleDiagnostics = [] := by
  refine nameReport_flatMap (fun p _ => ?_)
  rw [nameReport_append, nameReport_declarations, List.append_nil]
  refine nameReport_found ?_
  split
  · exact List.forall_mem_singleton.mpr rfl
  · exact List.forall_mem_nil _

/-- **What is reported about names is what the table says** on its way through the body. -/
theorem nameReport_diagnostics (doc : Document) (known : Option (List String)) :
    nameReport (doc.diagnostics known)
      = NameTable.warnings [] (Element.locatedFrom [] .body 0 doc.body) := by
  have hbody : nameReport (doc.bodyDiagnostics known) = _ := Scope.nameReport_inOrder _ _ _
  unfold diagnostics
  rw [nameReport_append, nameReport_append, nameReport_append, nameReport_append,
    nameReport_append, nameReport_definitions, nameReport_headDiagnostics, hbody,
    nameReport_componentDiagnostics, nameReport_scriptDiagnostics, nameReport_styleDiagnostics,
    List.append_nil, List.append_nil, List.append_nil]
  rfl

end Document

/-! ## The first bearer of a name -/

section InOrder

variable {α : Type} {R : α → α → Prop} {p : α → Bool} {front back : List α} {x y : α}

/-- In a list in order, what is found first is what nothing else comes before. -/
theorem find?_eq_some_iff_least (hasymm : ∀ {a b}, R a b → ¬ R b a) {xs : List α}
    (h : xs.Pairwise R) :
    xs.find? p = some y ↔ y ∈ xs ∧ p y = true ∧ ∀ z ∈ xs, p z = true → ¬ R z y := by
  induction xs with
  | nil => simp
  | cons x xs ih =>
    obtain ⟨hx, hxs⟩ := List.pairwise_cons.mp h
    cases hpx : p x with
    | false =>
      rw [List.find?_cons_of_neg (by simp [hpx]), ih hxs]
      constructor
      · rintro ⟨hy, hpy, hleast⟩
        refine ⟨List.mem_cons_of_mem _ hy, hpy, List.forall_mem_cons.mpr ⟨?_, hleast⟩⟩
        exact fun hpx' => absurd (hpx.symm.trans hpx') Bool.false_ne_true
      · rintro ⟨hy, hpy, hleast⟩
        refine ⟨(List.mem_cons.mp hy).resolve_left ?_, hpy, (List.forall_mem_cons.mp hleast).2⟩
        rintro rfl
        exact Bool.false_ne_true (hpx.symm.trans hpy)
    | true =>
      rw [List.find?_cons_of_pos hpx]
      constructor
      · rintro ⟨⟩
        refine ⟨List.mem_cons_self, hpx, List.forall_mem_cons.mpr ⟨?_, ?_⟩⟩
        · exact fun _ hself => hasymm hself hself
        · exact fun z hz _ => hasymm (hx z hz)
      · rintro ⟨hy, -, hleast⟩
        rcases List.mem_cons.mp hy with rfl | hy
        · rfl
        · exact absurd (hx y hy) (hleast x List.mem_cons_self hpx)

/-- In a list in order, the elements in front of one are those that come before it. -/
theorem mem_front_iff (hasymm : ∀ {a b}, R a b → ¬ R b a) (h : (front ++ x :: back).Pairwise R) :
    y ∈ front ↔ y ∈ front ++ x :: back ∧ R y x := by
  obtain ⟨-, hback, hacross⟩ := List.pairwise_append.mp h
  constructor
  · exact fun hy => ⟨List.mem_append_left _ hy, hacross y hy x List.mem_cons_self⟩
  · rintro ⟨hy, hyx⟩
    rcases List.mem_append.mp hy with hy | hy
    · exact hy
    · rcases List.mem_cons.mp hy with rfl | hy
      · exact absurd hyx (hasymm hyx)
      · exact absurd hyx (hasymm ((List.pairwise_cons.mp hback).1 y hy))

/-- What is found in the front of a list is what is found in all of it. -/
theorem find?_front_eq_some_iff (back : List α) :
    front.find? p = some y ↔ (front ++ back).find? p = some y ∧ y ∈ front := by
  rw [List.find?_append]
  constructor
  · intro h
    rw [h]
    exact ⟨rfl, List.mem_of_find?_eq_some h⟩
  · rintro ⟨h, hy⟩
    cases hfront : front.find? p with
    | some found =>
      rw [hfront] at h
      exact h
    | none =>
      rw [hfront] at h
      exact absurd (List.find?_some h) (List.find?_eq_none.mp hfront y hy)

end InOrder

namespace Document

/-- The path leads to an element of the body that bears the name. -/
def Bears (doc : Document) (path : Path) (name : String) : Prop :=
  ∃ e, doc.bodyElement? path = some e ∧ e.name? = some name

/-- The path leads to the first element of the body, in document order, that bears the name. -/
def BearsFirst (doc : Document) (path : Path) (name : String) : Prop :=
  doc.Bears path name ∧ ∀ other, doc.Bears other name → ¬ other.Before path

variable {doc : Document} {known : Option (List String)}

/-- The table in front of an element of the body holds the first bearers that come before it. -/
theorem lookup_recordAll_iff {before after : List (Path × Element)} {path first : Path}
    {e : Element} {name : String}
    (h : Element.locatedFrom [] .body 0 doc.body = before ++ (path, e) :: after) :
    (NameTable.recordAll [] before).lookup name = some first ↔
      doc.BearsFirst first name ∧ first.Before path := by
  have hasymm : ∀ {p q : Path × Element}, p.1.Before q.1 → ¬ q.1.Before p.1 := Path.Before.asymm
  have horder : (before ++ (path, e) :: after).Pairwise fun p q => p.1.Before q.1 := by
    rw [← h]
    exact Element.pairwise_locatedFrom (fun _ => rfl) [] 0 doc.body
  have hmem (place : Path) (x : Element) :
      (place, x) ∈ before ++ (path, e) :: after ↔ doc.bodyElement? place = some x := by
    rw [← h]
    exact mem_located_body_iff
  rw [NameTable.lookup_recordAll, List.lookup_nil, Option.none_or, Option.map_eq_some_iff]
  constructor
  · rintro ⟨⟨place, x⟩, hfind, rfl⟩
    obtain ⟨hall, hfront⟩ := (find?_front_eq_some_iff ((path, e) :: after)).mp hfind
    obtain ⟨hx, hname, hleast⟩ := (find?_eq_some_iff_least hasymm horder).mp hall
    refine ⟨⟨⟨x, (hmem place x).mp hx, of_decide_eq_true hname⟩, ?_⟩,
      ((mem_front_iff hasymm horder).mp hfront).2⟩
    rintro other ⟨y, hy, hyname⟩
    exact hleast (other, y) ((hmem other y).mpr hy) (decide_eq_true hyname)
  · rintro ⟨⟨⟨x, hx, hname⟩, hleast⟩, hbefore⟩
    have hx' := (hmem first x).mpr hx
    refine ⟨(first, x), (find?_front_eq_some_iff ((path, e) :: after)).mpr ⟨?_, ?_⟩, rfl⟩
    · refine (find?_eq_some_iff_least hasymm horder).mpr ⟨hx', decide_eq_true hname, ?_⟩
      rintro ⟨other, y⟩ hy hyname
      exact hleast other ⟨y, (hmem other y).mp hy, of_decide_eq_true hyname⟩
    · exact (mem_front_iff hasymm horder).mpr ⟨hx', hbefore⟩

/-- **A name is reported to be taken** where an element bears it that is not the first. -/
theorem nameTaken_mem_iff {path first : Path} {name : String} :
    ⟨path, .nameTaken name first⟩ ∈ doc.diagnostics known ↔
      doc.Bears path name ∧ doc.BearsFirst first name ∧ first.Before path := by
  have hreport : ⟨path, .nameTaken name first⟩ ∈ doc.diagnostics known ↔
      ⟨path, .nameTaken name first⟩ ∈ nameReport (doc.diagnostics known) := by
    rw [nameReport, List.mem_filter]
    exact (and_iff_left rfl).symm
  rw [hreport, nameReport_diagnostics, NameTable.mem_warnings_iff]
  constructor
  · rintro ⟨before, e, after, hlocated, hfinding⟩
    obtain ⟨name', first', hname, hlookup, heq⟩ := NameTable.finding?_eq_some_iff.mp hfinding
    cases heq
    refine ⟨⟨e, mem_located_body_iff.mp ?_, hname⟩, (lookup_recordAll_iff hlocated).mp hlookup⟩
    rw [hlocated]
    exact List.mem_append_right _ List.mem_cons_self
  · rintro ⟨⟨e, he, hname⟩, hfirst⟩
    obtain ⟨before, after, hlocated⟩ := List.append_of_mem (mem_located_body_iff.mpr he)
    refine ⟨before, e, after, hlocated, NameTable.finding?_eq_some_iff.mpr ?_⟩
    exact ⟨name, first, hname, (lookup_recordAll_iff hlocated).mpr hfirst, rfl⟩

/-- Names are reported in document order, of each element once. -/
theorem pairwise_nameReport (doc : Document) (known : Option (List String)) :
    (nameReport (doc.diagnostics known)).Pairwise fun d d' => d.path.Before d'.path := by
  rw [nameReport_diagnostics]
  have hpaths : ((Element.locatedFrom [] .body 0 doc.body).map Prod.fst).Pairwise Path.Before :=
    List.pairwise_map.mpr (Element.pairwise_locatedFrom (fun _ => rfl) [] 0 doc.body)
  exact List.pairwise_map.mp (hpaths.sublist (NameTable.map_path_warnings _ _))

/-- Without a report about names, the names of the body are distinct. -/
theorem nodup_names
    (h : ∀ path name first, ⟨path, .nameTaken name first⟩ ∉ doc.diagnostics known) :
    ((Element.subelementsOf doc.body).filterMap Element.name?).Nodup := by
  have hnone : nameReport (doc.diagnostics known) = [] := by
    refine List.filter_eq_nil_iff.mpr (fun d hd hname => ?_)
    obtain ⟨path, finding⟩ := d
    cases finding with
    | nameTaken name first => exact h path name first hd
    | _ => cases hname
  rw [nameReport_diagnostics] at hnone
  have hnodup := (NameTable.nodup_of_warnings hnone).1
  rw [Element.map_snd_locatedFrom] at hnodup
  exact hnodup

/-- If components bring no names, the names of the elements that are written are those of the
elements there are. -/
theorem Expands.names {es elements : List Element} (h : doc.Expands es elements)
    (hplain : ∀ c ∈ doc.components, ∀ e ∈ Element.subelementsOf c.body, e.name? = none) :
    elements.filterMap Element.name? = (Element.subelementsOf es).filterMap Element.name? := by
  induction h with
  | nil => rfl
  | @element e rest inner tail _ _ _ ihinner ih =>
    rw [Element.subelementsOf_cons]
    simp only [List.cons_append, List.filterMap_cons, List.filterMap_append, ihinner, ih]
  | @useComponent name args component rest inner tail hc _ _ ihbody ih =>
    have hnone : (Element.subelementsOf component.body).filterMap Element.name? = [] :=
      List.filterMap_eq_nil_iff.mpr (hplain component (mem_components_of_component? hc))
    rw [List.filterMap_append, ihbody, hnone, ih]
    rfl

end Document

/-- Different values are written differently. -/
theorem Html.escapeAttribute_injective : Function.Injective Html.escapeAttribute := by
  intro s s' h
  have hdecode := decodeReferences?_escapeAttribute s
  rw [h, decodeReferences?_escapeAttribute] at hdecode
  exact (Option.some.inj hdecode).symm

namespace Document

open Dom

/-- **A name that is taken is reported, and without such a report the `id`s of a page are
distinct.** The report names exactly the elements of the body, inside any containers, that are not
the first to bear their name, and for each it shows the path of the first one. It does so in
document order and of each element once. If there is nothing to report, and no component brings a
name, then the `id`s in the text of a body that is written are the names of the elements of the
body, in order. They are pairwise distinct, both as they are read and as they are written. -/
theorem nameTaken_reported_and_ids_nodup (doc : Document) (known : Option (List String)) :
    (∀ path name first, ⟨path, .nameTaken name first⟩ ∈ doc.diagnostics known ↔
        doc.Bears path name ∧ doc.BearsFirst first name ∧ first.Before path) ∧
      (nameReport (doc.diagnostics known)).Pairwise (fun d d' => d.path.Before d'.path) ∧
      (∀ name first, (Finding.nameTaken name first).severity = .warning ∧
        (Finding.nameTaken name first).message
          = "element name `" ++ name ++ "` is already used at " ++ first.text) ∧
      ((∀ path name first, ⟨path, .nameTaken name first⟩ ∉ doc.diagnostics known) →
        (∀ c ∈ doc.components, ∀ e ∈ Element.subelementsOf c.body, e.name? = none) →
        ∀ source run run' text,
          (ExceptT.run (doc.emitBody source)).run run = (.ok text, run') →
          ∃ tree, Html.read text = some tree ∧
            valuesAll "id" tree = (Element.subelementsOf doc.body).filterMap Element.name? ∧
            (valuesAll "id" tree).Nodup ∧
            ((valuesAll "id" tree).map Html.escapeAttribute).Nodup) := by
  refine ⟨fun _ _ _ => nameTaken_mem_iff, pairwise_nameReport doc known,
    fun _ _ => ⟨rfl, rfl⟩, ?_⟩
  intro hnone hplain source run run' text htext
  obtain ⟨tree, hread, hdenotes⟩ := exists_tree_of_emitBody htext
  obtain ⟨elements, hexpands, hids⟩ := hdenotes.expands_ids
  rw [← List.filterMap_eq_flatMap_toList, hexpands.names hplain] at hids
  have hnodup : (valuesAll "id" tree).Nodup := by
    rw [hids]
    exact nodup_names hnone
  exact ⟨tree, hread, hids, hnodup, hnodup.map Html.escapeAttribute_injective⟩

/-- An office whose last element bears the given name. -/
def office (name : String) : Document where
  head := []
  components := [⟨"Note", [], [.paragraph .none (.text "Closed")]⟩]
  body :=
    [.div ⟨some "R&D", [], []⟩
        [.paragraph ⟨some "desk", [], []⟩ (.text "Desk"), .useComponent "Note" []],
      .sectionBlock .none none [.useComponent "Note" [], .paragraph ⟨some name, [], []⟩ (.text "")]]
  functions := []
  statements := []
  styles := []

/-- A second desk is reported. A name that is written the way another one is escaped is not, and it
is written in yet another way. -/
theorem nameTaken_reported_and_ids_nodup_office :
    (⟨[.body 1, .content 1], .nameTaken "desk" [.body 0, .content 0]⟩
        ∈ (office "desk").diagnostics none ∧
      (office "desk").BearsFirst [.body 0, .content 0] "desk") ∧
    ∃ text run' tree,
      (ExceptT.run ((office "R&amp;D").emitBody (fun _ => []))).run .fresh = (.ok text, run') ∧
      Html.read text = some tree ∧ valuesAll "id" tree = ["R&D", "desk", "R&amp;D"] ∧
      ((valuesAll "id" tree).map Html.escapeAttribute).Nodup := by
  have hdesk : ⟨[.body 1, .content 1], .nameTaken "desk" [.body 0, .content 0]⟩
      ∈ (office "desk").diagnostics none := by decide
  have hfirst := ((nameTaken_reported_and_ids_nodup (office "desk") none).1 _ _ _).mp hdesk
  refine ⟨⟨hdesk, hfirst.2.1⟩, ?_⟩
  have hnone : (office "R&amp;D").diagnostics none = [] := by decide
  have hids := (nameTaken_reported_and_ids_nodup (office "R&amp;D") none).2.2.2
  obtain ⟨tree, hread, hvalues, -, hwritten⟩ :=
    hids (by simp [hnone]) (by decide) (fun _ => []) .fresh _ _ rfl
  exact ⟨_, _, tree, rfl, hread, hvalues, hwritten⟩

end Document

end Pagewright
