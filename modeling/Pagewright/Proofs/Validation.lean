import Pagewright.Proofs.Typing
import Pagewright.Proofs.Walk
import Pagewright.Validation

/-!
# What a clean report says of a document

The check of a document walks over it once and writes down what it finds, with paths and in order.
For what follows the order and the paths do not matter. What matters is that the check goes
everywhere: if nothing in its report is against a document, then nothing is to be said against any
element of the body, however deep in containers, against any element of any component, against the
head, the style rules or the script.

`Document.Checked` is a report in which nothing is an error and in which the names without a value
are all tolerated. The theorems take it apart into statements about single elements
(`Element.Checked`), expressions and statements, with the parameters that are in force there.
-/

namespace Pagewright

/-- All diagnostics are admitted. -/
def AllAdmitted (loose : String → Prop) (ds : List Diagnostic) : Prop :=
  ∀ d ∈ ds, d.finding.Admitted loose

section Reports

variable {loose : String → Prop}

theorem allAdmitted_append {ds ds' : List Diagnostic} :
    AllAdmitted loose (ds ++ ds') ↔ AllAdmitted loose ds ∧ AllAdmitted loose ds' :=
  List.forall_mem_append

theorem allAdmitted_found {path : Path} {fs : List Finding} :
    AllAdmitted loose (Path.found path fs) ↔ ∀ f ∈ fs, f.Admitted loose :=
  List.forall_mem_map

theorem allAdmitted_flatMap {α : Type} {xs : List α} {f : α → List Diagnostic} :
    AllAdmitted loose (xs.flatMap f) ↔ ∀ x ∈ xs, AllAdmitted loose (f x) := by
  unfold AllAdmitted
  simp only [List.mem_flatMap]
  exact ⟨fun h x hx d hd => h d ⟨x, hx, hd⟩, fun h d ⟨x, hx, hd⟩ => h x hx d hd⟩

/-- Every item of a list has an index. -/
theorem exists_mem_zipIdx_of_mem {α : Type} {xs : List α} {x : α} (hx : x ∈ xs) :
    ∃ i, (x, i) ∈ xs.zipIdx := by
  obtain ⟨i, hi, rfl⟩ := List.mem_iff_getElem.mp hx
  exact ⟨i, List.mk_mem_zipIdx_iff_getElem?.mpr (List.getElem?_eq_getElem hi)⟩

/-- What is reported of a list item by item, each at its index, is reported of every item. -/
theorem allAdmitted_zipIdx {α : Type} {xs : List α} {f : α × Nat → List Diagnostic}
    (h : AllAdmitted loose (xs.zipIdx.flatMap f)) {x : α} (hx : x ∈ xs) :
    ∃ i, AllAdmitted loose (f (x, i)) := by
  obtain ⟨i, hi⟩ := exists_mem_zipIdx_of_mem hx
  exact ⟨i, allAdmitted_flatMap.mp h _ hi⟩

theorem checked_of_declarations {path : Path} {step : Nat → Step} {params : List Parameter}
    {ds : List Declaration}
    (h : AllAdmitted loose (Declaration.diagnostics path step params ds)) {d : Declaration}
    (hd : d ∈ ds) : d.value.Checked params loose := by
  obtain ⟨i, hi⟩ := allAdmitted_zipIdx h hd
  exact allAdmitted_found.mp hi

end Reports

/-! ## One element -/

namespace Element

/-- **The check has nothing against the element itself**: it does not belong in the head, its
expressions are checked, and if it uses a component, there is one and the arguments suit it. -/
structure Checked (doc : Document) (params : List Parameter) (loose : String → Prop)
    (e : Element) : Prop where
  placed : e.inHead = false
  expressions : ∀ x ∈ e.expressions, x.Checked params loose
  use : ∀ name args, e = .useComponent name args →
    ∃ component, doc.component? name = some component ∧ component.Suits params args

/-- Every expression of an element outside the head is looked at, with its style or without. -/
theorem mem_findings_of_mem_contents (doc : Document) {params : List Parameter} {e : Element}
    (he : e.inHead = false) {x : Expression} (hx : x ∈ e.contents) {f : Finding}
    (hf : f ∈ x.markupFindings params) :
    f ∈ e.captionFindings params ∨ f ∈ e.findings doc params := by
  cases e with
  | div attrs content => cases hx
  | sectionBlock attrs caption content =>
    cases caption with
    | none => cases hx
    | some caption =>
      cases List.mem_singleton.mp hx
      exact .inl hf
  | paragraph attrs text => cases List.mem_singleton.mp hx; exact .inr hf
  | heading attrs level text =>
    cases List.mem_singleton.mp hx
    exact .inr (List.mem_append_right _ hf)
  | link attrs url text => exact .inr (List.mem_flatMap.mpr ⟨x, hx, hf⟩)
  | image attrs path alt => exact .inr (List.mem_flatMap.mpr ⟨x, hx, hf⟩)
  | button attrs text onclick =>
    refine .inr ?_
    rcases List.mem_cons.mp hx with rfl | hx
    · exact List.mem_append_left _ hf
    · obtain ⟨click, hclick, hx⟩ := List.mem_flatMap.mp hx
      refine List.mem_append_right _ (List.mem_flatMap.mpr ⟨click, hclick, ?_⟩)
      exact List.mem_append_right _ (List.mem_flatMap.mpr ⟨x, hx, hf⟩)
  | textbox attrs label placeholder labelAfter =>
    exact .inr (List.mem_append_right _ (List.mem_flatMap.mpr ⟨x, hx, hf⟩))
  | linebreak => cases hx
  | topbar attrs caption home links autoNavLinks =>
    refine .inr ?_
    rcases List.mem_append.mp
      (show x ∈ (caption :: home.toList) ++ links.filterMap (·.text) from hx) with hx | hx
    · exact List.mem_append_left _ (List.mem_append_left _ (List.mem_flatMap.mpr ⟨x, hx, hf⟩))
    · exact List.mem_append_right _ (List.mem_flatMap.mpr ⟨x, hx, hf⟩)
  | footer attrs text => cases List.mem_singleton.mp hx; exact .inr hf
  | useComponent component args =>
    exact .inr (List.mem_append_left _ (List.mem_flatMap.mpr ⟨x, hx, hf⟩))
  | title text => cases he
  | icon path => cases he

/-- **Nothing reported of an element means that the element is checked.** -/
theorem checked_of_diagnostics {scope : Scope} {names : NameTable} {path : Path} {e : Element}
    {loose : String → Prop} (h : AllAdmitted loose (scope.diagnostics names path e)) :
    e.Checked scope.doc scope.params loose := by
  unfold Scope.diagnostics at h
  cases hplace : e.inHead with
  | true =>
    rw [hplace, if_pos rfl] at h
    exact nomatch (h _ (List.mem_singleton.mpr rfl)).1
  | false =>
    rw [hplace, if_neg Bool.false_ne_true] at h
    simp only [allAdmitted_append, allAdmitted_found] at h
    obtain ⟨⟨hattrs, hcaption⟩, hfindings⟩ := h
    refine ⟨hplace, fun x hx => ?_, fun name args huse => ?_⟩
    · rcases List.mem_append.mp hx with hx | hx
      · obtain ⟨d, hd, rfl⟩ := List.mem_map.mp hx
        unfold declarations at hd
        cases ha : e.attributes? with
        | none => rw [ha] at hd; cases hd
        | some attrs =>
          rw [ha] at hd hattrs
          exact checked_of_declarations (allAdmitted_append.mp hattrs).2 hd
      · intro f hf
        rcases mem_findings_of_mem_contents scope.doc hplace hx hf with hf | hf
        · exact hcaption f hf
        · exact hfindings f hf
    · subst huse
      exact Document.suits_of_useFindings
        (fun f hf => (hfindings f (List.mem_append_right _ hf)).1)

/-! ## Trees of elements -/

mutual

/-- The check finds a path to every element inside an element. -/
theorem exists_mem_located (e : Element) (path : Path) {x : Element} (hx : x ∈ e.subelements) :
    ∃ p, (p, x) ∈ e.located path := by
  match e with
  | .div attrs content =>
    rw [located]
    rcases List.mem_cons.mp (by simpa only [subelements] using hx) with rfl | hx
    · exact ⟨path, List.mem_cons_self⟩
    · obtain ⟨p, hp⟩ := exists_mem_locatedFrom content path .content 0 hx
      exact ⟨p, List.mem_cons_of_mem _ hp⟩
  | .sectionBlock attrs caption content =>
    rw [located]
    rcases List.mem_cons.mp (by simpa only [subelements] using hx) with rfl | hx
    · exact ⟨path, List.mem_cons_self⟩
    · obtain ⟨p, hp⟩ := exists_mem_locatedFrom content path .content 0 hx
      exact ⟨p, List.mem_cons_of_mem _ hp⟩
  | .title _ | .icon _ | .paragraph _ _ | .heading _ _ _ | .link _ _ _ | .image _ _ _
  | .button _ _ _ | .textbox _ _ _ _ | .linebreak | .topbar _ _ _ _ _ | .footer _ _
  | .useComponent _ _ =>
    cases List.mem_singleton.mp hx
    exact ⟨path, List.mem_singleton.mpr rfl⟩

/-- **The check finds a path to every element**, however deep in containers. -/
theorem exists_mem_locatedFrom (es : List Element) (path : Path) (step : Nat → Step) (i : Nat)
    {x : Element} (hx : x ∈ subelementsOf es) : ∃ p, (p, x) ∈ locatedFrom path step i es := by
  match es with
  | [] => cases hx
  | e :: rest =>
    rw [locatedFrom]
    rcases mem_subelementsOf_cons.mp hx with hx | hx
    · obtain ⟨p, hp⟩ := exists_mem_located e (path ++ [step i]) hx
      exact ⟨p, List.mem_append_left _ hp⟩
    · obtain ⟨p, hp⟩ := exists_mem_locatedFrom rest path step (i + 1) hx
      exact ⟨p, List.mem_append_right _ hp⟩

end

end Element

/-- Every element of a list is looked at, with the names given before it. -/
theorem Scope.exists_diagnostics_of_inOrder {scope : Scope} {loose : String → Prop}
    {located : List (Path × Element)} {names : NameTable}
    (h : AllAdmitted loose (scope.inOrder names located)) {path : Path} {e : Element}
    (he : (path, e) ∈ located) :
    ∃ names', AllAdmitted loose (scope.diagnostics names' path e) := by
  induction located generalizing names with
  | nil => cases he
  | cons first rest ih =>
    obtain ⟨hfirst, hrest⟩ := allAdmitted_append.mp h
    rcases List.mem_cons.mp he with rfl | he
    · exact ⟨names, hfirst⟩
    · exact ih hrest he

/-! ## Documents -/

namespace Document

/-- **The report on a document is clean**: nothing in it is an error, and the names without a value
are tolerated. -/
def Checked (doc : Document) (known : Option (List String)) (loose : String → Prop) : Prop :=
  AllAdmitted loose (doc.diagnostics known)

variable {doc : Document} {known : Option (List String)} {loose : String → Prop}

/-- Without errors, the report is clean if the names it reports are tolerated. -/
theorem checked_of_not_hasErrors (h : hasErrors (doc.diagnostics known) = false)
    (hnames : ∀ d ∈ doc.diagnostics known, ∀ name, d.finding = .notAParameter name → loose name) :
    doc.Checked known loose := by
  intro d hd
  have herror := List.any_eq_false.mp h d hd
  refine ⟨?_, hnames d hd⟩
  unfold Diagnostic.isError at herror
  cases hs : d.finding.severity with
  | warning => rfl
  | error => exact absurd (by rw [hs]; rfl) herror

/-- The report in its parts. -/
theorem Checked.parts (h : doc.Checked known loose) :
    AllAdmitted loose doc.headDiagnostics ∧ AllAdmitted loose (doc.bodyDiagnostics known) ∧
      AllAdmitted loose (doc.componentDiagnostics known) ∧
      AllAdmitted loose doc.scriptDiagnostics ∧ AllAdmitted loose doc.styleDiagnostics := by
  unfold Checked diagnostics at h
  simp only [allAdmitted_append] at h
  obtain ⟨⟨⟨⟨⟨-, hhead⟩, hbody⟩, hcomponents⟩, hscript⟩, hstyle⟩ := h
  exact ⟨hhead, hbody, hcomponents, hscript, hstyle⟩

/-- The head of a checked document holds titles and icons only. -/
theorem Checked.head (h : doc.Checked known loose) {e : Element} (he : e ∈ doc.head) :
    ∃ x : Expression, (e = .title x ∨ e = .icon x) ∧ x.Checked [] loose := by
  obtain ⟨i, hi⟩ := allAdmitted_zipIdx h.parts.1 he
  have hfindings := allAdmitted_found.mp hi
  cases e with
  | title x => exact ⟨x, .inl rfl, hfindings⟩
  | icon x => exact ⟨x, .inr rfl, hfindings⟩
  | _ => exact nomatch (hfindings _ (List.mem_singleton.mpr rfl)).1

/-- Every element of the body of a checked document is checked, outside all parameters. -/
theorem Checked.body (h : doc.Checked known loose) {e : Element}
    (he : e ∈ Element.subelementsOf doc.body) : e.Checked doc [] loose := by
  obtain ⟨path, hpath⟩ := Element.exists_mem_locatedFrom doc.body [] .body 0 he
  obtain ⟨names, hnames⟩ := Scope.exists_diagnostics_of_inOrder h.parts.2.1 hpath
  exact Element.checked_of_diagnostics hnames

/-- Every element of a component of a checked document is checked, with the component's
parameters. -/
theorem Checked.component (h : doc.Checked known loose) {c : Component} (hc : c ∈ doc.components)
    {e : Element} (he : e ∈ Element.subelementsOf c.body) : e.Checked doc c.params loose := by
  obtain ⟨i, hi⟩ := allAdmitted_zipIdx h.parts.2.2.1 hc
  obtain ⟨path, hpath⟩ := Element.exists_mem_locatedFrom c.body [.component i] .body 0 he
  exact Element.checked_of_diagnostics (allAdmitted_flatMap.mp hi _ hpath)

/-- The component found for a name is one of the document. -/
theorem mem_components_of_component? {name : String} {c : Component}
    (h : doc.component? name = some c) : c ∈ doc.components :=
  List.mem_of_find?_eq_some h

/-- Every style property of a rule of a checked document is checked, outside all parameters. -/
theorem Checked.styles (h : doc.Checked known loose) {rule : StyleRule} (hrule : rule ∈ doc.styles)
    {d : Declaration} (hd : d ∈ rule.properties) : d.value.Checked [] loose := by
  obtain ⟨i, hi⟩ := allAdmitted_zipIdx h.parts.2.2.2.2 hrule
  exact checked_of_declarations (allAdmitted_append.mp hi).2 hd

/-- The titles that a topbar lists are those of sections of the body. -/
theorem mem_contents_of_landmark {l : Landmark} (hl : l ∈ doc.landmarks) {x : Expression}
    (hx : x ∈ l.title) : ∃ e ∈ Element.subelementsOf doc.body, x ∈ e.contents := by
  obtain ⟨e, he, hle⟩ := List.mem_filterMap.mp hl
  refine ⟨e, he, ?_⟩
  cases e with
  | sectionBlock attrs caption content =>
    obtain ⟨name, -, rfl⟩ := Option.map_eq_some_iff.mp hle
    exact Option.mem_toList.mpr hx
  | _ => cases hle

end Document

end Pagewright
