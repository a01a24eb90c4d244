import Pagewright.Proofs.Validation

/-!
# Where the findings of a report come from

A report is one list, but every diagnostic in it bears the path of the node it is about, and the
first step of the path names the part of the document that the node stands in. So a report can be
read backwards: what it says under `body` comes from the check of the body and from no other check
(`Document.mem_diagnosticsOf`).

From there the way leads back to single elements. An error about an expression or about the use of
a component was found in an expression of an element, or in the component it uses
(`Element.Incurs`), and the element stands somewhere in the tree of the part.
-/

namespace Pagewright

/-! ## Trees of elements -/

namespace Element

mutual

/-- The elements located from a path are the subelements, each at the path or below it. -/
theorem mem_of_mem_located {e : Element} {path : Path} {p : Path × Element}
    (hp : p ∈ e.located path) : path <+: p.1 ∧ p.2 ∈ e.subelements := by
  match e with
  | .div attrs content =>
    rw [located] at hp
    rw [subelements]
    rcases List.mem_cons.mp hp with rfl | hp
    · exact ⟨List.prefix_rfl, List.mem_cons_self⟩
    · obtain ⟨⟨j, hbelow⟩, hmem⟩ := mem_of_mem_locatedFrom hp
      exact ⟨(List.prefix_append path _).trans hbelow, List.mem_cons_of_mem _ hmem⟩
  | .sectionBlock attrs caption content =>
    rw [located] at hp
    rw [subelements]
    rcases List.mem_cons.mp hp with rfl | hp
    · exact ⟨List.prefix_rfl, List.mem_cons_self⟩
    · obtain ⟨⟨j, hbelow⟩, hmem⟩ := mem_of_mem_locatedFrom hp
      exact ⟨(List.prefix_append path _).trans hbelow, List.mem_cons_of_mem _ hmem⟩
  | .title _ | .icon _ | .paragraph _ _ | .heading _ _ _ | .link _ _ _ | .image _ _ _
  | .button _ _ _ | .textbox _ _ _ _ | .linebreak | .topbar _ _ _ _ _ | .footer _ _
  | .useComponent _ _ =>
    cases List.mem_singleton.mp hp
    exact ⟨List.prefix_rfl, List.mem_singleton.mpr rfl⟩

/-- **The elements located below a path are the elements of the tree.** -/
theorem mem_of_mem_locatedFrom {es : List Element} {path : Path} {step : Nat → Step} {i : Nat}
    {p : Path × Element} (hp : p ∈ locatedFrom path step i es) :
    (∃ j, path ++ [step j] <+: p.1) ∧ p.2 ∈ subelementsOf es := by
  match es with
  | [] => cases hp
  | e :: rest =>
    rw [locatedFrom] at hp
    rcases List.mem_append.mp hp with hp | hp
    · obtain ⟨hbelow, hmem⟩ := mem_of_mem_located hp
      exact ⟨⟨i, hbelow⟩, mem_subelementsOf_cons.mpr (.inl hmem)⟩
    · obtain ⟨hbelow, hmem⟩ := mem_of_mem_locatedFrom hp
      exact ⟨hbelow, mem_subelementsOf_cons.mpr (.inr hmem)⟩

end

end Element

/-! ## Parts of a document -/

/-- The parts of a document in which there are nodes. -/
inductive Part where
  | head
  | body
  | components
  | functions
  | statements
  | styles
  deriving DecidableEq, Repr

/-- The part that a step from a document leads into. Steps that start further inside have none. -/
def Step.part? : Step → Option Part
  | head _ => some .head
  | body _ => some .body
  | component _ => some .components
  | function _ => some .functions
  | statement _ => some .statements
  | style _ => some .styles
  | content _ | title | css _ | property _ => none

/-- The part of a document that a path leads into. -/
def Path.part? (path : Path) : Option Part :=
  path.head?.bind Step.part?

/-- A path that goes on stays in its part. -/
theorem Path.part?_of_below {path path' : Path} {part : Part} (h : path.part? = some part)
    (hbelow : path <+: path') : path'.part? = some part := by
  obtain ⟨rest, rfl⟩ := hbelow
  cases path with
  | nil => cases h
  | cons step path => exact h

/-- Elements located from a step into a part stand in that part. -/
theorem Path.part?_of_mem_locatedFrom {path : Path} {step : Nat → Step} {part : Part}
    (h : ∀ i, Path.part? (path ++ [step i]) = some part) {i : Nat} {es : List Element}
    {p : Path × Element} (hp : p ∈ Element.locatedFrom path step i es) :
    p.1.part? = some part := by
  obtain ⟨⟨j, hbelow⟩, -⟩ := Element.mem_of_mem_locatedFrom hp
  exact part?_of_below (h j) hbelow

/-- All diagnostics are about nodes in this part of the document. -/
def AllWithin (part : Part) (ds : List Diagnostic) : Prop :=
  ∀ d ∈ ds, d.path.part? = some part

section Within

variable {part : Part}

theorem allWithin_append {ds ds' : List Diagnostic} (h : AllWithin part ds)
    (h' : AllWithin part ds') : AllWithin part (ds ++ ds') :=
  List.forall_mem_append.mpr ⟨h, h'⟩

theorem allWithin_flatMap {α : Type} {xs : List α} {f : α → List Diagnostic}
    (h : ∀ x ∈ xs, AllWithin part (f x)) : AllWithin part (xs.flatMap f) := by
  intro d hd
  obtain ⟨x, hx, hd⟩ := List.mem_flatMap.mp hd
  exact h x hx d hd

theorem allWithin_found {path : Path} (h : path.part? = some part) (fs : List Finding) :
    AllWithin part (Path.found path fs) :=
  List.forall_mem_map.mpr (fun _ _ => h)

theorem allWithin_declarations {path : Path} (h : path.part? = some part) (step : Nat → Step)
    (params : List Parameter) (ds : List Declaration) :
    AllWithin part (Declaration.diagnostics path step params ds) :=
  allWithin_flatMap (fun _ _ => allWithin_found (Path.part?_of_below h (List.prefix_append _ _)) _)

/-- What is found of an element stands at its path or below it. -/
theorem allWithin_scope {scope : Scope} {names : NameTable} {path : Path}
    (h : path.part? = some part) (e : Element) :
    AllWithin part (scope.diagnostics names path e) := by
  unfold Scope.diagnostics
  split
  · exact List.forall_mem_singleton.mpr h
  · refine allWithin_append (allWithin_append ?_ ?_) (allWithin_found h _)
    · split
      · exact allWithin_append (allWithin_found h _) (allWithin_declarations h _ _ _)
      · exact List.forall_mem_nil _
    · exact allWithin_found (Path.part?_of_below h (List.prefix_append _ _)) _

theorem allWithin_inOrder {scope : Scope} {names : NameTable} {located : List (Path × Element)}
    (h : ∀ p ∈ located, p.1.part? = some part) : AllWithin part (scope.inOrder names located) := by
  induction located generalizing names with
  | nil => exact List.forall_mem_nil _
  | cons first rest ih =>
    exact allWithin_append (allWithin_scope (h first List.mem_cons_self) _)
      (ih (fun p hp => h p (List.mem_cons_of_mem _ hp)))

theorem allWithin_statements {textboxes known : List String} {path : Nat → Path} {i : Nat}
    (h : ∀ j, (path j).part? = some part) (body : List Statement) :
    AllWithin part (Statement.inOrder textboxes path i known body) := by
  induction body generalizing i known with
  | nil => exact List.forall_mem_nil _
  | cons s rest ih => exact allWithin_append (allWithin_found (h i) _) ih

end Within

/-! ## The report, part by part -/

namespace Document

variable {doc : Document} {known : Option (List String)}

/-- What is reported of the statements outside functions. -/
def statementDiagnostics (doc : Document) : List Diagnostic :=
  Statement.inOrder doc.textboxes (fun j => [.statement j]) 0 [] doc.statements

/-- What is reported of the statements of functions. -/
def functionDiagnostics (doc : Document) : List Diagnostic :=
  let globals := doc.statements.filterMap Statement.defined?
  doc.functions.zipIdx.flatMap fun (f, i) =>
    Statement.inOrder doc.textboxes (fun j => [.function i, .body j]) 0 (globals ++ f.params)
      f.body

theorem scriptDiagnostics_eq (doc : Document) :
    doc.scriptDiagnostics = doc.statementDiagnostics ++ doc.functionDiagnostics := rfl

/-- What is reported of one part of a document. -/
def diagnosticsOf (doc : Document) (known : Option (List String)) : Part → List Diagnostic
  | .head => doc.headDiagnostics
  | .body => doc.bodyDiagnostics known
  | .components => doc.duplicateComponents ++ doc.selfUses ++ doc.componentDiagnostics known
  | .functions => doc.duplicateFunctions ++ doc.functionDiagnostics
  | .statements => doc.statementDiagnostics
  | .styles => doc.styleDiagnostics

/-- What is reported of a part stands in that part. -/
theorem allWithin_diagnosticsOf (doc : Document) (known : Option (List String)) (part : Part) :
    AllWithin part (doc.diagnosticsOf known part) := by
  cases part with
  | head => exact allWithin_flatMap (fun _ _ => allWithin_found rfl _)
  | body => exact allWithin_inOrder (fun _ hp => Path.part?_of_mem_locatedFrom (fun _ => rfl) hp)
  | components =>
    refine allWithin_append (allWithin_append ?_ ?_) ?_
    · exact allWithin_flatMap (fun _ _ => List.forall_mem_map.mpr (fun _ _ => rfl))
    · refine allWithin_flatMap (fun c _ => ?_)
      dsimp only
      split
      · exact List.forall_mem_singleton.mpr rfl
      · exact List.forall_mem_nil _
    · refine allWithin_flatMap (fun c _ => allWithin_flatMap (fun p hp => ?_))
      exact allWithin_scope (Path.part?_of_mem_locatedFrom (fun _ => rfl) hp) _
  | functions =>
    refine allWithin_append (allWithin_flatMap (fun f _ => ?_)) ?_
    · dsimp only
      split
      · exact List.forall_mem_singleton.mpr rfl
      · exact List.forall_mem_nil _
    · exact allWithin_flatMap (fun _ _ => allWithin_statements (fun _ => rfl) _)
  | statements => exact allWithin_statements (fun _ => rfl) _
  | styles =>
    exact allWithin_flatMap (fun _ _ => allWithin_append (allWithin_found rfl _)
      (allWithin_declarations rfl _ _ _))

/-- The report consists of what is reported of the parts. -/
theorem mem_diagnostics_iff {d : Diagnostic} :
    d ∈ doc.diagnostics known ↔ ∃ part, d ∈ doc.diagnosticsOf known part := by
  unfold diagnostics
  rw [scriptDiagnostics_eq]
  simp only [List.mem_append]
  constructor
  · rintro (((((((h | h) | h) | h) | h) | h) | h | h) | h)
    · exact ⟨.components, List.mem_append_left _ (List.mem_append_left _ h)⟩
    · exact ⟨.functions, List.mem_append_left _ h⟩
    · exact ⟨.components, List.mem_append_left _ (List.mem_append_right _ h)⟩
    · exact ⟨.head, h⟩
    · exact ⟨.body, h⟩
    · exact ⟨.components, List.mem_append_right _ h⟩
    · exact ⟨.statements, h⟩
    · exact ⟨.functions, List.mem_append_right _ h⟩
    · exact ⟨.styles, h⟩
  · rintro ⟨part, h⟩
    cases part <;> simp only [diagnosticsOf, List.mem_append] at h <;> grind

/-- **A diagnostic comes from the check of the part it stands in.** -/
theorem mem_diagnosticsOf {d : Diagnostic} (hd : d ∈ doc.diagnostics known) {part : Part}
    (hpart : d.path.part? = some part) : d ∈ doc.diagnosticsOf known part := by
  obtain ⟨part', hd'⟩ := mem_diagnostics_iff.mp hd
  have hpart' := allWithin_diagnosticsOf doc known part' d hd'
  cases hpart.symm.trans hpart'
  exact hd'

end Document

/-! ## Back to the elements -/

/-- The finding says that an expression of the markup can have no value. -/
def Finding.aboutExpression : Finding → Bool
  | textboxInMarkup _ | operatorOnString _ => true
  | _ => false

/-- The finding says that a component cannot be used in this way. -/
def Finding.aboutUse : Finding → Bool
  | unknownComponent _ | argumentCount _ _ _ | argumentType _ _ _ _ => true
  | _ => false

/-- Findings of these two kinds are errors. -/
theorem Finding.severity_of_about {f : Finding}
    (h : f.aboutExpression = true ∨ f.aboutUse = true) : f.severity = .error := by
  cases f with
  | textboxInMarkup name => rfl
  | operatorOnString op => rfl
  | unknownComponent name => rfl
  | argumentCount component expected got => rfl
  | argumentType parameter component expected got => rfl
  | _ => exact h.elim nofun nofun

namespace Element

/-- **The element incurs the finding** by one of its expressions or by the component it uses. -/
def Incurs (doc : Document) (params : List Parameter) (e : Element) (f : Finding) : Prop :=
  (∃ x ∈ e.expressions, f ∈ x.markupFindings params) ∨
    ∃ name args, e = .useComponent name args ∧ f ∈ doc.useFindings params name args

variable {doc : Document} {params : List Parameter} {e : Element} {f : Finding}

theorem Incurs.of_contents {x : Expression} (hx : x ∈ e.contents)
    (hf : f ∈ x.markupFindings params) : e.Incurs doc params f :=
  .inl ⟨x, mem_expressions_of_contents hx, hf⟩

/-- Findings about names and classes are not about an expression. -/
theorem not_about_of_mem_attributes {names : NameTable} {known : Option (List String)}
    {attrs : Attributes} (h : f ∈ (names.finding? e).toList ++ attrs.classFindings known) :
    ¬ (f.aboutExpression = true ∨ f.aboutUse = true) := by
  rcases List.mem_append.mp h with h | h
  · obtain ⟨name, -, h⟩ := Option.bind_eq_some_iff.mp (Option.mem_toList.mp h)
    obtain ⟨path, -, rfl⟩ := Option.map_eq_some_iff.mp h
    exact fun hkind => hkind.elim nofun nofun
  · cases known with
    | none => cases h
    | some known =>
      obtain ⟨name, -, rfl⟩ := List.mem_map.mp h
      exact fun hkind => hkind.elim nofun nofun

/-- Findings about a click that are not about its arguments are not about an expression either. -/
theorem not_about_of_mem_clickFindings {click : Click} (h : f ∈ doc.clickFindings click) :
    ¬ (f.aboutExpression = true ∨ f.aboutUse = true) := by
  unfold Document.clickFindings at h
  split at h
  · cases List.mem_singleton.mp h
    exact fun hkind => hkind.elim nofun nofun
  · split at h
    · cases h
    · cases List.mem_singleton.mp h
      exact fun hkind => hkind.elim nofun nofun

/-- What is found in an element itself, if it is about an expression or a use, is incurred by the
element. The cases are those of the check, and in each of them the rest of what it finds is of
another kind. -/
theorem incurs_of_mem_findings (hf : f ∈ e.findings doc params)
    (hkind : f.aboutExpression = true ∨ f.aboutUse = true) : e.Incurs doc params f := by
  cases e with
  | paragraph attrs text => exact .of_contents (List.mem_singleton.mpr rfl) hf
  | footer attrs text => exact .of_contents (List.mem_singleton.mpr rfl) hf
  | heading attrs level text =>
    rcases List.mem_append.mp hf with hf | hf
    · split at hf
      · cases hf
      · cases List.mem_singleton.mp hf
        exact hkind.elim nofun nofun
    · exact .of_contents (List.mem_singleton.mpr rfl) hf
  | link attrs url text =>
    obtain ⟨x, hx, hf⟩ := List.mem_flatMap.mp hf
    exact .of_contents hx hf
  | image attrs path alt =>
    obtain ⟨x, hx, hf⟩ := List.mem_flatMap.mp hf
    exact .of_contents hx hf
  | button attrs text onclick =>
    rcases List.mem_append.mp hf with hf | hf
    · exact .of_contents List.mem_cons_self hf
    · obtain ⟨click, hclick, hf⟩ := List.mem_flatMap.mp hf
      rcases List.mem_append.mp hf with hf | hf
      · exact absurd hkind (not_about_of_mem_clickFindings hf)
      · obtain ⟨x, hx, hf⟩ := List.mem_flatMap.mp hf
        exact .of_contents (List.mem_cons_of_mem _ (List.mem_flatMap.mpr ⟨click, hclick, hx⟩)) hf
  | textbox attrs label placeholder labelAfter =>
    rcases List.mem_append.mp hf with hf | hf
    · split at hf
      · cases List.mem_singleton.mp hf
        exact hkind.elim nofun nofun
      · cases hf
    · obtain ⟨x, hx, hf⟩ := List.mem_flatMap.mp hf
      exact .of_contents hx hf
  | topbar attrs caption home links autoNavLinks =>
    rcases List.mem_append.mp hf with hf | hf
    · rcases List.mem_append.mp hf with hf | hf
      · obtain ⟨x, hx, hf⟩ := List.mem_flatMap.mp hf
        exact .of_contents (List.mem_append_left (links.filterMap (·.text)) hx) hf
      · split at hf
        · cases List.mem_singleton.mp hf
          exact hkind.elim nofun nofun
        · cases hf
    · obtain ⟨x, hx, hf⟩ := List.mem_flatMap.mp hf
      exact .of_contents (List.mem_append_right (caption :: home.toList) hx) hf
  | useComponent component args =>
    rcases List.mem_append.mp hf with hf | hf
    · obtain ⟨x, hx, hf⟩ := List.mem_flatMap.mp hf
      exact .of_contents hx hf
    · exact .inr ⟨component, args, rfl, hf⟩
  | div attrs content => cases hf
  | sectionBlock attrs caption content => cases hf
  | linebreak => cases hf
  | title text => cases hf
  | icon path => cases hf

/-- The finding about a declaration is one about its expression. -/
theorem exists_of_mem_declarations {path : Path} {step : Nat → Step} {ds : List Declaration}
    {d : Diagnostic} (h : d ∈ Declaration.diagnostics path step params ds) :
    ∃ declaration ∈ ds, d.finding ∈ declaration.value.markupFindings params := by
  obtain ⟨⟨declaration, i⟩, hi, hd⟩ := List.mem_flatMap.mp h
  obtain ⟨f, hf, rfl⟩ := List.mem_map.mp hd
  exact ⟨declaration, List.fst_mem_of_mem_zipIdx hi, hf⟩

/-- **What is reported of an element, if it is about an expression or a use, is incurred by the
element.** -/
theorem incurs_of_mem_diagnostics {scope : Scope} {names : NameTable} {path : Path}
    {d : Diagnostic} (hd : d ∈ scope.diagnostics names path e)
    (hkind : d.finding.aboutExpression = true ∨ d.finding.aboutUse = true) :
    e.Incurs scope.doc scope.params d.finding := by
  unfold Scope.diagnostics at hd
  split at hd
  · cases List.mem_singleton.mp hd
    exact hkind.elim nofun nofun
  · rcases List.mem_append.mp hd with hd | hd
    · rcases List.mem_append.mp hd with hd | hd
      · cases hattrs : e.attributes? with
        | none =>
          rw [hattrs] at hd
          cases hd
        | some attrs =>
          rw [hattrs] at hd
          rcases List.mem_append.mp hd with hd | hd
          · obtain ⟨f, hf, rfl⟩ := List.mem_map.mp hd
            exact absurd hkind (not_about_of_mem_attributes hf)
          · obtain ⟨declaration, hdeclaration, hf⟩ := exists_of_mem_declarations hd
            refine .inl ⟨declaration.value, mem_expressions_of_declaration ?_, hf⟩
            rw [declarations, hattrs]
            exact hdeclaration
      · obtain ⟨f, hf, rfl⟩ := List.mem_map.mp hd
        cases e with
        | sectionBlock attrs caption content =>
          cases caption with
          | none => cases hf
          | some caption => exact .of_contents (List.mem_singleton.mpr rfl) hf
        | _ => cases hf
    · obtain ⟨f, hf, rfl⟩ := List.mem_map.mp hd
      exact incurs_of_mem_findings hf hkind

end Element

/-- What is reported of a list of elements is reported of one of them. -/
theorem Scope.exists_of_mem_inOrder {scope : Scope} {located : List (Path × Element)}
    {names : NameTable} {d : Diagnostic} (h : d ∈ scope.inOrder names located) :
    ∃ p ∈ located, ∃ names', d ∈ scope.diagnostics names' p.1 p.2 := by
  induction located generalizing names with
  | nil => cases h
  | cons first rest ih =>
    rcases List.mem_append.mp h with h | h
    · exact ⟨first, List.mem_cons_self, names, h⟩
    · obtain ⟨p, hp, names', hd⟩ := ih h
      exact ⟨p, List.mem_cons_of_mem _ hp, names', hd⟩

namespace Document

variable {doc : Document} {known : Option (List String)} {d : Diagnostic}

/-- An error about an expression or a use in the body is incurred by an element of the body,
outside all parameters. -/
theorem exists_of_mem_bodyDiagnostics (hd : d ∈ doc.bodyDiagnostics known)
    (hkind : d.finding.aboutExpression = true ∨ d.finding.aboutUse = true) :
    ∃ e ∈ Element.subelementsOf doc.body, e.Incurs doc [] d.finding := by
  obtain ⟨p, hp, names, hd⟩ := Scope.exists_of_mem_inOrder hd
  exact ⟨p.2, (Element.mem_of_mem_locatedFrom hp).2, Element.incurs_of_mem_diagnostics hd hkind⟩

/-- An error about an expression in the head is incurred by a title or an icon. -/
theorem exists_of_mem_headDiagnostics (hd : d ∈ doc.headDiagnostics)
    (hkind : d.finding.aboutExpression = true ∨ d.finding.aboutUse = true) :
    ∃ e ∈ doc.head, e.inHead = true ∧ e.Incurs doc [] d.finding := by
  obtain ⟨⟨e, i⟩, hi, hd⟩ := List.mem_flatMap.mp hd
  obtain ⟨f, hf, rfl⟩ := List.mem_map.mp hd
  refine ⟨e, List.fst_mem_of_mem_zipIdx hi, ?_⟩
  cases e with
  | title text => exact ⟨rfl, .of_contents (List.mem_singleton.mpr rfl) hf⟩
  | icon path => exact ⟨rfl, .of_contents (List.mem_singleton.mpr rfl) hf⟩
  | _ =>
    cases List.mem_singleton.mp hf
    exact hkind.elim nofun nofun

/-- An error about an expression in the styles is one about a property of a rule. -/
theorem exists_of_mem_styleDiagnostics (hd : d ∈ doc.styleDiagnostics)
    (hkind : d.finding.aboutExpression = true ∨ d.finding.aboutUse = true) :
    ∃ rule ∈ doc.styles, ∃ declaration ∈ rule.properties,
      d.finding ∈ declaration.value.markupFindings [] := by
  obtain ⟨⟨rule, i⟩, hi, hd⟩ := List.mem_flatMap.mp hd
  refine ⟨rule, List.fst_mem_of_mem_zipIdx hi, ?_⟩
  rcases List.mem_append.mp hd with hd | hd
  · obtain ⟨f, hf, rfl⟩ := List.mem_map.mp hd
    split at hf
    · cases List.mem_singleton.mp hf
      exact hkind.elim nofun nofun
    · cases hf
  · exact Element.exists_of_mem_declarations hd

end Document

end Pagewright
