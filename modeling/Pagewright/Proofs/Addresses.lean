import Pagewright.Proofs.Names
import Pagewright.Proofs.Nodes
import Pagewright.Proofs.SelfUses

/-!
# Diagnostics address what they are about

Each check puts together the paths of what it reports, from the indices of the lists it goes
through. Here the paths are followed from the other end. Every path in a report leads to a node of
the document, and what is reported is true of that node (`Applies`): the class that is not known is
one of its own, the symbol without a value is in one of its own expressions, and so on, where
parameters are those of the component that the path leads into.
-/

namespace Pagewright

/-! ## What a node may refer to -/

/-- The expressions of the markup in a node itself. The title and the style properties of an element
are nodes of their own. -/
def Node.markup : Node → List Expression
  | element (.sectionBlock _ _ _) => []
  | element e => e.contents
  | caption text => [text]
  | declaration d => [d.value]
  | component _ | function _ | statement _ | style _ => []

namespace Document

/-- The parameters that expressions of the markup may refer to at the end of a path: those of the
component that it leads into. -/
def paramsAt (doc : Document) : Path → List Parameter
  | .component i :: _ => (doc.components[i]?).elim [] (·.params)
  | _ => []

/-- The names that a statement at the end of a path may refer to: constants defined before it, and
inside a function also the parameters and all constants outside functions. -/
def namesAt (doc : Document) : Path → List String
  | [.statement j] => (doc.statements.take j).filterMap Statement.defined?
  | [.function i, .body j] =>
    doc.statements.filterMap Statement.defined? ++
      (doc.functions[i]?).elim [] fun f =>
        f.params ++ (f.body.take j).filterMap Statement.defined?
  | _ => []

end Document

/-! ## What a finding says of a node -/

/-- **What is found is true of the node** at the end of the path. -/
inductive Applies (doc : Document) (known : Option (List String)) (path : Path) :
    Finding → Node → Prop where
  | duplicateComponent {i : Nat} {c : Component} (hpath : path = [.component i])
      (h : c.name ∈ (doc.components.take i).map (·.name)) :
      Applies doc known path (.duplicateComponent c.name) (.component c)
  | duplicateParameter {c : Component} {parameter : String}
      (h : 1 < (c.params.map (·.name)).count parameter) :
      Applies doc known path (.duplicateParameter parameter c.name) (.component c)
  | duplicateFunction {i : Nat} {f : Function} (hpath : path = [.function i])
      (h : f.name ∈ (doc.functions.take i).map (·.name)) :
      Applies doc known path (.duplicateFunction f.name) (.function f)
  | selfInstantiation {c : Component} {between : List String}
      (h : doc.Chain c.body (between ++ [c.name])) :
      Applies doc known path (.selfInstantiation c.name (c.name :: between ++ [c.name]))
        (.component c)
  | notForHead {e : Element} (hpath : path.part? = some .head) (h : e.inHead = false) :
      Applies doc known path (.notForHead e.kind) (.element e)
  | onlyForHead {e : Element} (hpath : path.part? ≠ some .head) (h : e.inHead = true) :
      Applies doc known path (.onlyForHead e.kind) (.element e)
  | unknownClass {e : Element} {attrs : Attributes} {classes : List String} {name : String}
      (hattrs : e.attributes? = some attrs) (hname : name ∈ attrs.classes)
      (hknown : known = some classes) (h : name ∉ classes) :
      Applies doc known path (.unknownClass name) (.element e)
  | nameTaken {e e' : Element} {name : String} {first : Path} (hname : e.name? = some name)
      (hfirst : doc.element? first = some e') (hname' : e'.name? = some name)
      (h : first.Before path) :
      Applies doc known path (.nameTaken name first) (.element e)
  | headingLevel {attrs : Attributes} {level : UInt8} {text : Expression}
      (h : ¬ (lowestHeading ≤ level.toNat ∧ level.toNat ≤ highestHeading)) :
      Applies doc known path (.headingLevel level.toNat) (.element (.heading attrs level text))
  | unknownFunction {attrs : Attributes} {text : Expression} {click : Click}
      (h : doc.function? click.function = none) :
      Applies doc known path (.unknownFunction click.function)
        (.element (.button attrs text (some click)))
  | clickArguments {attrs : Attributes} {text : Expression} {click : Click} {f : Function}
      (hf : doc.function? click.function = some f)
      (h : f.params.length ≠ click.arguments.length) :
      Applies doc known path
        (.clickArguments click.function f.params.length click.arguments.length)
        (.element (.button attrs text (some click)))
  | unknownComponent {name : String} {args : List Expression} (h : doc.component? name = none) :
      Applies doc known path (.unknownComponent name) (.element (.useComponent name args))
  | argumentCount {name : String} {args : List Expression} {c : Component}
      (hc : doc.component? name = some c) (h : c.params.length ≠ args.length) :
      Applies doc known path (.argumentCount name c.params.length args.length)
        (.element (.useComponent name args))
  | argumentType {name : String} {args : List Expression} {c : Component} {i : Nat}
      {param : Parameter} {arg : Expression} {type : ValueType}
      (hc : doc.component? name = some c) (hparam : c.params[i]? = some param)
      (harg : args[i]? = some arg) (htype : arg.staticType (doc.paramsAt path) = some type)
      (h : type ≠ param.type) :
      Applies doc known path (.argumentType param.name name param.type type)
        (.element (.useComponent name args))
  | labelWithoutName {attrs : Attributes} {label : Expression} {placeholder : Option Expression}
      {labelAfter : Bool} (h : attrs.name = none) :
      Applies doc known path .labelWithoutName
        (.element (.textbox attrs (some label) placeholder labelAfter))
  | linksIgnored {attrs : Attributes} {caption : Expression} {home : Option Expression}
      {links : List NavLink} (h : links ≠ []) :
      Applies doc known path .linksIgnored (.element (.topbar attrs caption home links true))
  | notAParameter {node : Node} {x : Expression} {symbol : String} (hx : x ∈ node.markup)
      (hsymbol : .symbol symbol ∈ x.parts) (h : symbol ∉ (doc.paramsAt path).map (·.name)) :
      Applies doc known path (.notAParameter symbol) node
  | textboxInMarkup {node : Node} {x : Expression} {textbox : String} (hx : x ∈ node.markup)
      (h : .textbox textbox ∈ x.parts) :
      Applies doc known path (.textboxInMarkup textbox) node
  | operatorInMarkup {node : Node} {x left right : Expression} {op : Operator}
      (hx : x ∈ node.markup) (hpart : .operation left op right ∈ x.parts) (hop : op ≠ .add)
      (h : left.staticType (doc.paramsAt path) = some .string ∨
        right.staticType (doc.paramsAt path) = some .string) :
      Applies doc known path (.operatorOnString op) node
  | operatorInScript {s : Statement} {left right : Expression} {op : Operator}
      (hpart : .operation left op right ∈ s.value.parts) (hop : op ≠ .add)
      (h : left.staticType [] = some .string ∨ right.staticType [] = some .string) :
      Applies doc known path (.operatorOnString op) (.statement s)
  | undefinedSymbol {s : Statement} {symbol : String} (hsymbol : .symbol symbol ∈ s.value.parts)
      (h : symbol ∉ doc.namesAt path) :
      Applies doc known path (.undefinedSymbol symbol) (.statement s)
  | unknownTextbox {s : Statement} {textbox : String}
      (htextbox : .textbox textbox ∈ s.value.parts) (h : textbox ∉ doc.textboxes) :
      Applies doc known path (.unknownTextbox textbox) (.statement s)
  | emptyStyle {rule : StyleRule} (h : rule.properties = []) :
      Applies doc known path .emptyStyle (.style rule)

/-! ## Expressions -/

section Applies

variable {doc : Document} {known : Option (List String)} {path : Path} {f : Finding}

/-- An operator that is found is applied to a text. -/
theorem Expression.exists_of_mem_operators {params : List Parameter} {x : Expression}
    (h : f ∈ x.operatorFindings params) :
    ∃ left op right, .operation left op right ∈ x.parts ∧ f = .operatorOnString op ∧ op ≠ .add ∧
      (left.staticType params = some .string ∨ right.staticType params = some .string) := by
  obtain ⟨part, hpart, hf⟩ := List.mem_filterMap.mp h
  unfold operatorFinding? at hf
  split at hf
  · cases hf
  · next left op right hop =>
    obtain ⟨hstring, hf⟩ := Option.ite_none_right_eq_some.mp hf
    cases hf
    exact ⟨left, op, right, hpart, rfl, hop, hstring⟩
  · cases hf

/-- **What is found in an expression of the markup is true of the node it stands in.** -/
theorem Expression.applies_of_mem {node : Node} {x : Expression} (hx : x ∈ node.markup)
    (h : f ∈ x.markupFindings (doc.paramsAt path)) : Applies doc known path f node := by
  rcases List.mem_append.mp h with h | h
  · obtain ⟨part, hpart, hf⟩ := List.mem_filterMap.mp h
    cases part with
    | symbol name =>
      obtain ⟨hnone, hf⟩ := Option.ite_none_left_eq_some.mp hf
      cases hf
      refine .notAParameter hx hpart fun hmem => hnone ?_
      obtain ⟨param, hparam, hname⟩ := List.mem_map.mp hmem
      exact List.any_eq_true.mpr ⟨param, hparam, decide_eq_true hname⟩
    | textbox name =>
      cases hf
      exact .textboxInMarkup hx hpart
    | _ => cases hf
  · obtain ⟨left, op, right, hpart, rfl, hop, hstring⟩ := exists_of_mem_operators h
    exact .operatorInMarkup hx hpart hop hstring

/-! ## Elements -/

/-- What is found of a click is true of the button. -/
theorem Document.applies_of_mem_clickFindings {attrs : Attributes} {text : Expression}
    {click : Click} (h : f ∈ doc.clickFindings click) :
    Applies doc known path f (.element (.button attrs text (some click))) := by
  unfold clickFindings at h
  split at h
  · next hnone =>
    cases List.mem_singleton.mp h
    exact .unknownFunction hnone
  · next g hg =>
    obtain ⟨hlength, h⟩ := List.mem_ite_nil_left.mp h
    have hname : g.name = click.function := by simpa using List.find?_some hg
    cases List.mem_singleton.mp h
    rw [hname]
    exact .clickArguments hg hlength

/-- What is found of the use of a component is true of the element that uses it. -/
theorem Document.applies_of_mem_useFindings {name : String} {args : List Expression}
    (h : f ∈ doc.useFindings (doc.paramsAt path) name args) :
    Applies doc known path f (.element (.useComponent name args)) := by
  unfold useFindings at h
  split at h
  · next hnone =>
    cases List.mem_singleton.mp h
    exact .unknownComponent hnone
  · next c hc =>
    split at h
    · next hlength =>
      cases List.mem_singleton.mp h
      exact .argumentCount hc hlength
    · obtain ⟨⟨param, arg⟩, hpair, h⟩ := List.mem_filterMap.mp h
      obtain ⟨i, hi⟩ := List.mem_iff_getElem?.mp hpair
      obtain ⟨hparam, harg⟩ := List.getElem?_zip_eq_some.mp hi
      dsimp only at h
      split at h
      · next type htype =>
        obtain ⟨hne, h⟩ := Option.ite_none_left_eq_some.mp h
        cases h
        exact .argumentType hc hparam harg htype hne
      · cases h

/-- **What is found of an element itself is true of it.** -/
theorem Element.applies_of_mem_findings {e : Element}
    (h : f ∈ e.findings doc (doc.paramsAt path)) : Applies doc known path f (.element e) := by
  cases e with
  | paragraph attrs text => exact Expression.applies_of_mem (List.mem_singleton.mpr rfl) h
  | footer attrs text => exact Expression.applies_of_mem (List.mem_singleton.mpr rfl) h
  | heading attrs level text =>
    rcases List.mem_append.mp h with h | h
    · obtain ⟨hlevel, h⟩ := List.mem_ite_nil_left.mp h
      cases List.mem_singleton.mp h
      exact .headingLevel hlevel
    · exact Expression.applies_of_mem (List.mem_singleton.mpr rfl) h
  | link attrs url text =>
    obtain ⟨x, hx, h⟩ := List.mem_flatMap.mp h
    exact Expression.applies_of_mem hx h
  | image attrs path alt =>
    obtain ⟨x, hx, h⟩ := List.mem_flatMap.mp h
    exact Expression.applies_of_mem hx h
  | button attrs text onclick =>
    rcases List.mem_append.mp h with h | h
    · exact Expression.applies_of_mem List.mem_cons_self h
    · obtain ⟨click, hclick, hf⟩ := List.mem_flatMap.mp h
      obtain rfl := Option.mem_toList.mp hclick
      rcases List.mem_append.mp hf with hf | hf
      · exact Document.applies_of_mem_clickFindings hf
      · obtain ⟨x, hx, hf⟩ := List.mem_flatMap.mp hf
        refine Expression.applies_of_mem (List.mem_cons_of_mem _ ?_) hf
        exact List.mem_flatMap.mpr ⟨click, hclick, hx⟩
  | textbox attrs label placeholder labelAfter =>
    rcases List.mem_append.mp h with h | h
    · obtain ⟨⟨hlabel, hname⟩, hf⟩ := List.mem_ite_nil_right.mp h
      obtain ⟨label, rfl⟩ := Option.isSome_iff_exists.mp hlabel
      cases List.mem_singleton.mp hf
      exact .labelWithoutName (Option.isNone_iff_eq_none.mp hname)
    · obtain ⟨x, hx, h⟩ := List.mem_flatMap.mp h
      exact Expression.applies_of_mem hx h
  | topbar attrs caption home links autoNavLinks =>
    rcases List.mem_append.mp h with h | h
    · rcases List.mem_append.mp h with h | h
      · obtain ⟨x, hx, h⟩ := List.mem_flatMap.mp h
        exact Expression.applies_of_mem (List.mem_append_left (links.filterMap (·.text)) hx) h
      · obtain ⟨⟨hauto, hlinks⟩, hf⟩ := List.mem_ite_nil_right.mp h
        obtain rfl : autoNavLinks = true := hauto
        cases List.mem_singleton.mp hf
        exact .linksIgnored (by simpa using hlinks)
    · obtain ⟨x, hx, h⟩ := List.mem_flatMap.mp h
      exact Expression.applies_of_mem (List.mem_append_right (caption :: home.toList) hx) h
  | useComponent name args =>
    rcases List.mem_append.mp h with h | h
    · obtain ⟨x, hx, h⟩ := List.mem_flatMap.mp h
      exact Expression.applies_of_mem hx h
    · exact Document.applies_of_mem_useFindings h
  | div attrs content => cases h
  | sectionBlock attrs caption content => cases h
  | linebreak => cases h
  | title text => cases h
  | icon path => cases h

/-- The finding about a class that is not known is true of the element. -/
theorem Element.applies_of_mem_classFindings {e : Element} {attrs : Attributes}
    (hattrs : e.attributes? = some attrs) (h : f ∈ attrs.classFindings known) :
    Applies doc known path f (.element e) := by
  cases known with
  | none => cases h
  | some classes =>
    obtain ⟨name, hname, rfl⟩ := List.mem_map.mp h
    obtain ⟨hmem, hunknown⟩ := List.mem_filter.mp hname
    exact .unknownClass hattrs hmem rfl (of_decide_eq_true hunknown)

end Applies

namespace Document

variable {doc : Document} {path : Path} {e : Element}

/-! ## Addresses -/

variable {known : Option (List String)} {d : Diagnostic}

/-- The parameters at the end of a path to an element are those of all nodes inside. -/
theorem paramsAt_append (h : doc.element? path = some e) (rest : Path) :
    doc.paramsAt (path ++ rest) = doc.paramsAt path := by
  rcases element?_eq_some_iff.mp h with
    ⟨i, steps, rfl, -⟩ | ⟨i, steps, rfl, -⟩ | ⟨i, c, j, steps, -, rfl, -⟩ <;> rfl

/-- **The path of the diagnostic leads to a node of which the finding is true.** -/
def Addressed (doc : Document) (known : Option (List String)) (d : Diagnostic) : Prop :=
  ∃ node, doc.node? d.path = some node ∧ Applies doc known d.path d.finding node

/-- What is found of a node at the end of steps inside an element. -/
theorem addressed_of_found {steps : Path} {fs : List Finding} {node : Node}
    (he : doc.element? path = some e) (hnode : e.node? steps = some node)
    (hfs : ∀ f ∈ fs, Applies doc known (path ++ steps) f node)
    (h : d ∈ Path.found (path ++ steps) fs) : doc.Addressed known d := by
  obtain ⟨f, hf, rfl⟩ := List.mem_map.mp h
  exact ⟨node, (node?_append he steps).trans hnode, hfs f hf⟩

/-- What is found of an element itself. -/
theorem addressed_of_found_element {fs : List Finding} (he : doc.element? path = some e)
    (hfs : ∀ f ∈ fs, Applies doc known path f (.element e)) (h : d ∈ path.found fs) :
    doc.Addressed known d := by
  obtain ⟨f, hf, rfl⟩ := List.mem_map.mp h
  exact ⟨.element e, node?_eq_element_iff.mpr he, hfs f hf⟩

/-- What is reported of style properties is found of one of them. -/
theorem exists_of_mem_properties {params : List Parameter} {step : Nat → Step}
    {ds : List Declaration} (h : d ∈ Declaration.diagnostics path step params ds) :
    ∃ i declaration, ds[i]? = some declaration ∧
      d ∈ Path.found (path ++ [step i]) (declaration.value.markupFindings params) := by
  obtain ⟨⟨declaration, i⟩, hi, hd⟩ := List.mem_flatMap.mp h
  exact ⟨i, declaration, List.mem_zipIdx_iff_getElem?.mp hi, hd⟩

/-- What is reported of the attributes of an element is addressed to it or to one of its style
properties. The report of a taken name depends on the elements in front of it and is left out
here. -/
theorem addressed_of_mem_attributes {names : NameTable} {attrs : Attributes}
    (he : doc.element? path = some e) (hattrs : e.attributes? = some attrs)
    (h : d ∈ path.found ((names.finding? e).toList ++ attrs.classFindings known) ++
      Declaration.diagnostics path .css (doc.paramsAt path) attrs.css)
    (hname : d.finding.isNameTaken = false) : doc.Addressed known d := by
  rcases List.mem_append.mp h with h | h
  · obtain ⟨f, hf, rfl⟩ := List.mem_map.mp h
    refine ⟨.element e, node?_eq_element_iff.mpr he, ?_⟩
    rcases List.mem_append.mp hf with hf | hf
    · obtain ⟨name, first, -, -, rfl⟩ :=
        NameTable.finding?_eq_some_iff.mp (Option.mem_toList.mp hf)
      cases hname
    · exact Element.applies_of_mem_classFindings hattrs hf
  · obtain ⟨i, declaration, hi, hd⟩ := exists_of_mem_properties h
    have hnode : e.node? [.css i] = some (.declaration declaration) := by
      rw [Element.node?, Element.declarations, hattrs]
      exact congrArg (Option.map Node.declaration) hi
    refine addressed_of_found he hnode ?_ hd
    rw [← paramsAt_append he [.css i]]
    exact fun f hf => Expression.applies_of_mem (List.mem_singleton.mpr rfl) hf

/-- What is reported of the title of a section is addressed to the title. -/
theorem addressed_of_mem_caption (he : doc.element? path = some e)
    (h : d ∈ Path.found (path ++ [.title]) (e.captionFindings (doc.paramsAt path))) :
    doc.Addressed known d := by
  cases e with
  | sectionBlock attrs caption content =>
    cases caption with
    | none => cases h
    | some caption =>
      have hnode : (Element.sectionBlock attrs (some caption) content).node? [.title] =
          some (.caption caption) := rfl
      refine addressed_of_found he hnode ?_ h
      rw [← paramsAt_append he [.title]]
      exact fun f hf => Expression.applies_of_mem (List.mem_singleton.mpr rfl) hf
  | _ => cases h

/-- **What is reported of an element outside the head is addressed to it**, to its title or to one
of its style properties. -/
theorem addressed_of_mem_scope {names : NameTable} (he : doc.element? path = some e)
    (hhead : path.part? ≠ some .head)
    (h : d ∈ Scope.diagnostics ⟨doc, known, doc.paramsAt path⟩ names path e)
    (hname : d.finding.isNameTaken = false) : doc.Addressed known d := by
  unfold Scope.diagnostics at h
  split at h
  · next hin =>
    cases List.mem_singleton.mp h
    exact ⟨.element e, node?_eq_element_iff.mpr he, .onlyForHead hhead hin⟩
  · rcases List.mem_append.mp h with h | h
    · rcases List.mem_append.mp h with h | h
      · split at h
        · next attrs hattrs => exact addressed_of_mem_attributes he hattrs h hname
        · cases h
      · exact addressed_of_mem_caption he h
    · exact addressed_of_found_element he (fun f hf => Element.applies_of_mem_findings hf) h

/-- What is reported of the head is addressed to its elements. -/
theorem addressed_of_mem_head (h : d ∈ doc.headDiagnostics) : doc.Addressed known d := by
  obtain ⟨⟨e, i⟩, hi, h⟩ := List.mem_flatMap.mp h
  have he : doc.element? [.head i] = some e := by
    rw [element?, List.mem_zipIdx_iff_getElem?.mp hi]
    rfl
  refine addressed_of_found_element he (fun f hf => ?_) h
  cases e with
  | title text => exact Expression.applies_of_mem (List.mem_singleton.mpr rfl) hf
  | icon path => exact Expression.applies_of_mem (List.mem_singleton.mpr rfl) hf
  | _ =>
    cases List.mem_singleton.mp hf
    exact .notForHead rfl rfl

/-- What is reported of the body is addressed to its elements. -/
theorem addressed_of_mem_body (h : d ∈ doc.bodyDiagnostics known) : doc.Addressed known d := by
  obtain ⟨path, finding⟩ := d
  by_cases hname : finding.isNameTaken = true
  · cases finding with
    | nameTaken name first =>
      have hreported := mem_diagnostics_iff.mpr ⟨.body, h⟩
      obtain ⟨⟨e, he, hname⟩, ⟨⟨e', he', hname'⟩, -⟩, hbefore⟩ := nameTaken_mem_iff.mp hreported
      exact ⟨.element e, node?_eq_element_iff.mpr (element?_of_bodyElement? he),
        .nameTaken hname (element?_of_bodyElement? he') hname' hbefore⟩
    | _ => cases hname
  · obtain ⟨⟨place, e⟩, hp, names, h⟩ := Scope.exists_of_mem_inOrder h
    obtain ⟨i, steps, rfl, -⟩ := Element.mem_locatedFrom_iff.mp hp
    have he := element?_of_bodyElement? (mem_located_body_iff.mp hp)
    exact addressed_of_mem_scope he nofun h (Bool.eq_false_iff.mpr hname)

/-- What is reported of the elements of components is addressed to them. -/
theorem addressed_of_mem_components (h : d ∈ doc.componentDiagnostics known) :
    doc.Addressed known d := by
  have hname : d.finding.isNameTaken = false := by
    have hnone := List.filter_eq_nil_iff.mp (nameReport_componentDiagnostics doc known) d h
    exact Bool.eq_false_iff.mpr hnone
  obtain ⟨⟨c, i⟩, hi, h⟩ := List.mem_flatMap.mp h
  obtain ⟨⟨place, e⟩, hp, h⟩ := List.mem_flatMap.mp h
  obtain ⟨j, steps, rfl, he⟩ := Element.mem_locatedFrom_iff.mp hp
  have hc := List.mem_zipIdx_iff_getElem?.mp hi
  have helement := element?_eq_some_iff.mpr (.inr (.inr ⟨i, c, j, steps, hc, rfl, he⟩))
  have hparams : doc.paramsAt (.component i :: .body j :: steps) = c.params := by
    rw [paramsAt, hc]
    rfl
  rw [Nat.zero_add] at h
  dsimp only at h
  rw [← hparams] at h
  exact addressed_of_mem_scope helement nofun h hname

/-! ## Definitions -/

/-- A name that is repeated stands in the list more than once. -/
theorem one_lt_count_of_mem_repeated {names : List String} {name : String}
    (h : name ∈ repeated names) : 1 < names.count name := by
  obtain ⟨⟨name, i⟩, hmem, rfl⟩ := List.mem_map.mp h
  obtain ⟨hi, hfront⟩ := List.mem_filter.mp hmem
  have hback : name ∈ names.drop i := by
    refine List.mem_of_getElem? (i := 0) ?_
    rw [List.getElem?_drop, Nat.add_zero]
    exact List.mem_zipIdx_iff_getElem?.mp hi
  have hcount : names.count name = (names.take i).count name + (names.drop i).count name := by
    rw [← List.count_append, List.take_append_drop]
  have hfirst := List.count_pos_iff.mpr (of_decide_eq_true hfront)
  have hsecond := List.count_pos_iff.mpr hback
  dsimp only
  omega

/-- A second definition is addressed to the component, and so is a second parameter of one name. -/
theorem addressed_of_mem_duplicateComponents (h : d ∈ doc.duplicateComponents) :
    doc.Addressed known d := by
  obtain ⟨⟨c, i⟩, hi, h⟩ := List.mem_flatMap.mp h
  obtain ⟨f, hf, rfl⟩ := List.mem_map.mp h
  have hnode : doc.node? [.component i] = some (.component c) := by
    rw [node?, List.mem_zipIdx_iff_getElem?.mp hi]
    rfl
  refine ⟨.component c, hnode, ?_⟩
  rcases List.mem_append.mp hf with hf | hf
  · obtain ⟨hagain, hf⟩ := List.mem_ite_nil_right.mp hf
    cases List.mem_singleton.mp hf
    exact .duplicateComponent rfl hagain
  · obtain ⟨parameter, hparameter, rfl⟩ := List.mem_map.mp hf
    exact .duplicateParameter (one_lt_count_of_mem_repeated hparameter)

/-- A way back to a component is addressed to it. -/
theorem addressed_of_mem_selfUses (h : d ∈ doc.selfUses) : doc.Addressed known d := by
  obtain ⟨⟨c, i⟩, hi, h⟩ := List.mem_flatMap.mp h
  have hc := List.mem_zipIdx_iff_getElem?.mp hi
  dsimp only at h
  split at h
  · next chain hchain =>
    obtain ⟨between, rfl, hback⟩ := exists_of_chainBack? (List.mem_of_getElem? hc) hchain
    cases List.mem_singleton.mp h
    refine ⟨.component c, ?_, .selfInstantiation hback⟩
    rw [node?, hc]
    rfl
  · cases h

/-- A second definition of a function is addressed to it. -/
theorem addressed_of_mem_duplicateFunctions (h : d ∈ doc.duplicateFunctions) :
    doc.Addressed known d := by
  obtain ⟨⟨f, i⟩, hi, h⟩ := List.mem_flatMap.mp h
  obtain ⟨hagain, h⟩ := List.mem_ite_nil_right.mp h
  cases List.mem_singleton.mp h
  refine ⟨.function f, ?_, .duplicateFunction rfl hagain⟩
  rw [node?, List.mem_zipIdx_iff_getElem?.mp hi]
  rfl

/-! ## Statements -/

/-- What is reported of statements that follow each other is found of one of them, with the names
that the statements in front of it define. -/
theorem exists_of_mem_statements {textboxes names : List String} {place : Nat → Path} {k : Nat}
    {body : List Statement} (h : d ∈ Statement.inOrder textboxes place k names body) :
    ∃ j s, body[j]? = some s ∧ d.path = place (k + j) ∧
      d.finding ∈ s.findings textboxes (names ++ (body.take j).filterMap Statement.defined?) := by
  induction body generalizing k names with
  | nil => cases h
  | cons s rest ih =>
    rcases List.mem_append.mp h with h | h
    · obtain ⟨f, hf, rfl⟩ := List.mem_map.mp h
      refine ⟨0, s, rfl, rfl, ?_⟩
      rw [List.take_zero, List.filterMap_nil, List.append_nil]
      exact hf
    · obtain ⟨j, s', hs', hpath, hf⟩ := ih h
      refine ⟨j + 1, s', hs', ?_, ?_⟩
      · rw [hpath, Nat.add_assoc, Nat.add_comm 1 j]
      · rw [List.take_succ_cons, List.filterMap_cons]
        cases hdefined : s.defined? with
        | none => simpa [hdefined] using hf
        | some name => simpa [hdefined] using hf

/-- What is found of a statement is true of it. -/
theorem applies_of_mem_statement {f : Finding} {s : Statement}
    (h : f ∈ s.findings doc.textboxes (doc.namesAt path)) :
    Applies doc known path f (.statement s) := by
  rcases List.mem_append.mp h with h | h
  · obtain ⟨part, hpart, hf⟩ := List.mem_filterMap.mp h
    cases part with
    | symbol name =>
      obtain ⟨hnone, hf⟩ := Option.ite_none_left_eq_some.mp hf
      cases hf
      exact .undefinedSymbol hpart hnone
    | textbox name =>
      obtain ⟨hnone, hf⟩ := Option.ite_none_left_eq_some.mp hf
      cases hf
      exact .unknownTextbox hpart hnone
    | _ => cases hf
  · obtain ⟨left, op, right, hpart, rfl, hop, hstring⟩ := Expression.exists_of_mem_operators h
    exact .operatorInScript hpart hop hstring

/-- What is reported of statements outside functions is addressed to them. -/
theorem addressed_of_mem_statements (h : d ∈ doc.statementDiagnostics) :
    doc.Addressed known d := by
  obtain ⟨j, s, hs, hpath, hf⟩ := exists_of_mem_statements h
  rw [Nat.zero_add] at hpath
  refine ⟨.statement s, ?_, applies_of_mem_statement ?_⟩
  · rw [hpath, node?, hs]
    rfl
  · rw [hpath]
    exact hf

/-- What is reported of the statements of functions is addressed to them. -/
theorem addressed_of_mem_functions (h : d ∈ doc.functionDiagnostics) : doc.Addressed known d := by
  obtain ⟨⟨f, i⟩, hi, h⟩ := List.mem_flatMap.mp h
  have hi := List.mem_zipIdx_iff_getElem?.mp hi
  obtain ⟨j, s, hs, hpath, hf⟩ := exists_of_mem_statements h
  rw [Nat.zero_add] at hpath
  refine ⟨.statement s, ?_, applies_of_mem_statement ?_⟩
  · rw [hpath, node?, hi, Option.bind_some, hs]
    rfl
  · rw [hpath, namesAt, hi]
    rw [List.append_assoc] at hf
    exact hf

/-- What is reported of style rules is addressed to them or to their properties. -/
theorem addressed_of_mem_styles (h : d ∈ doc.styleDiagnostics) : doc.Addressed known d := by
  obtain ⟨⟨rule, i⟩, hi, h⟩ := List.mem_flatMap.mp h
  have hi := List.mem_zipIdx_iff_getElem?.mp hi
  rcases List.mem_append.mp h with h | h
  · obtain ⟨f, hf, rfl⟩ := List.mem_map.mp h
    obtain ⟨hempty, hf⟩ := List.mem_ite_nil_right.mp hf
    cases List.mem_singleton.mp hf
    refine ⟨.style rule, ?_, .emptyStyle (List.isEmpty_iff.mp hempty)⟩
    rw [node?, hi]
    rfl
  · obtain ⟨j, declaration, hj, h⟩ := exists_of_mem_properties h
    obtain ⟨f, hf, rfl⟩ := List.mem_map.mp h
    refine ⟨.declaration declaration, ?_,
      Expression.applies_of_mem (List.mem_singleton.mpr rfl) hf⟩
    rw [List.singleton_append, node?, hi, Option.bind_some, hj]
    rfl

/-- **Every diagnostic is addressed to a node of which its finding is true.** -/
theorem addressed_of_mem_diagnostics (h : d ∈ doc.diagnostics known) : doc.Addressed known d := by
  obtain ⟨part, h⟩ := mem_diagnostics_iff.mp h
  cases part with
  | head => exact addressed_of_mem_head h
  | body => exact addressed_of_mem_body h
  | components =>
    rcases List.mem_append.mp h with h | h
    · rcases List.mem_append.mp h with h | h
      · exact addressed_of_mem_duplicateComponents h
      · exact addressed_of_mem_selfUses h
    · exact addressed_of_mem_components h
  | functions =>
    rcases List.mem_append.mp h with h | h
    · exact addressed_of_mem_duplicateFunctions h
    · exact addressed_of_mem_functions h
  | statements => exact addressed_of_mem_statements h
  | styles => exact addressed_of_mem_styles h

/-- **Diagnostics address what they are about.** The text of the path of every diagnostic leads to
a node of the document, and what the diagnostic has found is true of that node. Texts of paths lead
to all elements of the head, the body and the components with all that is inside them, and no text
leads to two of them. -/
theorem diagnostics_address (doc : Document) (known : Option (List String)) :
    (∀ d ∈ doc.diagnostics known, ∃ node, doc.resolve? d.path.text = some node ∧
        Applies doc known d.path d.finding node) ∧
      (∀ text e, doc.resolve? text = some (.element e) ↔
        ∃ path, (path, e) ∈ doc.located ∧ path.text = text) ∧
      doc.located.map Prod.snd =
        Element.subelementsOf doc.head ++ Element.subelementsOf doc.body ++
          doc.components.flatMap (fun c => Element.subelementsOf c.body) ∧
      (doc.located.map (·.1.text)).Nodup := by
  refine ⟨fun d hd => ?_, fun _ _ => resolve?_eq_element_iff, map_snd_located doc,
    nodup_texts_located doc⟩
  obtain ⟨node, hnode, happlies⟩ := addressed_of_mem_diagnostics hd
  have hne : d.path ≠ [] := by
    intro hnil
    rw [hnil] at hnode
    cases hnode
  exact ⟨node, (resolve?_text hne).trans hnode, happlies⟩

/-- A card that has two like paragraphs in it, one of them with a colour that nothing gives. -/
def leaflet : Document where
  head := [.title (.text "Leaflet")]
  components :=
    [⟨"Card", [⟨"heading", .string⟩],
      [.sectionBlock .none (some (.symbol "heading"))
        [.paragraph .none (.text "Open"), .paragraph .none (.text "Open"),
          .paragraph ⟨none, [], [⟨.color, .symbol "shade"⟩]⟩ (.symbol "heading")]]⟩]
  body := [.useComponent "Card" [.number 3]]
  functions := []
  statements := []
  styles := []

/-- The report leads to the colour, which is the first style property of the third paragraph, and
the two like paragraphs have different addresses. -/
theorem diagnostics_address_leaflet :
    ⟨[.component 0, .body 0, .content 2, .css 0], .notAParameter "shade"⟩
        ∈ leaflet.diagnostics none ∧
      leaflet.resolve? "components[0].body[0].content[2].css[0]"
        = some (.declaration ⟨.color, .symbol "shade"⟩) ∧
      Applies leaflet none [.component 0, .body 0, .content 2, .css 0] (.notAParameter "shade")
        (.declaration ⟨.color, .symbol "shade"⟩) ∧
      leaflet.resolve? "components[0].body[0].content[0]"
        = some (.element (.paragraph .none (.text "Open"))) ∧
      leaflet.resolve? "components[0].body[0].content[1]"
        = some (.element (.paragraph .none (.text "Open"))) := by
  obtain ⟨haddress, helement, -, -⟩ := diagnostics_address leaflet none
  have hmem : ⟨[.component 0, .body 0, .content 2, .css 0], .notAParameter "shade"⟩
      ∈ leaflet.diagnostics none := by decide
  have htext : Path.text [.component 0, .body 0, .content 2, .css 0]
      = "components[0].body[0].content[2].css[0]" := by decide
  obtain ⟨node, hresolve, happlies⟩ := haddress _ hmem
  have hnode := (resolve?_text (List.cons_ne_nil _ _)).symm.trans hresolve
  cases hnode
  rw [htext] at hresolve
  refine ⟨hmem, hresolve, happlies, ?_, ?_⟩
  · exact (helement _ _).mpr ⟨[.component 0, .body 0, .content 0],
      mem_located_iff.mpr rfl, by decide⟩
  · exact (helement _ _).mpr ⟨[.component 0, .body 0, .content 1],
      mem_located_iff.mpr rfl, by decide⟩

end Document

end Pagewright
