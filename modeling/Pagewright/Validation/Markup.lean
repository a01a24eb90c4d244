import Pagewright.Diagnostic

/-!
# Checking elements

Every element of the head, the body and the components is checked for itself: its attributes, its
own expressions, and what it refers to. Containers come before their content, so the findings stand
in the order of the document. An element knows the parameters of the component it stands in, and
the elements of the body also know the names given before them.
-/

namespace Pagewright

/-! ## Expressions -/

namespace Expression

/-- The operation takes a text where it needs a number. -/
def operatorFinding? (params : List Parameter) : Expression → Option Finding
  | operation _ .add _ => none
  | operation left op right =>
    if left.staticType params = some .string ∨ right.staticType params = some .string then
      some (.operatorOnString op)
    else none
  | _ => none

/-- Operators in the expression that are applied to a text. -/
def operatorFindings (params : List Parameter) (e : Expression) : List Finding :=
  e.parts.filterMap (operatorFinding? params)

/-- The name has no value in the markup, or only scripts can read it. -/
def nameFinding? (params : List Parameter) : Expression → Option Finding
  | symbol name => if params.any (·.name = name) then none else some (.notAParameter name)
  | textbox name => some (.textboxInMarkup name)
  | _ => none

/-- The findings about an expression of the markup: its names first, then its operators. -/
def markupFindings (params : List Parameter) (e : Expression) : List Finding :=
  e.parts.filterMap (nameFinding? params) ++ e.operatorFindings params

end Expression

/-- Findings about one node. -/
def Path.found (path : Path) (findings : List Finding) : List Diagnostic :=
  findings.map (⟨path, ·⟩)

/-! ## Attributes -/

/-- Style properties of an element or of a rule, each at a step of its own. -/
def Declaration.diagnostics (path : Path) (step : Nat → Step) (params : List Parameter)
    (declarations : List Declaration) : List Diagnostic :=
  declarations.zipIdx.flatMap fun (d, i) =>
    Path.found (path ++ [step i]) (d.value.markupFindings params)

/-- The classes that are not known. Without a list of known classes, all are. -/
def Attributes.classFindings (known : Option (List String)) (attrs : Attributes) : List Finding :=
  match known with
  | some known => (attrs.classes.filter (· ∉ known)).map .unknownClass
  | .none => []

/-! ## Elements -/

/-- Findings about a use of a component. -/
def Document.useFindings (doc : Document) (params : List Parameter) (name : String)
    (arguments : List Expression) : List Finding :=
  match doc.component? name with
  | none => [.unknownComponent name]
  | some component =>
    if component.params.length ≠ arguments.length then
      [.argumentCount name component.params.length arguments.length]
    else
      (component.params.zip arguments).filterMap fun (param, argument) =>
        match argument.staticType params with
        | some found =>
          if found = param.type then none
          else some (.argumentType param.name name param.type found)
        | none => none

/-- Findings about the function that a click calls. -/
def Document.clickFindings (doc : Document) (click : Click) : List Finding :=
  match doc.function? click.function with
  | none => [.unknownFunction click.function]
  | some f =>
    if f.params.length = click.arguments.length then []
    else [.clickArguments f.name f.params.length click.arguments.length]

namespace Element

/-- Findings about an element itself, apart from its attributes and the elements inside it. The
title of a section has a path of its own and is not among them. -/
def findings (doc : Document) (params : List Parameter) : Element → List Finding
  | paragraph _ text | footer _ text => text.markupFindings params
  | heading _ level text =>
    (if lowestHeading ≤ level.toNat ∧ level.toNat ≤ highestHeading then []
      else [.headingLevel level.toNat]) ++ text.markupFindings params
  | link _ url text => (url :: text.toList).flatMap (·.markupFindings params)
  | image _ path alt => (path :: alt.toList).flatMap (·.markupFindings params)
  | button _ text onclick =>
    text.markupFindings params ++
      onclick.toList.flatMap fun click =>
        doc.clickFindings click ++ click.arguments.flatMap (·.markupFindings params)
  | textbox attrs label placeholder _ =>
    (if label.isSome ∧ attrs.name.isNone then [.labelWithoutName] else []) ++
      (label.toList ++ placeholder.toList).flatMap (·.markupFindings params)
  | topbar _ caption home links autoNavLinks =>
    (caption :: home.toList).flatMap (·.markupFindings params) ++
      (if autoNavLinks ∧ ¬ links.isEmpty then [.linksIgnored] else []) ++
      (links.filterMap (·.text)).flatMap (·.markupFindings params)
  | useComponent component arguments =>
    arguments.flatMap (·.markupFindings params) ++ doc.useFindings params component arguments
  | div .. | sectionBlock .. | linebreak | title _ | icon _ => []

/-- Findings about the title of a section. -/
def captionFindings (params : List Parameter) : Element → List Finding
  | sectionBlock _ (some caption) _ => caption.markupFindings params
  | _ => []

/-- The name of an element. -/
def name? (e : Element) : Option String :=
  e.attributes?.bind (·.name)

end Element

/-- What the check of an element depends on. -/
structure Scope where
  doc : Document
  /-- The classes of the base stylesheet, if they are to be checked. -/
  known : Option (List String)
  /-- The parameters of the component the elements stand in. -/
  params : List Parameter

/-- Names given so far, with the path of the element that bears each. -/
abbrev NameTable := List (String × Path)

namespace NameTable

/-- The finding that the name of an element is taken. -/
def finding? (names : NameTable) (e : Element) : Option Finding :=
  e.name?.bind fun name => (names.lookup name).map (.nameTaken name)

/-- The table with the name of an element. -/
def record (names : NameTable) (path : Path) (e : Element) : NameTable :=
  match e.name? with
  | some name => if (names.lookup name).isSome then names else (name, path) :: names
  | none => names

end NameTable

/-- The diagnostics of one element outside the head, apart from the elements inside it. -/
def Scope.diagnostics (scope : Scope) (names : NameTable) (path : Path) (e : Element) :
    List Diagnostic :=
  if e.inHead then [⟨path, .onlyForHead e.kind⟩]
  else
    let attributeDiagnostics :=
      match e.attributes? with
      | some attrs =>
        Path.found path ((names.finding? e).toList ++ attrs.classFindings scope.known) ++
          Declaration.diagnostics path .css scope.params attrs.css
      | none => []
    attributeDiagnostics ++
      Path.found (path ++ [.title]) (e.captionFindings scope.params) ++
      Path.found path (e.findings scope.doc scope.params)

/-! ## Trees of elements -/

namespace Element

mutual

/-- An element and everything inside it, with their paths; containers come before their content. -/
def located (path : Path) : Element → List (Path × Element)
  | div attrs content => (path, div attrs content) :: locatedFrom path .content 0 content
  | sectionBlock attrs caption content =>
    (path, sectionBlock attrs caption content) :: locatedFrom path .content 0 content
  | e => [(path, e)]

/-- Elements that follow each other below a path, the first one at the given index. -/
def locatedFrom (path : Path) (step : Nat → Step) (index : Nat) :
    List Element → List (Path × Element)
  | [] => []
  | e :: rest => located (path ++ [step index]) e ++ locatedFrom path step (index + 1) rest

end

end Element

/-- The diagnostics of elements that share a table of names. -/
def Scope.inOrder (scope : Scope) (names : NameTable) : List (Path × Element) → List Diagnostic
  | [] => []
  | (path, e) :: rest =>
    scope.diagnostics names path e ++ scope.inOrder (names.record path e) rest

namespace Document

/-- The diagnostics of the head. -/
def headDiagnostics (doc : Document) : List Diagnostic :=
  doc.head.zipIdx.flatMap fun (e, i) =>
    Path.found [.head i] <|
      match e with
      | .title text => text.markupFindings []
      | .icon path => path.markupFindings []
      | e => [.notForHead e.kind]

/-- The diagnostics of the body. -/
def bodyDiagnostics (doc : Document) (known : Option (List String)) : List Diagnostic :=
  Scope.inOrder ⟨doc, known, []⟩ [] (Element.locatedFrom [] .body 0 doc.body)

/-- The diagnostics of the bodies of components. An element in a component may be on the page many
times or not at all, so its name is not checked. -/
def componentDiagnostics (doc : Document) (known : Option (List String)) : List Diagnostic :=
  doc.components.zipIdx.flatMap fun (c, i) =>
    (Element.locatedFrom [.component i] .body 0 c.body).flatMap fun (path, e) =>
      Scope.diagnostics ⟨doc, known, c.params⟩ [] path e

/-- The diagnostics of style rules. -/
def styleDiagnostics (doc : Document) : List Diagnostic :=
  doc.styles.zipIdx.flatMap fun (rule, i) =>
    Path.found [.style i] (if rule.properties.isEmpty then [.emptyStyle] else []) ++
      Declaration.diagnostics [.style i] .property [] rule.properties

end Document

end Pagewright
