import Pagewright.Proofs.Walk

/-!
# Translating expressions

Every expression of an element or of a document is replaced by another one, and nothing else
changes. The expressions of what is translated are the translated expressions, in the same places.
-/

namespace Pagewright

/-! ## Elements -/

/-- The declaration with its expression translated. -/
def Declaration.translate (σ : Expression → Expression) (d : Declaration) : Declaration :=
  { d with value := σ d.value }

/-- The attributes with all their expressions translated. -/
def Attributes.translate (σ : Expression → Expression) (attrs : Attributes) : Attributes :=
  { attrs with css := attrs.css.map (Declaration.translate σ) }

/-- The click with its arguments translated. -/
def Click.translate (σ : Expression → Expression) (click : Click) : Click :=
  { click with arguments := click.arguments.map σ }

/-- The entry of a topbar with its text translated. -/
def NavLink.translate (σ : Expression → Expression) (link : NavLink) : NavLink :=
  { link with text := link.text.map σ }

namespace Element

mutual

/-- The element with all its expressions translated, those of its content included. -/
def translate (σ : Expression → Expression) : Element → Element
  | div attrs content => div (attrs.translate σ) (translateAll σ content)
  | sectionBlock attrs caption content =>
    sectionBlock (attrs.translate σ) (caption.map σ) (translateAll σ content)
  | paragraph attrs text => paragraph (attrs.translate σ) (σ text)
  | heading attrs level text => heading (attrs.translate σ) level (σ text)
  | link attrs url text => link (attrs.translate σ) (σ url) (text.map σ)
  | image attrs path alt => image (attrs.translate σ) (σ path) (alt.map σ)
  | button attrs text onclick =>
    button (attrs.translate σ) (σ text) (onclick.map (Click.translate σ))
  | textbox attrs label placeholder labelAfter =>
    textbox (attrs.translate σ) (label.map σ) (placeholder.map σ) labelAfter
  | linebreak => linebreak
  | topbar attrs caption home links autoNavLinks =>
    topbar (attrs.translate σ) (σ caption) (home.map σ) (links.map (NavLink.translate σ))
      autoNavLinks
  | footer attrs text => footer (attrs.translate σ) (σ text)
  | useComponent component arguments => useComponent component (arguments.map σ)
  | title text => title (σ text)
  | icon path => icon (σ path)

/-- Elements that follow each other with all their expressions translated. -/
def translateAll (σ : Expression → Expression) : List Element → List Element
  | [] => []
  | e :: rest => translate σ e :: translateAll σ rest

end

end Element

/-! ## Documents -/

section Documents

variable (σ : Expression → Expression)

/-- The component with all expressions of its body translated. -/
def Component.translate (c : Component) : Component :=
  { c with body := Element.translateAll σ c.body }

/-- The statement with its expression translated. -/
def Statement.translate : Statement → Statement
  | alert value => alert (σ value)
  | const name value => const name (σ value)

/-- The function with all its expressions translated. -/
def Function.translate (function : Function) : Function :=
  { function with body := function.body.map (Statement.translate σ) }

/-- The style rule with all its expressions translated. -/
def StyleRule.translate (rule : StyleRule) : StyleRule :=
  { rule with properties := rule.properties.map (Declaration.translate σ) }

namespace Document

/-- The document with all its expressions translated. -/
def translate (doc : Document) : Document where
  head := Element.translateAll σ doc.head
  body := Element.translateAll σ doc.body
  components := doc.components.map (Component.translate σ)
  functions := doc.functions.map (Function.translate σ)
  statements := doc.statements.map (Statement.translate σ)
  styles := doc.styles.map (StyleRule.translate σ)

/-- All elements of the document, those inside others and those of components included. -/
def elements (doc : Document) : List Element :=
  Element.subelementsOf doc.head ++ Element.subelementsOf doc.body ++
    doc.components.flatMap fun c => Element.subelementsOf c.body

/-- All expressions of the document. -/
def expressions (doc : Document) : List Expression :=
  doc.elements.flatMap Element.expressions ++
    (doc.functions.flatMap (·.body) ++ doc.statements).map Statement.value ++
    doc.styles.flatMap fun rule => rule.properties.map Declaration.value

end Document

end Documents

/-! ## Nothing translated -/

@[simp] theorem Declaration.translate_id : Declaration.translate id = id := rfl

@[simp] theorem NavLink.translate_id : NavLink.translate id = id := by
  funext link
  simp [NavLink.translate]

@[simp] theorem Click.translate_id : Click.translate id = id := by
  funext click
  simp [Click.translate]

@[simp] theorem Attributes.translate_id (attrs : Attributes) : attrs.translate id = attrs := by
  simp [Attributes.translate]

namespace Element

mutual

theorem translate_id (e : Element) : e.translate id = e := by
  match e with
  | .div attrs content =>
    rw [translate, translateAll_id content, Attributes.translate_id]
  | .sectionBlock attrs caption content =>
    rw [translate, translateAll_id content, Attributes.translate_id, Option.map_id_apply]
  | .title _ | .icon _ | .paragraph _ _ | .heading _ _ _ | .link _ _ _ | .image _ _ _
  | .button _ _ _ | .textbox _ _ _ _ | .linebreak | .topbar _ _ _ _ _ | .footer _ _
  | .useComponent _ _ =>
    simp [translate]

theorem translateAll_id (es : List Element) : translateAll id es = es := by
  match es with
  | [] => rfl
  | e :: rest => rw [translateAll, translate_id e, translateAll_id rest]

end

end Element

/-! ## The expressions afterwards -/

section Expressions

variable (σ : Expression → Expression)

namespace Element

theorem translateAll_eq_map (σ : Expression → Expression) (es : List Element) :
    translateAll σ es = es.map (translate σ) := by
  induction es with
  | nil => rfl
  | cons e rest ih => rw [translateAll, ih, List.map_cons]

theorem attributes?_translate (e : Element) :
    (e.translate σ).attributes? = e.attributes?.map (Attributes.translate σ) := by
  cases e <;> rfl

theorem declarations_translate (e : Element) :
    (e.translate σ).declarations = e.declarations.map (Declaration.translate σ) := by
  rw [declarations, attributes?_translate, declarations]
  cases e.attributes? <;> rfl

theorem contents_translate (e : Element) : (e.translate σ).contents = e.contents.map σ := by
  have hoption : ∀ o : Option Expression, (o.map σ).toList = o.toList.map σ := fun o => by
    cases o <;> rfl
  cases e with
  | button attrs text onclick =>
    cases onclick with
    | none => rfl
    | some click =>
      show _ :: (click.arguments.map σ ++ []) = _
      rw [List.append_nil]
      exact congrArg (_ :: List.map _ ·) (List.append_nil _).symm
  | topbar attrs caption home links autoNavLinks =>
    have hlinks : (links.map (NavLink.translate σ)).filterMap (·.text)
        = (links.filterMap (·.text)).map σ := by
      rw [List.filterMap_map, List.map_filterMap]
      rfl
    simp only [translate, contents, List.map_cons, List.map_append, hoption, hlinks]
  | _ => simp only [translate, contents, List.map_nil, List.map_cons, List.map_append, hoption]

theorem expressions_translate (e : Element) :
    (e.translate σ).expressions = e.expressions.map σ := by
  rw [expressions, declarations_translate, contents_translate, List.map_map, expressions,
    List.map_append, List.map_map]
  rfl

theorem children_translate (e : Element) :
    (e.translate σ).children = translateAll σ e.children := by
  cases e <;> rfl

theorem subelementsOf_translateAll (es : List Element) :
    subelementsOf (translateAll σ es) = (subelementsOf es).map (translate σ) := by
  induction es using contentInduction with
  | nil => rfl
  | cons e rest ihcontent ihrest =>
    rw [translateAll, subelementsOf_cons, children_translate, ihcontent, ihrest,
      subelementsOf_cons, List.map_cons, List.map_append]

end Element

theorem Statement.value_translate (statement : Statement) :
    (statement.translate σ).value = σ statement.value := by
  cases statement <;> rfl

namespace Document

theorem elements_translate (doc : Document) :
    (doc.translate σ).elements = doc.elements.map (Element.translate σ) := by
  simp only [elements, translate, Component.translate, Element.subelementsOf_translateAll,
    List.flatMap_map, List.map_append, List.map_flatMap]

/-- **The expressions of a translated document** are those of the document, each translated. -/
theorem expressions_translate (doc : Document) :
    (doc.translate σ).expressions = doc.expressions.map σ := by
  rw [expressions, elements_translate, expressions]
  simp only [translate, Function.translate, StyleRule.translate, Declaration.translate,
    List.flatMap_map, List.map_append, List.map_flatMap, List.map_map, Function.comp_def,
    Element.expressions_translate, Statement.value_translate]

end Document

end Expressions

end Pagewright
