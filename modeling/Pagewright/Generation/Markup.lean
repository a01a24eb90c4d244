import Pagewright.Generation.StyleValue
import Pagewright.Html.Tree

/-!
# Markup

Elements of a document become nodes of the page: expressions are evaluated, classes looked up, and
an element that uses a component is replaced by the component's body, evaluated with the arguments
in place of the parameters.

The order in which an element's parts are evaluated matters, since the first failure ends the pass
and everything before it has been noted. Attributes come first, their classes before their style;
then follow the element's own expressions. The label of a textbox stands before its attributes.

Components may use components. The elements of a body are walked by recursion on their structure,
and what to do with a use of a component is a parameter of that walk, which is filled in by
recursion on the number of levels still allowed.
-/

namespace Pagewright

/-- How deep components may use components. -/
def depthLimit : Nat := 64

/-- The class of every topbar. -/
def topbarClass : String := "topbar"

/-- The class of the link home in a topbar. -/
def topbarHomeClass : String := "topbar-home"

/-- The class of every footer. -/
def footerClass : String := "footer"

namespace Document

/-- A section that a topbar can lead to. -/
structure Landmark where
  name : String
  title : Option Expression
  deriving Repr

/-- The section as a landmark, if it has a name. -/
def landmark? : Element → Option Landmark
  | .sectionBlock attrs caption _ => attrs.name.map fun name => ⟨name, caption⟩
  | _ => none

/-- The named sections of the body, in order. Those inside components do not count. -/
def landmarks (doc : Document) : List Landmark :=
  (Element.subelementsOf doc.body).filterMap landmark?

end Document

namespace Markup

open Emission

/-- What the walk over a body depends on. -/
structure Context where
  /-- Where classes are looked up. -/
  source : ClassSource
  /-- What a topbar lists by itself. -/
  landmarks : List Document.Landmark
  /-- The nodes that a use of a component stands for. -/
  expand : Stack → (component : String) → List Expression → Emission (List Html)

/-! ## Attributes -/

/-- An attribute that may be absent. -/
def attribute? (name : String) (value : Option String) : List Html.Attribute :=
  (value.map fun v => ⟨name, v⟩).toList

/-- The attributes all elements share. Classes the element brings of itself come first and are not
looked up. -/
def attributes (source : ClassSource) (stack : Stack) (own : List String) (attrs : Attributes) :
    Emission (List Html.Attribute) := do
  attrs.classes.forM (useClass source)
  let style ← inlineStyle stack attrs.css
  let classes := own ++ attrs.classes
  return attribute? "id" attrs.name ++
    attribute? "class" (if classes.isEmpty then none else some (" ".intercalate classes)) ++
    attribute? "style" (if style.isEmpty then none else some style)

/-- The call that a click makes, as script. -/
def clickCall (stack : Stack) (click : Click) : Emission String := do
  let arguments ← click.arguments.mapM (value stack)
  return click.function ++ "(" ++ ", ".intercalate (arguments.map Value.scriptLiteral) ++ ")"

/-! ## Topbars -/

/-- An entry of a topbar, with the text to show. -/
structure Entry where
  target : String
  text : String
  deriving DecidableEq, Repr

/-- An entry shows its text, or else the name of its target. -/
def entry (stack : Stack) (target : String) (text : Option Expression) : Emission Entry :=
  return ⟨target, (← shown? stack text).getD target⟩

/-- The entries of a topbar: every named section of the document, or those it lists. The titles of
sections are evaluated outside all components, as the sections themselves are. -/
def entries (context : Context) (stack : Stack) (links : List NavLink) (auto : Bool) :
    Emission (List Entry) :=
  if auto then context.landmarks.mapM fun landmark => entry .empty landmark.name landmark.title
  else links.mapM fun link => entry stack link.target link.text

/-- The list of entries of a topbar; there is none without entries. -/
def navigation (entries : List Entry) : List Html :=
  if entries.isEmpty then []
  else
    let item (e : Entry) : Html :=
      .inline "li" [] [.inline "a" [⟨"href", "#" ++ e.target⟩] [.text e.text]]
    [.block "nav" [] [.block "ul" [] (entries.map item)]]

/-! ## Elements -/

/-- A container without content is written on one line. -/
def container (tag : String) (attrs : List Html.Attribute) (isEmpty : Bool)
    (children : List Html) : Html :=
  if isEmpty then .inline tag attrs children else .block tag attrs children

mutual

/-- The nodes of an element. -/
def element (context : Context) (stack : Stack) : Element → Emission (List Html)
  | .title text => return [.inline "title" [] [.text (← shown stack text)]]
  | .icon path => return [.void "link" [⟨"rel", "icon"⟩, ⟨"href", ← shown stack path⟩]]
  | .div attrs content => do
    let attrs ← attributes context.source stack [] attrs
    let children ← elements context stack content
    return [container "div" attrs content.isEmpty children]
  | .sectionBlock attrs caption content => do
    let attrs ← attributes context.source stack [] attrs
    match ← shown? stack caption with
    | some caption =>
      let children ← elements context stack content
      return [.block "section" attrs (.inline "h2" [] [.text caption] :: children)]
    | none =>
      let children ← elements context stack content
      return [container "section" attrs content.isEmpty children]
  | .paragraph attrs text => do
    let attrs ← attributes context.source stack [] attrs
    return [.inline "p" attrs [.text (← shown stack text)]]
  | .heading attrs level text => do
    let attrs ← attributes context.source stack [] attrs
    return [.inline s!"h{level.toNat}" attrs [.text (← shown stack text)]]
  | .link attrs url text => do
    let attrs ← attributes context.source stack [] attrs
    let href ← shown stack url
    return [.inline "a" (attrs ++ [⟨"href", href⟩]) [.text (← shown stack (text.getD url))]]
  | .image attrs path alt => do
    let attrs ← attributes context.source stack [] attrs
    let src ← shown stack path
    return [.void "img" (attrs ++ ⟨"src", src⟩ :: attribute? "alt" (← shown? stack alt))]
  | .button attrs text onclick => do
    let attrs ← attributes context.source stack [] attrs
    let call ← onclick.mapM (clickCall stack)
    return [.inline "button" (attrs ++ attribute? "onclick" call) [.text (← shown stack text)]]
  | .textbox attrs label placeholder labelAfter => do
    let caption ← shown? stack label
    let common ← attributes context.source stack [] attrs
    let hint ← shown? stack placeholder
    let input := Html.void "input" (common ++ ⟨"type", "text"⟩ :: attribute? "placeholder" hint)
    match caption with
    | none => return [input]
    | some caption =>
      let tag := Html.inline "label" (attribute? "for" attrs.name) [.text caption]
      return if labelAfter then [input, tag] else [tag, input]
  | .linebreak => return [.void "br" []]
  | .topbar attrs caption home links autoNavLinks => do
    modify ({ · with topbar := true })
    let attrs ← attributes context.source stack [topbarClass] attrs
    let caption ← shown stack caption
    let home := (← shown? stack home).getD "#"
    let listed ← entries context stack links autoNavLinks
    let homeLink := Html.inline "a" [⟨"class", topbarHomeClass⟩, ⟨"href", home⟩] [.text caption]
    return [.block "header" attrs (homeLink :: navigation listed)]
  | .footer attrs text => do
    modify ({ · with footer := true })
    let attrs ← attributes context.source stack [footerClass] attrs
    return [.block "footer" attrs [.inline "p" [] [.text (← shown stack text)]]]
  | .useComponent component arguments => context.expand stack component arguments

/-- The nodes of elements that follow each other. -/
def elements (context : Context) (stack : Stack) : List Element → Emission (List Html)
  | [] => return []
  | e :: rest => do
    let first ← element context stack e
    return first ++ (← elements context stack rest)

end

/-! ## Components -/

/-- The nodes that a use of a component stands for, with so many levels left to go deeper. The
component must exist, there must be a level left, and the arguments must fit, in this order. -/
def instantiate (doc : Document) (source : ClassSource) :
    (levels : Nat) → Stack → String → List Expression → Emission (List Html)
  | levels, stack, name, arguments =>
    match doc.component? name, levels with
    | none, _ => throw (.unknownComponent name)
    | some _, 0 => throw (.tooDeep name depthLimit)
    | some component, levels + 1 => do
      let frame ← ofEvaluation (component.bind arguments stack)
      elements ⟨source, doc.landmarks, instantiate doc source levels⟩ (stack.push frame)
        component.body

/-- What the elements of a document depend on when they stand inside the frames of a stack. -/
def context (doc : Document) (source : ClassSource) (stack : Stack) : Context :=
  ⟨source, doc.landmarks, instantiate doc source (depthLimit - stack.depth)⟩

end Markup

/-- The nodes of elements that stand outside all components. -/
def Document.markup (doc : Document) (source : ClassSource) (es : List Element) :
    Emission (List Html) :=
  Markup.elements (Markup.context doc source .empty) .empty es

end Pagewright
