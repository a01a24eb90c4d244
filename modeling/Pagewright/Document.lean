import Pagewright.Expression

/-!
# Documents

A document describes one page: what its head and its body hold, the components its elements may
use, the functions and statements of its script, and style rules of its own. Components are
templates with parameters; an element that uses a component stands for the component's body.
-/

namespace Pagewright

/-! ## Styles -/

/-- The style properties a document may set. `color` and `size` are older spellings of
`textColor` and `fontSize`. -/
inductive Property where
  | textColor
  | fontSize
  | height
  | width
  | backgroundColor
  | color
  | size
  deriving DecidableEq, Repr

namespace Property

/-- The name of the property in a stylesheet. -/
def cssName : Property → String
  | textColor | color => "color"
  | fontSize | size => "font-size"
  | height => "height"
  | width => "width"
  | backgroundColor => "background-color"

/-- The property is a length, so that a bare number counts pixels. -/
def takesPixels : Property → Bool
  | fontSize | size | height | width => true
  | textColor | backgroundColor | color => false

end Property

/-- A property and the expression for its value. -/
structure Declaration where
  property : Property
  value : Expression
  deriving Repr

/-- The group of tags a style rule of the document applies to. -/
inductive StyleTarget where
  /-- Tags that bear text. -/
  | text
  /-- Tags that are boxes. -/
  | objects
  deriving DecidableEq, Repr

/-- The selector of the group. -/
def StyleTarget.selector : StyleTarget → String
  | .text => "p, h1, h2, h3, h4, h5, h6, a, label"
  | .objects => "div, section, button, img, input"

/-- A stylesheet rule written in the document itself. -/
structure StyleRule where
  target : StyleTarget
  properties : List Declaration
  deriving Repr

/-! ## Elements -/

/-- What nearly every element may carry. -/
structure Attributes where
  /-- The identifier of the element. -/
  name : Option String
  /-- Classes, to be found in the base stylesheet. -/
  classes : List String
  /-- Style properties of this element alone. -/
  css : List Declaration
  deriving Repr, Inhabited

/-- No name, no classes, no style. -/
def Attributes.none : Attributes :=
  ⟨Option.none, [], []⟩

/-- What a click on a button calls. -/
structure Click where
  function : String
  arguments : List Expression
  deriving Repr

/-- An entry of a topbar that leads to the element named `target`. -/
structure NavLink where
  target : String
  text : Option Expression
  deriving Repr

/-- An element of a page. -/
inductive Element where
  | div (attrs : Attributes) (content : List Element)
  | sectionBlock (attrs : Attributes) (title : Option Expression) (content : List Element)
  | paragraph (attrs : Attributes) (text : Expression)
  | heading (attrs : Attributes) (level : UInt8) (text : Expression)
  | link (attrs : Attributes) (url : Expression) (text : Option Expression)
  | image (attrs : Attributes) (path : Expression) (alt : Option Expression)
  | button (attrs : Attributes) (text : Expression) (onclick : Option Click)
  | textbox (attrs : Attributes) (label placeholder : Option Expression) (labelAfter : Bool)
  | linebreak
  | topbar (attrs : Attributes) (title : Expression) (home : Option Expression)
      (links : List NavLink) (autoNavLinks : Bool)
  | footer (attrs : Attributes) (text : Expression)
  /-- Stands for the body of the component. -/
  | useComponent (component : String) (arguments : List Expression)
  | title (text : Expression)
  | icon (path : Expression)
  deriving Repr, Inhabited

namespace Element

/-- The name of the kind of element. -/
def kind : Element → String
  | div .. => "Div"
  | sectionBlock .. => "Section"
  | paragraph .. => "Paragraph"
  | heading .. => "Heading"
  | link .. => "Link"
  | image .. => "Image"
  | button .. => "Button"
  | textbox .. => "Textbox"
  | linebreak => "Linebreak"
  | topbar .. => "Topbar"
  | footer .. => "Footer"
  | useComponent .. => "UseComponent"
  | title .. => "Title"
  | icon .. => "Icon"

/-- The attributes, for the kinds that carry them. -/
def attributes? : Element → Option Attributes
  | div attrs _ | sectionBlock attrs _ _ | paragraph attrs _ | heading attrs _ _
  | link attrs _ _ | image attrs _ _ | button attrs _ _ | textbox attrs _ _ _
  | topbar attrs _ _ _ _ | footer attrs _ => some attrs
  | linebreak | useComponent _ _ | title _ | icon _ => none

/-- The elements inside a container. -/
def children : Element → List Element
  | div _ content | sectionBlock _ _ content => content
  | _ => []

/-- The element belongs in the head of a page. -/
def inHead : Element → Bool
  | title _ | icon _ => true
  | _ => false

mutual

/-- The element and everything inside it, containers before their content. -/
def subelements : Element → List Element
  | div attrs content => div attrs content :: subelementsOf content
  | sectionBlock attrs caption content =>
    sectionBlock attrs caption content :: subelementsOf content
  | e => [e]

/-- The elements of a list and everything inside them, in document order. -/
def subelementsOf : List Element → List Element
  | [] => []
  | e :: rest => subelements e ++ subelementsOf rest

end

end Element

/-! ## Components, script and document -/

/-- A template for elements, with parameters. -/
structure Component where
  name : String
  params : List Parameter
  body : List Element
  deriving Repr, Inhabited

/-- A statement of the script. -/
inductive Statement where
  /-- Shows the value to the visitor. -/
  | alert (value : Expression)
  /-- Names the value. -/
  | const (name : String) (value : Expression)
  deriving Repr, Inhabited

/-- The expression of a statement. -/
def Statement.value : Statement → Expression
  | alert value => value
  | const _ value => value

/-- The name a statement defines for those after it. -/
def Statement.defined? : Statement → Option String
  | alert _ => none
  | const name _ => some name

/-- A function of the script. -/
structure Function where
  name : String
  params : List String
  body : List Statement
  deriving Repr, Inhabited

/-- The description of one page. -/
structure Document where
  head : List Element
  body : List Element
  components : List Component
  functions : List Function
  /-- Statements outside functions, run in order when the page has loaded. -/
  statements : List Statement
  styles : List StyleRule
  deriving Repr, Inhabited

namespace Document

/-- The component of this name; the first definition counts. -/
def component? (doc : Document) (name : String) : Option Component :=
  doc.components.find? (·.name = name)

/-- The function of this name; the first definition counts. -/
def function? (doc : Document) (name : String) : Option Function :=
  doc.functions.find? (·.name = name)

end Document

end Pagewright
