import Pagewright.Document
import Pagewright.Json.Value

/-!
# Writing a document as JSON

Every record is an object with its fields in order, and a tagged record starts with its tag. What
is empty by itself is left out: a name, classes or styles an element does not have, and optional
expressions without a value.
-/

namespace Pagewright

/-- The member for a value, if there is one. -/
def memberIfSome {α : Type} (name : String) (toJson : α → Json) : Option α → List (String × Json)
  | some a => [(name, toJson a)]
  | none => []

/-- The member for a list, unless it is empty. -/
def memberIfAny {α : Type} (name : String) (toJson : α → Json) (as : List α) :
    List (String × Json) :=
  if as.isEmpty then [] else [(name, .array (as.map toJson))]

/-- A tagged record. -/
def tagged (tag : String) (fields : List (String × Json)) : Json :=
  .object (("type", .string tag) :: fields)

/-- An expression as JSON. -/
def Expression.toJson : Expression → Json
  | text value => tagged "StringLiteral" [("value", .string value)]
  | number value => tagged "NumberLiteral" [("value", .float value)]
  | symbol name => tagged "SymbolReference" [("symbol", .string name)]
  | textbox name => tagged "TextboxValue" [("textbox", .string name)]
  | operation left op right =>
    tagged "BinaryOperation"
      [("left", left.toJson), ("op", .string op.symbol), ("right", right.toJson)]

/-- The name of a property in a document. -/
def Property.name : Property → String
  | textColor => "text-color"
  | fontSize => "font-size"
  | height => "height"
  | width => "width"
  | backgroundColor => "background-color"
  | color => "color"
  | size => "size"

/-- The name of a group of tags in a document. -/
def StyleTarget.name : StyleTarget → String
  | text => "text"
  | objects => "objects"

/-- A declaration as JSON. -/
def Declaration.toJson (d : Declaration) : Json :=
  .object [("property", .string d.property.name), ("value", d.value.toJson)]

/-- A style rule as JSON. -/
def StyleRule.toJson (rule : StyleRule) : Json :=
  .object [("target", .string rule.target.name),
    ("properties", .array (rule.properties.map Declaration.toJson))]

/-- Attributes as JSON. -/
def Attributes.toJson (attrs : Attributes) : Json :=
  .object (memberIfSome "name" Json.string attrs.name ++
    memberIfAny "classes" Json.string attrs.classes ++
    memberIfAny "css" Declaration.toJson attrs.css)

/-- A click as JSON. -/
def Click.toJson (click : Click) : Json :=
  .object [("function", .string click.function),
    ("args", .array (click.arguments.map Expression.toJson))]

/-- An entry of a topbar as JSON. -/
def NavLink.toJson (link : NavLink) : Json :=
  .object (("target", .string link.target) :: memberIfSome "text" Expression.toJson link.text)

namespace Element

mutual

/-- An element as JSON. -/
def toJson : Element → Json
  | div attrs content =>
    tagged "Div" [("attrs", attrs.toJson), ("content", .array (listToJson content))]
  | sectionBlock attrs caption content =>
    tagged "Section" (("attrs", attrs.toJson) :: memberIfSome "title" Expression.toJson caption ++
      [("content", .array (listToJson content))])
  | paragraph attrs text =>
    tagged "Paragraph" [("attrs", attrs.toJson), ("text", text.toJson)]
  | heading attrs level text =>
    tagged "Heading"
      [("attrs", attrs.toJson), ("level", .integer level.toNat), ("text", text.toJson)]
  | link attrs url text =>
    tagged "Link" (("attrs", attrs.toJson) :: ("url", url.toJson) ::
      memberIfSome "text" Expression.toJson text)
  | image attrs path alt =>
    tagged "Image" (("attrs", attrs.toJson) :: ("path", path.toJson) ::
      memberIfSome "alt" Expression.toJson alt)
  | button attrs text onclick =>
    tagged "Button" (("attrs", attrs.toJson) :: ("text", text.toJson) ::
      memberIfSome "onclick" Click.toJson onclick)
  | textbox attrs label placeholder labelAfter =>
    tagged "Textbox" (("attrs", attrs.toJson) :: memberIfSome "label" Expression.toJson label ++
      memberIfSome "placeholder" Expression.toJson placeholder ++
      [("label_after", .bool labelAfter)])
  | linebreak => tagged "Linebreak" []
  | topbar attrs caption home links autoNavLinks =>
    tagged "Topbar" (("attrs", attrs.toJson) :: ("title", caption.toJson) ::
      memberIfSome "home" Expression.toJson home ++
      [("links", .array (links.map NavLink.toJson)), ("auto_nav_links", .bool autoNavLinks)])
  | footer attrs text =>
    tagged "Footer" [("attrs", attrs.toJson), ("text", text.toJson)]
  | useComponent component args =>
    tagged "UseComponent"
      [("component", .string component), ("args", .array (args.map Expression.toJson))]
  | title text => tagged "Title" [("text", text.toJson)]
  | icon path => tagged "Icon" [("path", path.toJson)]

/-- The elements of a list as JSON. -/
def listToJson : List Element → List Json
  | [] => []
  | e :: rest => toJson e :: listToJson rest

end

end Element

/-- A parameter as JSON. -/
def Parameter.toJson (p : Parameter) : Json :=
  .object [("name", .string p.name), ("type", .string p.type.name)]

/-- A component as JSON. -/
def Component.toJson (c : Component) : Json :=
  .object [("name", .string c.name), ("params", .array (c.params.map Parameter.toJson)),
    ("body", .array (Element.listToJson c.body))]

/-- A statement as JSON. -/
def Statement.toJson : Statement → Json
  | alert value => tagged "Alert" [("value", value.toJson)]
  | const name value => tagged "Const" [("name", .string name), ("value", value.toJson)]

/-- A function as JSON. -/
def Function.toJson (f : Function) : Json :=
  .object [("name", .string f.name), ("params", .array (f.params.map Json.string)),
    ("body", .array (f.body.map Statement.toJson))]

/-- A document as JSON. -/
def Document.toJson (doc : Document) : Json :=
  .object [("head", .array (Element.listToJson doc.head)),
    ("body", .array (Element.listToJson doc.body)),
    ("components", .array (doc.components.map Component.toJson)),
    ("functions", .array (doc.functions.map Function.toJson)),
    ("statements", .array (doc.statements.map Statement.toJson)),
    ("styles", .array (doc.styles.map StyleRule.toJson))]

end Pagewright
