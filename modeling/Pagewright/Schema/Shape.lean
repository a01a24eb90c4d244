import Pagewright.Document
import Pagewright.Json.Problem

/-!
# The shape of a document in JSON

How each type of the document is written in JSON is a table, and this module is the table. A shape
says what a JSON value may stand for; a layout says which fields a record has, in which order, and
which of them may be left out. Readers walk over shapes and know nothing of documents, so that a
document read from a tree and one read straight from a text obey the same table.

The shapes are an index: `Shape.Value` is the type of the values that a shape stands for, and a
reader of a shape gives a value of that type.
-/

namespace Pagewright.Schema

/-! ## Shapes -/

/-- Types with a fixed list of names for their values. -/
inductive ChoiceKind where
  | operator
  | property
  | styleTarget
  | valueType
  deriving DecidableEq, Repr

/-- Types written as records. -/
inductive RecordKind where
  | document
  | component
  | parameter
  | function
  | styleRule
  | declaration
  | attributes
  | click
  | navLink
  deriving DecidableEq, Repr

/-- Types with several kinds of records, told apart by a tag. -/
inductive UnionKind where
  | element
  | expression
  | statement
  deriving DecidableEq, Repr

/-- What a JSON value may stand for. -/
inductive Shape where
  | text
  | flag
  | number
  /-- A whole number from 0 to 255. -/
  | byte
  | choice (kind : ChoiceKind)
  | list (item : Shape)
  | record (kind : RecordKind)
  | union (kind : UnionKind)
  deriving DecidableEq, Repr

/-- The type of the values of a choice. -/
abbrev ChoiceKind.Value : ChoiceKind → Type
  | operator => Operator
  | property => Property
  | styleTarget => StyleTarget
  | valueType => ValueType

/-- The type that a record stands for. -/
abbrev RecordKind.Value : RecordKind → Type
  | document => Document
  | component => Component
  | parameter => Parameter
  | function => Function
  | styleRule => StyleRule
  | declaration => Declaration
  | attributes => Attributes
  | click => Click
  | navLink => NavLink

/-- The type that a tagged record stands for. -/
abbrev UnionKind.Value : UnionKind → Type
  | element => Element
  | expression => Expression
  | statement => Statement

/-- The type of the values of a shape. -/
abbrev Shape.Value : Shape → Type
  | text => String
  | flag => Bool
  | number => Float
  | byte => UInt8
  | choice kind => kind.Value
  | list item => List item.Value
  | record kind => kind.Value
  | union kind => kind.Value

/-! ## Fields -/

/-- Whether a field may be left out. -/
inductive Presence (shape : Shape) where
  | required
  /-- Left out, the field has this value. -/
  | default (value : shape.Value)
  /-- Left out or null, the field has no value. -/
  | optional

/-- A field of a record. -/
structure Field where
  name : String
  shape : Shape
  presence : Presence shape

/-- The type of the values of a field. -/
abbrev Field.Value (f : Field) : Type :=
  match f.presence with
  | .optional => Option f.shape.Value
  | .required | .default _ => f.shape.Value

/-- The value of a field that was left out. -/
def Field.absent? (f : Field) : Option f.Value :=
  match f with
  | ⟨_, _, .required⟩ => none
  | ⟨_, _, .default value⟩ => some value
  | ⟨_, _, .optional⟩ => some none

/-- A value for every field. -/
abbrev Values : List Field → Type
  | [] => Unit
  | f :: fs => f.Value × Values fs

/-- A value for some of the fields. -/
abbrev Slots : List Field → Type
  | [] => Unit
  | f :: fs => Option f.Value × Slots fs

/-- The type of a function of the fields. -/
abbrev Curried (α : Type) : List Field → Type
  | [] => α
  | f :: fs => f.Value → Curried α fs

/-- Applies a function to a value for every field. -/
def Curried.apply {α : Type} : (fs : List Field) → Curried α fs → Values fs → α
  | [], a, _ => a
  | _ :: fs, f, (v, vs) => Curried.apply fs (f v) vs

namespace Slots

/-- No field has a value yet. -/
def empty : (fs : List Field) → Slots fs
  | [] => ()
  | _ :: fs => (none, empty fs)

/-- Gives the field of this name the value that `value` finds. A field that has one already is
refused by `twice`, and a name without a field is left to `other`. -/
def fill {m : Type → Type} [Monad m] (name : String) (value : (f : Field) → m f.Value)
    (twice other : m Unit) : (fs : List Field) → Slots fs → m (Slots fs)
  | [], slots => do
    other
    return slots
  | f :: fs, (slot, slots) => do
    if f.name = name then
      match slot with
      | some v =>
        twice
        return (some v, slots)
      | none => return (some (← value f), slots)
    else return (slot, ← fill name value twice other fs slots)

/-- The values of all fields, or the name of the first one that is missing. -/
def finish : (fs : List Field) → Slots fs → Except String (Values fs)
  | [], _ => .ok ()
  | f :: fs, (slot, slots) => do
    match slot.or f.absent? with
    | some v => return (v, ← finish fs slots)
    | none => .error f.name

end Slots

/-! ## Layouts -/

/-- The fields of a record and what they make up. -/
structure Layout (α : Type) where
  /-- What messages call the record. -/
  title : String
  fields : List Field
  build : Curried α fields

/-- What messages expect of a record that is written as a list. -/
def Layout.wanted {α : Type} (layout : Layout α) : String :=
  match layout.fields.length with
  | 1 => s!"{layout.title} with 1 element"
  | n => s!"{layout.title} with {n} elements"

/-- The tag of a union. -/
def tagName : String := "type"

/-! ## The table -/

/-- The names of a choice, each with its value. -/
def ChoiceKind.options : (k : ChoiceKind) → List (String × k.Value)
  | operator => [("+", .add), ("-", .subtract), ("*", .multiply), ("/", .divide)]
  | property =>
    [("text-color", .textColor), ("font-size", .fontSize), ("height", .height), ("width", .width),
     ("background-color", .backgroundColor), ("color", .color), ("size", .size)]
  | styleTarget => [("text", .text), ("objects", .objects)]
  | valueType => [("number", .number), ("string", .string)]

/-- A field that has to be there. -/
def required (name : String) (shape : Shape) : Field :=
  ⟨name, shape, .required⟩

/-- A list that is empty if it is left out. -/
def listOf (name : String) (item : Shape) : Field :=
  ⟨name, .list item, .default []⟩

/-- A field that may have no value. -/
def optional (name : String) (shape : Shape) : Field :=
  ⟨name, shape, .optional⟩

/-- A flag that is down if it is left out. -/
def flagField (name : String) : Field :=
  ⟨name, .flag, .default false⟩

/-- The attributes of an element, none of them if they are left out. -/
def attrsField : Field :=
  ⟨"attrs", .record .attributes, .default .none⟩

/-- The layouts of the records. -/
def RecordKind.layout : (k : RecordKind) → Layout k.Value
  | document =>
    ⟨"struct Document",
      [listOf "head" (.union .element), listOf "body" (.union .element),
       listOf "components" (.record .component), listOf "functions" (.record .function),
       listOf "statements" (.union .statement), listOf "styles" (.record .styleRule)],
      Document.mk⟩
  | component =>
    ⟨"struct Component",
      [required "name" .text, listOf "params" (.record .parameter),
       listOf "body" (.union .element)],
      Component.mk⟩
  | parameter =>
    ⟨"struct Parameter", [required "name" .text, required "type" (.choice .valueType)],
      Parameter.mk⟩
  | function =>
    ⟨"struct Function",
      [required "name" .text, listOf "params" .text, listOf "body" (.union .statement)],
      Function.mk⟩
  | styleRule =>
    ⟨"struct StyleRule",
      [required "target" (.choice .styleTarget), listOf "properties" (.record .declaration)],
      StyleRule.mk⟩
  | declaration =>
    ⟨"struct CssProperty",
      [required "property" (.choice .property), required "value" (.union .expression)],
      Declaration.mk⟩
  | attributes =>
    ⟨"struct Attrs",
      [optional "name" .text, listOf "classes" .text, listOf "css" (.record .declaration)],
      Attributes.mk⟩
  | click =>
    ⟨"struct OnClick", [required "function" .text, listOf "args" (.union .expression)], Click.mk⟩
  | navLink =>
    ⟨"struct NavLink", [required "target" .text, optional "text" (.union .expression)],
      NavLink.mk⟩

/-- What messages call a union. -/
def UnionKind.title : UnionKind → String
  | element => "Element"
  | expression => "Expression"
  | statement => "Statement"

/-- The layouts of the elements, each under its tag. -/
def elementLayouts : List (String × Layout Element) :=
  [("Div", ⟨"struct variant Element::Div",
      [attrsField, listOf "content" (.union .element)], Element.div⟩),
   ("Section", ⟨"struct variant Element::Section",
      [attrsField, optional "title" (.union .expression), listOf "content" (.union .element)],
      Element.sectionBlock⟩),
   ("Paragraph", ⟨"struct variant Element::Paragraph",
      [attrsField, required "text" (.union .expression)], Element.paragraph⟩),
   ("Heading", ⟨"struct variant Element::Heading",
      [attrsField, required "level" .byte, required "text" (.union .expression)],
      Element.heading⟩),
   ("Link", ⟨"struct variant Element::Link",
      [attrsField, required "url" (.union .expression), optional "text" (.union .expression)],
      Element.link⟩),
   ("Image", ⟨"struct variant Element::Image",
      [attrsField, required "path" (.union .expression), optional "alt" (.union .expression)],
      Element.image⟩),
   ("Button", ⟨"struct variant Element::Button",
      [attrsField, required "text" (.union .expression), optional "onclick" (.record .click)],
      Element.button⟩),
   ("Textbox", ⟨"struct variant Element::Textbox",
      [attrsField, optional "label" (.union .expression),
       optional "placeholder" (.union .expression), flagField "label_after"],
      Element.textbox⟩),
   ("Linebreak", ⟨"struct variant Element::Linebreak", [], Element.linebreak⟩),
   ("Topbar", ⟨"struct variant Element::Topbar",
      [attrsField, required "title" (.union .expression), optional "home" (.union .expression),
       listOf "links" (.record .navLink), flagField "auto_nav_links"],
      Element.topbar⟩),
   ("Footer", ⟨"struct variant Element::Footer",
      [attrsField, required "text" (.union .expression)], Element.footer⟩),
   ("UseComponent", ⟨"struct variant Element::UseComponent",
      [required "component" .text, listOf "args" (.union .expression)], Element.useComponent⟩),
   ("Title", ⟨"struct variant Element::Title",
      [required "text" (.union .expression)], Element.title⟩),
   ("Icon", ⟨"struct variant Element::Icon",
      [required "path" (.union .expression)], Element.icon⟩)]

/-- The layouts of the expressions, each under its tag. -/
def expressionLayouts : List (String × Layout Expression) :=
  [("StringLiteral", ⟨"struct variant Expression::StringLiteral",
      [required "value" .text], Expression.text⟩),
   ("NumberLiteral", ⟨"struct variant Expression::NumberLiteral",
      [required "value" .number], Expression.number⟩),
   ("SymbolReference", ⟨"struct variant Expression::SymbolReference",
      [required "symbol" .text], Expression.symbol⟩),
   ("TextboxValue", ⟨"struct variant Expression::TextboxValue",
      [required "textbox" .text], Expression.textbox⟩),
   ("BinaryOperation", ⟨"struct variant Expression::BinaryOperation",
      [required "left" (.union .expression), required "op" (.choice .operator),
       required "right" (.union .expression)],
      Expression.operation⟩)]

/-- The layouts of the statements, each under its tag. -/
def statementLayouts : List (String × Layout Statement) :=
  [("Alert", ⟨"struct variant Statement::Alert",
      [required "value" (.union .expression)], Statement.alert⟩),
   ("Const", ⟨"struct variant Statement::Const",
      [required "name" .text, required "value" (.union .expression)], Statement.const⟩)]

/-- The layouts of a union, each under its tag. -/
def UnionKind.layouts : (k : UnionKind) → List (String × Layout k.Value)
  | element => elementLayouts
  | expression => expressionLayouts
  | statement => statementLayouts

/-! ## Choosing by name -/

/-- The value under a name, or the problem with the name. -/
def choose {α : Type} (options : List (String × α)) (name : String) :
    Except Json.Problem α :=
  match options.lookup name with
  | some a => .ok a
  | none => .error (.unknownVariant name (options.map (·.1)))

/-- What messages expect where a name is chosen. -/
def chosenByName : String := "variant identifier"

/-- What messages expect of a value of a shape. -/
def Shape.wanted : Shape → String
  | text => "a string"
  | flag => "a boolean"
  | number => "f64"
  | byte => "u8"
  | choice _ => "string or map"
  | list _ => "a sequence"
  | record kind => kind.layout.title
  | union kind => s!"internally tagged enum {kind.title}"

end Pagewright.Schema
