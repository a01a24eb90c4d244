import Pagewright.Document

/-!
# Diagnostics

A check of a document yields findings, each with the path of the node it is about. A finding names
its cause; whether it is an error, which would keep the page from being generated or break it, or a
warning, and how it is worded, follow from the cause.
-/

namespace Pagewright

/-! ## Paths -/

/-- One step from a node of a document to a node inside it. -/
inductive Step where
  | head (index : Nat)
  | body (index : Nat)
  | component (index : Nat)
  | function (index : Nat)
  | statement (index : Nat)
  | style (index : Nat)
  /-- An element inside a container. -/
  | content (index : Nat)
  /-- The title of a section. -/
  | title
  /-- A style property of an element. -/
  | css (index : Nat)
  /-- A property of a style rule. -/
  | property (index : Nat)
  deriving DecidableEq, Repr

/-- The step as it is written in a path. -/
def Step.text : Step → String
  | head i => s!"head[{i}]"
  | body i => s!"body[{i}]"
  | component i => s!"components[{i}]"
  | function i => s!"functions[{i}]"
  | statement i => s!"statements[{i}]"
  | style i => s!"styles[{i}]"
  | content i => s!"content[{i}]"
  | title => "title"
  | css i => s!"css[{i}]"
  | property i => s!"properties[{i}]"

/-- The way from a document to one of its nodes. -/
abbrev Path := List Step

/-- The path in words. -/
def Path.text (path : Path) : String :=
  ".".intercalate (path.map Step.text)

/-! ## Findings -/

/-- How grave a finding is. -/
inductive Severity where
  | error
  | warning
  deriving DecidableEq, Repr

/-- The name of a severity. -/
def Severity.name : Severity → String
  | error => "error"
  | warning => "warning"

/-- The lowest level of a heading. -/
def lowestHeading : Nat := 1

/-- The highest level of a heading. -/
def highestHeading : Nat := 6

/-- What a check may find. -/
inductive Finding where
  | duplicateComponent (name : String)
  | duplicateParameter (parameter component : String)
  | duplicateFunction (name : String)
  /-- The component comes back to itself along the chain of components used. -/
  | selfInstantiation (component : String) (chain : List String)
  | notForHead (kind : String)
  | onlyForHead (kind : String)
  | unknownClass (name : String)
  /-- The name of the element has been given before. -/
  | nameTaken (name : String) (first : Path)
  | headingLevel (level : Nat)
  | unknownFunction (name : String)
  | clickArguments (function : String) (expected passed : Nat)
  | unknownComponent (name : String)
  | argumentCount (component : String) (expected got : Nat)
  | argumentType (parameter component : String) (expected got : ValueType)
  | labelWithoutName
  /-- A topbar that lists the sections of the document has links of its own too. -/
  | linksIgnored
  | notAParameter (symbol : String)
  | textboxInMarkup (textbox : String)
  | operatorOnString (op : Operator)
  | undefinedSymbol (symbol : String)
  | unknownTextbox (textbox : String)
  | emptyStyle
  deriving DecidableEq, Repr

namespace Finding

/-- How grave each finding is. -/
def severity : Finding → Severity
  | nameTaken _ _ | labelWithoutName | linksIgnored | notAParameter _ | undefinedSymbol _
  | unknownTextbox _ => .warning
  | _ => .error

/-- The wording of each finding. -/
def message : Finding → String
  | duplicateComponent name => s!"duplicate component `{name}`"
  | duplicateParameter parameter component =>
    s!"duplicate parameter `{parameter}` in component `{component}`"
  | duplicateFunction name => s!"duplicate function `{name}`"
  | selfInstantiation component chain =>
    s!"component `{component}` instantiates itself (" ++ " -> ".intercalate chain ++ ")"
  | notForHead kind => s!"{kind} is not allowed in the head"
  | onlyForHead kind => s!"{kind} belongs in the head"
  | unknownClass name => s!"unknown CSS class `{name}`"
  | nameTaken name first => s!"element name `{name}` is already used at {first.text}"
  | headingLevel level =>
    s!"heading level {level} is out of range ({lowestHeading}-{highestHeading})"
  | unknownFunction name => s!"onclick refers to unknown function `{name}`"
  | clickArguments function expected passed =>
    s!"function `{function}` expects {expected} argument(s), onclick passes {passed}"
  | unknownComponent name => s!"unknown component `{name}`"
  | argumentCount component expected got =>
    s!"component `{component}` expects {expected} argument(s), got {got}"
  | argumentType parameter component expected got =>
    s!"argument `{parameter}` of component `{component}` must be a {expected.name}, " ++
      s!"got a {got.name}"
  | labelWithoutName => "textbox label has no input name to point at"
  | linksIgnored => "explicit links are ignored when auto_nav_links is set"
  | notAParameter symbol =>
    s!"`{symbol}` is not a parameter of the enclosing component and renders as an empty string"
  | textboxInMarkup textbox => s!"textbox value `{textbox}` can only be read from a script"
  | operatorOnString op => s!"operator `{op.symbol}` cannot be applied to a string"
  | undefinedSymbol symbol => s!"`{symbol}` is not defined"
  | unknownTextbox textbox => s!"no textbox named `{textbox}` in the document"
  | emptyStyle => "CSS properties should not be empty"

end Finding

/-- A finding and the node it is about. -/
structure Diagnostic where
  path : Path
  finding : Finding
  deriving DecidableEq, Repr

namespace Diagnostic

/-- The diagnostic is an error. -/
def isError (d : Diagnostic) : Bool :=
  d.finding.severity = .error

/-- The diagnostic in words. -/
def text (d : Diagnostic) : String :=
  s!"{d.finding.severity.name} at {d.path.text}: {d.finding.message}"

end Diagnostic

end Pagewright
