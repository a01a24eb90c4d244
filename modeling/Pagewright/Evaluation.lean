import Pagewright.Document
import Pagewright.Value

/-!
# Evaluation

Markup cannot compute, so its expressions are folded to values when the page is generated. The
names they use are the parameters of the component they stand in. Each use of a component pushes a
frame with the values of its arguments, and a name is looked up in the innermost frame alone: a
component sees its own parameters and not those of whoever used it.

A name that no parameter carries is not an error. It stands for the empty text, and the evaluation
goes on with a warning. Warnings outlive a later error, so evaluation keeps them in a state beside
the result.
-/

namespace Pagewright

/-! ## Errors and warnings -/

/-- Why a page cannot be generated. -/
inductive GenerationError where
  /-- The value of a textbox is asked for in the markup. -/
  | textboxInMarkup
  /-- An operator does not apply to operands of these types; `none` is a type not known. -/
  | invalidOperation (op : Operator) (left right : Option ValueType)
  /-- A component is used with the wrong number of arguments. -/
  | argumentCount (component : String) (expected got : Nat)
  /-- A component is used with an argument of the wrong type. -/
  | argumentType (component parameter : String) (expected got : ValueType)
  | unknownComponent (name : String)
  /-- Uses of components inside components go deeper than the limit. -/
  | tooDeep (component : String) (limit : Nat)
  deriving DecidableEq, Repr

/-- The name of a type, or the word for a type that is not known. -/
def typeLabel : Option ValueType → String
  | some type => type.name
  | none => "unknown"

/-- The wording of an error. -/
def GenerationError.message : GenerationError → String
  | textboxInMarkup => "unhandled expression kind `TextboxValue` in markup"
  | invalidOperation op left right =>
    s!"invalid operation: `{op.symbol}` cannot be applied to {typeLabel left} and {typeLabel right}"
  | argumentCount component expected got =>
    s!"cannot bind arguments of component `{component}`: expected {expected} argument(s), got {got}"
  | argumentType component parameter expected got =>
    s!"cannot bind arguments of component `{component}`: " ++
      s!"parameter `{parameter}` expects a {expected.name}, got a {got.name}"
  | unknownComponent name => s!"unknown component `{name}`"
  | tooDeep component limit => s!"component `{component}` nested deeper than {limit} levels"

/-- What is worth a remark but does not stop the generation. -/
inductive Warning where
  /-- A name without a value; it was taken for the empty text. -/
  | unresolved (symbol : String)
  deriving DecidableEq, Repr

/-- The wording of a warning. -/
def Warning.message : Warning → String
  | unresolved symbol => s!"unresolved symbol `{symbol}` rendered as an empty string"

/-! ## Frames -/

/-- A parameter with its value. -/
structure Binding where
  name : String
  type : ValueType
  value : Value
  deriving Repr

/-- The parameters of one use of a component. -/
abbrev Frame := List Binding

/-- The value of a name in a frame; the first binding of a name counts. -/
def Frame.get? (frame : Frame) (name : String) : Option Value :=
  (frame.find? (·.name = name)).map (·.value)

/-- The frames of the components being expanded, the innermost first. -/
structure Stack where
  frames : List Frame
  deriving Repr

namespace Stack

/-- No component is being expanded. -/
def empty : Stack := ⟨[]⟩

/-- How many uses of components are being expanded, each inside the one before. -/
def depth (stack : Stack) : Nat :=
  stack.frames.length

/-- The innermost frame. -/
def top? (stack : Stack) : Option Frame :=
  stack.frames.head?

/-- The stack with one more frame. -/
def push (stack : Stack) (frame : Frame) : Stack :=
  ⟨frame :: stack.frames⟩

/-- The value of a name, in the innermost frame. -/
def lookup? (stack : Stack) (name : String) : Option Value :=
  stack.top?.bind (·.get? name)

end Stack

/-! ## Folding expressions -/

/-- A computation that may fail and that collects warnings whether or not it does. -/
abbrev Evaluation := ExceptT GenerationError (StateM (List Warning))

/-- Collects a warning. -/
def warn (w : Warning) : Evaluation Unit :=
  modify (· ++ [w])

/-- Applies an operator to two values. Numbers are computed with; a plus sign with a text on either
side joins the two as they are shown. -/
def Operator.apply (op : Operator) (left right : Value) : Except GenerationError Value :=
  match op, left, right with
  | .add, .number a, .number b => .ok (.number (a + b))
  | .add, a, b => .ok (.text (a.display ++ b.display))
  | .subtract, .number a, .number b => .ok (.number (a - b))
  | .multiply, .number a, .number b => .ok (.number (a * b))
  | .divide, .number a, .number b => .ok (.number (a / b))
  | op, a, b => .error (.invalidOperation op (some a.type) (some b.type))

/-- The value of an expression of the markup. -/
def Expression.evaluate (stack : Stack) : Expression → Evaluation Value
  | text value => return .text value
  | number value => return .number value
  | symbol name =>
    match stack.lookup? name with
    | some value => return value
    | none => do
      warn (.unresolved name)
      return .text ""
  | textbox _ => throw .textboxInMarkup
  | operation left op right => do
    let l ← left.evaluate stack
    let r ← right.evaluate stack
    match op.apply l r with
    | .ok value => return value
    | .error e => throw e

/-! ## Binding arguments -/

/-- The bindings of parameters to arguments, position by position. The first argument that cannot
be evaluated or has the wrong type ends the matter. -/
def bindEach (component : String) (stack : Stack) :
    List Parameter → List Expression → Evaluation Frame
  | param :: params, arg :: args => do
    let value ← arg.evaluate stack
    if value.type = param.type then
      let rest ← bindEach component stack params args
      return ⟨param.name, param.type, value⟩ :: rest
    else
      throw (.argumentType component param.name param.type value.type)
  | _, _ => return []

/-- The frame for a use of a component: as many arguments as parameters, each of the right type,
evaluated where the component is used. -/
def Component.bind (component : Component) (args : List Expression) (stack : Stack) :
    Evaluation Frame :=
  if component.params.length = args.length then
    bindEach component.name stack component.params args
  else
    throw (.argumentCount component.name component.params.length args.length)

end Pagewright
