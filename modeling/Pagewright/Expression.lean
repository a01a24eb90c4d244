/-!
# Expressions

Every text and every number of a page is written as an expression: a literal, a reference to a
parameter by its name, the value a visitor typed into a textbox, or two expressions joined by an
operator. Expressions have two lives. In the markup they are folded to a value when the page is
generated; in the script they are written out and computed by the browser. This module holds what
the two lives share: the tree, and the type that can be told from the tree alone.
-/

namespace Pagewright

/-- The operators that join two expressions. -/
inductive Operator where
  | add
  | subtract
  | multiply
  | divide
  deriving DecidableEq, Repr

/-- The sign an operator is written with, in documents and in scripts. -/
def Operator.symbol : Operator → String
  | .add => "+"
  | .subtract => "-"
  | .multiply => "*"
  | .divide => "/"

/-- The two types of values. -/
inductive ValueType where
  | number
  | string
  deriving DecidableEq, Repr

/-- The name of a type, in documents and in messages. -/
def ValueType.name : ValueType → String
  | .number => "number"
  | .string => "string"

/-- A parameter of a component. -/
structure Parameter where
  name : String
  type : ValueType
  deriving DecidableEq, Repr

/-- An expression of the page language. -/
inductive Expression where
  /-- A literal text. -/
  | text (value : String)
  /-- A literal number. -/
  | number (value : Float)
  /-- A parameter, in the markup of the enclosing component, in a script of the function. -/
  | symbol (name : String)
  /-- What stands in the textbox of this name when the script runs. -/
  | textbox (name : String)
  /-- Two expressions joined by an operator. -/
  | operation (left : Expression) (op : Operator) (right : Expression)
  deriving Repr, Inhabited

/-- The type of a sum. One string makes it a string; it is a number only if both sides are. -/
def ValueType.sum : Option ValueType → Option ValueType → Option ValueType
  | some .string, _ => some .string
  | _, some .string => some .string
  | some .number, some .number => some .number
  | _, _ => none

namespace Expression

/-- The type of an expression as far as it shows without evaluating it. The parameters are those
that a symbol may refer to; the first of a name counts. -/
def staticType (params : List Parameter) : Expression → Option ValueType
  | text _ => some .string
  | number _ => some .number
  | symbol name => (params.find? (·.name = name)).map (·.type)
  | textbox _ => none
  | operation left .add right => ValueType.sum (left.staticType params) (right.staticType params)
  | operation _ _ _ => some .number

/-- The expression and all its parts, each before its own parts and the left before the right. -/
def parts : Expression → List Expression
  | operation left op right => operation left op right :: (left.parts ++ right.parts)
  | e => [e]

end Expression

end Pagewright
