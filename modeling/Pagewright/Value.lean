import Pagewright.Expression
import Pagewright.Number.Text
import Pagewright.Script.Literal

/-!
# Values

What an expression of the markup folds to: a text or a number.
-/

namespace Pagewright

/-- A text or a number. -/
inductive Value where
  | text (s : String)
  | number (x : Float)
  deriving Repr, Inhabited

namespace Value

/-- The type of a value. -/
def type : Value → ValueType
  | text _ => .string
  | number _ => .number

/-- The value as it is shown on the page. -/
def display : Value → String
  | text s => s
  | number x => numberText x

/-- The value as a literal of the script. -/
def scriptLiteral : Value → String
  | text s => Script.literal s
  | number x => numberText x

end Value

end Pagewright
