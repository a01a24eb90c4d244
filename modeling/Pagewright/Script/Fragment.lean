import Pagewright.Evaluation

/-!
# Script expressions

In the script, expressions are not folded but written out for the browser to compute: names are
parameters and constants of the script, and the value of a textbox is read when the script runs, by
a function that the script brings along. Every operation inside another one stands in parentheses,
so that the written text has the shape of the expression.

As far as the type of an operand can be told, arithmetic on a text is refused.
-/

namespace Pagewright.Script

/-- The function that reads a textbox. -/
def textboxFunction : String := "__simpleuiTextboxValue"

/-- A written expression. -/
structure Fragment where
  code : String
  /-- The type of its value, if that can be told. -/
  type : Option ValueType
  /-- It is an operation, which needs parentheses inside another one. -/
  isOperation : Bool
  deriving DecidableEq, Repr

/-- The code as an operand. -/
def Fragment.operand (f : Fragment) : String :=
  if f.isOperation then s!"({f.code})" else f.code

/-- A computation that writes script. The state tells whether a textbox is read. -/
abbrev Writing := ExceptT GenerationError (StateM Bool)

/-- The type of an operation's value, if the operands' types allow the operation. -/
def operationType (op : Operator) (left right : Option ValueType) :
    Except GenerationError (Option ValueType) :=
  match op with
  | .add => .ok (ValueType.sum left right)
  | _ =>
    if left = some .string ∨ right = some .string then .error (.invalidOperation op left right)
    else .ok (some .number)

/-- Writes an expression. -/
def expression : Expression → Writing Fragment
  | .text value => return ⟨(Value.text value).scriptLiteral, some .string, false⟩
  | .number value => return ⟨(Value.number value).scriptLiteral, some .number, false⟩
  | .symbol name => return ⟨name, none, false⟩
  | .textbox name => do
    set true
    return ⟨textboxFunction ++ "(" ++ (Value.text name).scriptLiteral ++ ")", none, false⟩
  | .operation left op right => do
    let l ← expression left
    let r ← expression right
    match operationType op l.type r.type with
    | .ok type => return ⟨s!"{l.operand} {op.symbol} {r.operand}", type, true⟩
    | .error e => throw e

end Pagewright.Script
