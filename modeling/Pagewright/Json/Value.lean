import Pagewright.Number.Shortest
import Pagewright.Text.Quoted

/-!
# JSON values

A JSON value as it was written: objects keep the order of their members and a name may stand in
them twice, and a number remembers whether it was written as a whole number or as a decimal.
Whole numbers are those of 64 bits; anything larger is a decimal, and so is minus zero.
-/

namespace Pagewright

/-- A JSON value. -/
inductive Json where
  | null
  | bool (b : Bool)
  | integer (i : Int)
  | float (x : Float)
  | string (s : String)
  | array (items : List Json)
  | object (members : List (String × Json))
  deriving Repr, Inhabited

namespace Json

/-! ## Decimals in messages -/

/-- The text of a decimal number: it shows a point or an exponent, so that it cannot be taken for
a whole number. Up to sixteen digits stand before the point and up to four zeros after it. -/
def decimalText (d : Decimal) : List Char :=
  if d.digits.length ≤ d.point ∧ d.point ≤ 16 then
    d.digits ++ List.replicate (d.point.toNat - d.digits.length) '0' ++ ['.', '0']
  else if 0 < d.point ∧ d.point ≤ 16 then
    d.digits.take d.point.toNat ++ '.' :: d.digits.drop d.point.toNat
  else if -5 < d.point ∧ d.point ≤ 0 then
    '0' :: '.' :: List.replicate (-d.point).toNat '0' ++ d.digits
  else
    let exponent := (toString (d.point - 1)).toList
    match d.digits with
    | [] => []
    | [first] => first :: 'e' :: exponent
    | first :: rest => first :: '.' :: rest ++ 'e' :: exponent

/-- The text of a double that is finite. -/
def floatText (x : Float) : String :=
  match Double.ofFloat x with
  | .nan => "NaN"
  | .infinite negative => if negative then "-inf" else "inf"
  | .finite negative b =>
    let digits := if b.mantissa = 0 then "0.0".toList else decimalText (Decimal.shortest .toEven b)
    String.ofList (if negative then '-' :: digits else digits)

/-! ## What was found -/

/-- What a message says about a value that stands in the wrong place. -/
inductive Found where
  | null
  | boolean (b : Bool)
  | integer (i : Int)
  | floating (x : Float)
  | string (s : String)
  | sequence
  | map
  deriving Repr

/-- The wording of what was found. -/
def Found.text : Found → String
  | null => "null"
  | boolean b => s!"boolean `{b}`"
  | integer i => s!"integer `{i}`"
  | floating x => s!"floating point `{floatText x}`"
  | string s => s!"string {Text.quoted s}"
  | sequence => "sequence"
  | map => "map"

/-- What a message says about a value. -/
def found : Json → Found
  | null => .null
  | bool b => .boolean b
  | integer i => .integer i
  | float x => .floating x
  | string s => .string s
  | array _ => .sequence
  | object _ => .map

end Json

end Pagewright
