import Pagewright.Number.Shortest

/-!
# The text of a number

Numbers are printed the way a browser prints them: whole numbers without a fraction, the values
that are not finite by name, zero without a sign, and an exponent only outside
`10⁻⁶ ≤ |n| < 10²¹`. The digits are the shortest that read back.
-/

namespace Pagewright

namespace Decimal

/-- Digits with a point in their midst or before them, or zeros after them. -/
def positional (d : Decimal) : List Char :=
  if d.point ≤ 0 then '0' :: '.' :: List.replicate (-d.point).toNat '0' ++ d.digits
  else if d.digits.length ≤ d.point.toNat then
    d.digits ++ List.replicate (d.point.toNat - d.digits.length) '0'
  else d.digits.take d.point.toNat ++ '.' :: d.digits.drop d.point.toNat

/-- One digit before the point, and the others after it. -/
def significand (d : Decimal) : List Char :=
  match d.digits with
  | [] => []
  | [first] => [first]
  | first :: rest => first :: '.' :: rest

/-- The power of ten that belongs to the significand. -/
def exponent (d : Decimal) : Int :=
  d.point - 1

/-- Significand and exponent, the exponent with its sign. -/
def scientific (d : Decimal) : List Char :=
  d.significand ++
    if d.exponent < 0 then 'e' :: '-' :: Nat.toDigits 10 (-d.exponent).toNat
    else 'e' :: '+' :: Nat.toDigits 10 d.exponent.toNat

end Decimal

namespace Binary

/-- From here on a number is written with an exponent: `10²¹`. -/
def large : Binary := ⟨Nat.pow 10 21, 0⟩

/-- Below this a number is written with an exponent: the double nearest to `10⁻⁶`. -/
def small : Binary := ⟨4722366482869645, -72⟩

/-- Below this a whole number is written digit by digit: `10¹⁵`. -/
def exactWhole : Binary := ⟨Nat.pow 10 15, 0⟩

/-- The text of a value that is not zero, without a sign. -/
def text (b : Binary) : List Char :=
  if !b.blt large || b.blt small then (Decimal.shortest .up b).scientific
  else if b.isWhole && b.blt exactWhole then Nat.toDigits 10 b.whole
  else (Decimal.shortest .up b).positional

end Binary

/-- The text of a double. -/
def Double.text : Double → List Char
  | .nan => "NaN".toList
  | .infinite false => "Infinity".toList
  | .infinite true => "-Infinity".toList
  | .finite negative b =>
    if b.mantissa = 0 then ['0']
    else if negative then '-' :: b.text
    else b.text

/-- The text of a number. -/
def numberText (x : Float) : String :=
  String.ofList (Double.ofFloat x).text

end Pagewright
