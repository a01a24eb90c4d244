/-!
# Text inside HTML

Text from a document reaches the page in two places, between tags and inside a quoted attribute
value, and in neither may it be mistaken for markup. Both places write the three characters of
markup as named references and everything beyond the first 160 code points as a numeric reference,
so that a page is safe whatever encoding it is read in. They differ in the line feed: between tags
it is a line break, inside an attribute it stands for itself.
-/

namespace Pagewright.Html

/-- From this code point on, characters are written as numeric references. -/
def firstNumeric : Nat := 0xA0

/-- The numeric reference of a character. -/
def numericReference (c : Char) : List Char :=
  '&' :: '#' :: Nat.toDigits 10 c.toNat ++ [';']

/-- One character of text between tags. -/
def textChar (c : Char) : List Char :=
  if c = '<' then "&lt;".toList
  else if c = '>' then "&gt;".toList
  else if c = '&' then "&amp;".toList
  else if c = '\n' then "<br>".toList
  else if c = '\r' then []
  else if firstNumeric ≤ c.toNat then numericReference c
  else [c]

/-- One character of a value between double quotes. -/
def attributeChar (c : Char) : List Char :=
  if c = '<' then "&lt;".toList
  else if c = '>' then "&gt;".toList
  else if c = '&' then "&amp;".toList
  else if c = '"' then "&quot;".toList
  else if c = '\n' then "&#10;".toList
  else if firstNumeric ≤ c.toNat then numericReference c
  else [c]

/-- Text between tags. -/
def escapeText (s : String) : String :=
  String.ofList (s.toList.flatMap textChar)

/-- A value between double quotes. -/
def escapeAttribute (s : String) : String :=
  String.ofList (s.toList.flatMap attributeChar)

end Pagewright.Html
