import Pagewright.Json.Value

/-!
# Writing JSON

The text of a JSON value, without blanks. In a string only what has to be escaped is: the quote,
the backslash and the control characters.
-/

namespace Pagewright.Json

/-- A hexadecimal digit. -/
def hexChar (n : Nat) : Char :=
  Nat.digitChar n

/-- One character inside a string. -/
def stringChar (c : Char) : List Char :=
  if c = '"' then ['\\', '"']
  else if c = '\\' then ['\\', '\\']
  else if c = '\n' then ['\\', 'n']
  else if c = '\r' then ['\\', 'r']
  else if c = '\t' then ['\\', 't']
  else if c = '\x08' then ['\\', 'b']
  else if c = '\x0c' then ['\\', 'f']
  else if c < ' ' then ['\\', 'u', '0', '0', hexChar (c.toNat / 16), hexChar (c.toNat % 16)]
  else [c]

/-- A string between its quotes. -/
def stringText (s : String) : List Char :=
  '"' :: s.toList.flatMap stringChar ++ ['"']

mutual

/-- The characters of a value. -/
def chars : Json → List Char
  | null => "null".toList
  | bool b => (toString b).toList
  | integer i => (toString i).toList
  | float x => (floatText x).toList
  | string s => stringText s
  | array items => '[' :: charsOfItems items ++ [']']
  | object members => '\x7b' :: charsOfMembers members ++ ['\x7d']

/-- The items of a list, with commas between them. -/
def charsOfItems : List Json → List Char
  | [] => []
  | [j] => chars j
  | j :: rest => chars j ++ ',' :: charsOfItems rest

/-- The members of an object, with commas between them. -/
def charsOfMembers : List (String × Json) → List Char
  | [] => []
  | [(name, j)] => stringText name ++ ':' :: chars j
  | (name, j) :: rest => stringText name ++ ':' :: chars j ++ ',' :: charsOfMembers rest

end

/-- The text of a value. -/
def render (j : Json) : String :=
  String.ofList j.chars

end Pagewright.Json
