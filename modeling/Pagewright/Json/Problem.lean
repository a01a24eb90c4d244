import Pagewright.Json.Value

/-!
# What can be wrong with a JSON text

A text can be wrong in three ways: it is no JSON, it is JSON of another form than the one asked
for, or it cannot be read to its end. Each cause is a value, and its wording is given here once.
-/

namespace Pagewright.Json

/-- Why a JSON text was refused. -/
inductive Problem where
  /-- The text ends where a value is due. -/
  | endInValue
  | endInObject
  | endInList
  | endInString
  | expectedValue
  /-- One of the words `true`, `false` and `null` is misspelt. -/
  | expectedIdent
  | expectedColon
  | expectedCommaOrBrace
  | expectedCommaOrBracket
  | keyNotString
  | trailingComma
  | trailingCharacters
  | invalidNumber
  | invalidEscape
  | controlCharacter
  | loneSurrogate
  | endOfHexEscape
  | invalidCodePoint
  | numberOutOfRange
  | nestedTooDeep
  /-- A value of the wrong type. -/
  | wrongType (found : Found) (wanted : String)
  /-- A value of the right type that is out of range. -/
  | wrongValue (found : Found) (wanted : String)
  /-- A list of the wrong length. -/
  | wrongLength (length : Nat) (wanted : String)
  | missingField (name : String)
  | duplicateField (name : String)
  /-- A name that is not one of those to choose from. -/
  | unknownVariant (name : String) (choices : List String)
  /-- The source of the text failed. -/
  | unreadable (reason : String)
  deriving Repr

/-- The names to choose from, in a sentence. -/
def choiceText (choices : List String) : String :=
  match choices.map fun name => s!"`{name}`" with
  | [] => "there are no variants"
  | [a] => s!"expected {a}"
  | [a, b] => s!"expected {a} or {b}"
  | names => "expected one of " ++ ", ".intercalate names

/-- The wording of a problem. -/
def Problem.message : Problem → String
  | endInValue => "EOF while parsing a value"
  | endInObject => "EOF while parsing an object"
  | endInList => "EOF while parsing a list"
  | endInString => "EOF while parsing a string"
  | expectedValue => "expected value"
  | expectedIdent => "expected ident"
  | expectedColon => "expected `:`"
  | expectedCommaOrBrace => "expected `,` or `\x7d`"
  | expectedCommaOrBracket => "expected `,` or `]`"
  | keyNotString => "key must be a string"
  | trailingComma => "trailing comma"
  | trailingCharacters => "trailing characters"
  | invalidNumber => "invalid number"
  | invalidEscape => "invalid escape"
  | controlCharacter => "control character (\\u0000-\\u001F) found while parsing a string"
  | loneSurrogate => "lone leading surrogate in hex escape"
  | endOfHexEscape => "unexpected end of hex escape"
  | invalidCodePoint => "invalid unicode code point"
  | numberOutOfRange => "number out of range"
  | nestedTooDeep => "recursion limit exceeded"
  | wrongType found wanted => s!"invalid type: {found.text}, expected {wanted}"
  | wrongValue found wanted => s!"invalid value: {found.text}, expected {wanted}"
  | wrongLength length wanted => s!"invalid length {length}, expected {wanted}"
  | missingField name => s!"missing field `{name}`"
  | duplicateField name => s!"duplicate field `{name}`"
  | unknownVariant name choices => s!"unknown variant `{name}`, {choiceText choices}"
  | unreadable reason => reason

end Pagewright.Json
