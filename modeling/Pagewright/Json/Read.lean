import Pagewright.Json.Scalar

/-!
# Reading lists, objects and whole values

A list or an object opens a level, and only so many levels may be open at once. The reader of a
value therefore takes the number of levels that may still be opened, and recursion on that number
is all the recursion it needs; the items of one list are a loop.

The closing bracket is looked for even when the content failed. It does not change the error, but
an error without a place of its own is then placed after the bracket.
-/

namespace Pagewright.Json

/-- How many levels of lists and objects may be open at once. -/
def levelLimit : Nat := 127

namespace Reader

/-! ## Between the items -/

/-- After `[` or an item: there is another item, and it is next. -/
def hasItem (first : Bool) : Reader Bool := do
  match ← gap with
  | none => failNext .endInList
  | some ']' => return false
  | some c =>
    if first then return true
    else if c = ',' then
      take
      match ← gap with
      | some ']' => failNext .trailingComma
      | some _ => return true
      | none => failNext .endInValue
    else failNext .expectedCommaOrBracket

/-- The next character can start a key. -/
def keyStarts : Option Char → Reader Bool
  | some '"' => return true
  | some '\x7d' => failNext .trailingComma
  | some _ => failNext .keyNotString
  | none => failNext .endInValue

/-- After an opening brace or a member: there is another member, and its key is next. -/
def hasKey (first : Bool) : Reader Bool := do
  match ← gap with
  | none => failNext .endInObject
  | some '\x7d' => return false
  | some c =>
    if first then keyStarts (some c)
    else if c = ',' then
      take
      keyStarts (← gap)
    else failNext .expectedCommaOrBrace

/-- The colon between a key and its value. -/
def colon : Reader Unit := do
  match ← gap with
  | some ':' => take
  | some _ => failNext .expectedColon
  | none => failNext .endInObject

/-- The end of a list. -/
def endList : Reader Unit := do
  match ← gap with
  | some ']' => take
  | some ',' =>
    take
    let after : Reader (Option Char) := fun c =>
      match gap c with
      | (.ok a, c') => (.ok a, c')
      | (.error _, c') => (.ok none, c')
    match ← after with
    | some ']' => failNext .trailingComma
    | _ => failNext .trailingCharacters
  | some _ => failNext .trailingCharacters
  | none => failNext .endInList

/-- The end of an object. -/
def endObject : Reader Unit := do
  match ← gap with
  | some '\x7d' => take
  | some ',' => failNext .trailingComma
  | some _ => failNext .trailingCharacters
  | none => failNext .endInObject

/-! ## Values -/

/-- The items of a list, up to its end. -/
def items {α : Type} (item : Reader α) (first : Bool) : Nat → Reader (List α)
  | 0 => return []
  | fuel + 1 => do
    if ← hasItem first then
      let a ← item
      let rest ← items item false fuel
      return a :: rest
    else return []

/-- The members of an object, up to its end. -/
def members {α : Type} (value : Reader α) (first : Bool) : Nat → Reader (List (String × α))
  | 0 => return []
  | fuel + 1 => do
    if ← hasKey first then
      let key ← string
      colon
      let a ← value
      let rest ← members value false fuel
      return (key, a) :: rest
    else return []

/-- A value whose parts are read by `inner`; no parts may be opened if there is no such reader. -/
def valueOver (inner : Option (Reader Json)) : Reader Json := do
  match ← gap with
  | none => failNext .endInValue
  | some '[' =>
    match inner with
    | none => failNext .nestedTooDeep
    | some inner =>
      take
      return .array (← closing (items inner true (← bound)) endList)
  | some '\x7b' =>
    match inner with
    | none => failNext .nestedTooDeep
    | some inner =>
      take
      return .object (← closing (members inner true (← bound)) endObject)
  | some c =>
    match ← scalar? c with
    | some j => return j
    | none => failNext .expectedValue

/-- A value that may open this many levels. -/
def value : Nat → Reader Json
  | 0 => valueOver none
  | level + 1 => valueOver (some (value level))

/-- Nothing but blanks follows. -/
def finish : Reader Unit := do
  match ← gap with
  | some _ => failNext .trailingCharacters
  | none => return ()

/-- Reads a whole text. -/
def run {α : Type} (r : Reader α) (origin : Origin) (bytes : List UInt8) : Except Fault α :=
  ((do
    let a ← r
    finish
    return a : Reader α) (Cursor.ofBytes origin bytes)).1

end Reader

end Pagewright.Json
