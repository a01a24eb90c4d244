import Pagewright.Json.Cursor

/-!
# Words, strings and numbers

The parts of a JSON text that hold no others. The opening character has been looked at, or taken
where noted, when one of these readers starts.
-/

namespace Pagewright.Json.Reader

/-! ## Words -/

/-- The rest of a word whose first character was taken. -/
def word : List Char → Reader Unit
  | [] => return ()
  | expected :: rest => do
    match ← next with
    | none => failHere .endInValue
    | some c => if c = expected then word rest else failHere .expectedIdent

/-! ## Strings -/

/-- The value of a hexadecimal digit. -/
def hexDigit? (c : Char) : Option Nat :=
  if '0' ≤ c ∧ c ≤ '9' then some (c.toNat - '0'.toNat)
  else if 'a' ≤ c ∧ c ≤ 'f' then some (c.toNat - 'a'.toNat + 10)
  else if 'A' ≤ c ∧ c ≤ 'F' then some (c.toNat - 'A'.toNat + 10)
  else none

/-- The next character of a string that cannot end here. -/
def nextInString : Reader Char := do
  match ← next with
  | none => failHere .endInString
  | some c => return c

/-- Four hexadecimal digits. They are taken before any of them is judged. -/
def hexUnit : Reader Nat := do
  let a ← nextInString
  let b ← nextInString
  let c ← nextInString
  let d ← nextInString
  match hexDigit? a, hexDigit? b, hexDigit? c, hexDigit? d with
  | some a, some b, some c, some d => return ((a * 16 + b) * 16 + c) * 16 + d
  | _, _, _, _ => failHere .invalidEscape

/-- The bytes of a character. -/
def charBytes (n : Nat) : List UInt8 :=
  (String.singleton (Char.ofNat n)).toUTF8.toList

/-- Takes the character if it is the expected one. Anything else is taken too, and refused. -/
def expectInPair (expected : Char) : Reader Unit := do
  match ← peek with
  | none => failHere .endInString
  | some c =>
    take
    if c = expected then return () else failHere .endOfHexEscape

/-- The character of a `\u` escape whose letter was taken. Characters beyond the first 65536 are
written as two escapes, a leading and a trailing surrogate. -/
def unicodeEscape : Reader (List UInt8) := do
  let first ← hexUnit
  if 0xDC00 ≤ first ∧ first ≤ 0xDFFF then failHere .loneSurrogate
  else if first < 0xD800 ∨ 0xDBFF < first then return charBytes first
  else
    expectInPair '\\'
    expectInPair 'u'
    let second ← hexUnit
    if second < 0xDC00 ∨ 0xDFFF < second then failHere .loneSurrogate
    else return charBytes ((first - 0xD800) * 0x400 + (second - 0xDC00) + 0x10000)

/-- The character that an escape other than `\u` stands for. -/
def simpleEscape? (c : Char) : Option Char :=
  match c with
  | '"' => some '"'
  | '\\' => some '\\'
  | '/' => some '/'
  | 'b' => some '\x08'
  | 'f' => some '\x0c'
  | 'n' => some '\n'
  | 'r' => some '\r'
  | 't' => some '\t'
  | _ => none

/-- An escape whose backslash was taken. -/
def escape : Reader (List UInt8) := do
  let c ← nextInString
  if c = 'u' then unicodeEscape
  else
    match simpleEscape? c with
    | some c => return [c.toUInt8]
    | none => failHere .invalidEscape

/-- The bytes of a string up to its closing quote; `taken` holds those before, last one first. -/
def stringBytes (taken : List UInt8) : Nat → Reader (List UInt8)
  | 0 => failHere .endInString
  | fuel + 1 => do
    let c ← nextInString
    if c = '"' then return taken.reverse
    else if c = '\\' then
      let bytes ← escape
      stringBytes (bytes.reverse ++ taken) fuel
    else if c < ' ' then failHere .controlCharacter
    else stringBytes (c.toUInt8 :: taken) fuel

/-- A string whose opening quote is next. -/
def string : Reader String := do
  take
  let bytes ← stringBytes [] (← bound)
  match String.fromUTF8? bytes.toByteArray with
  | some s => return s
  | none => failHere .invalidCodePoint

/-! ## Numbers -/

/-- The value of a decimal digit. -/
def digit? (c : Char) : Option Nat :=
  if '0' ≤ c ∧ c ≤ '9' then some (c.toNat - '0'.toNat) else none

/-- The largest whole number that the digits of a number are collected in. -/
def significandLimit : Nat := Nat.pow 2 64 - 1

/-- Digits after `value`, of which `count` were taken before: the number they make, and how many
were taken. The digit that would make it too large is left. -/
def digits (value count : Nat) : Nat → Reader (Nat × Nat)
  | 0 => return (value, count)
  | fuel + 1 => do
    match (← peek).bind digit? with
    | some d =>
      if significandLimit < value * 10 + d then return (value, count)
      else
        take
        digits (value * 10 + d) (count + 1) fuel
    | none => return (value, count)

/-- Passes over digits, after `count` others. -/
def passDigits (count : Nat) : Nat → Reader Nat
  | 0 => return count
  | fuel + 1 => do
    if ((← peek).bind digit?).isSome then
      take
      passDigits (count + 1) fuel
    else return count

/-- Digits of which nothing is kept, as many as there are. -/
def skipDigits : Reader Nat := do
  passDigits 0 (← bound)

/-- The largest power of ten that there is a double for. -/
def scaleLimit : Nat := 308

/-- The double nearest to a power of ten. -/
def powerOfTen (n : Nat) : Float :=
  Float.ofScientific 1 false n

/-- A double divided by a power of ten. As long as it is not zero, the largest power is divided off
first, in so many steps. -/
def scaleDown (x : Float) (places : Nat) : Nat → Float
  | 0 => x / powerOfTen places
  | steps + 1 =>
    if x == 0 then x
    else scaleDown (x / powerOfTen scaleLimit) (places - scaleLimit) steps

/-- The number `value · 10 ^ exponent` in doubles: the double nearest to `value` is multiplied with
the power of ten or divided by it. The result need not be the double nearest to the number, and
there is none if it is too large. -/
def scaled? (value : Nat) (exponent : Int) : Option Float :=
  let x := Float.ofNat value
  let places := exponent.natAbs
  if exponent < 0 then some (scaleDown x places ((places - 1) / scaleLimit))
  else if places ≤ scaleLimit then
    let y := x * powerOfTen places
    if y.isInf then none else some y
  else if value = 0 then some x
  else none

/-- A decimal number, put together from its parts. -/
def decimal (negative : Bool) (value : Nat) (exponent : Int) : Reader Float := do
  match scaled? value exponent with
  | none => failHere .numberOutOfRange
  | some x => return if negative then -x else x

/-- The largest exponent that is told apart from one without end. -/
def exponentLimit : Nat := Nat.pow 2 31 - 1

/-- The digits of an exponent after `value`; `none` as soon as they pass the limit. -/
def exponentDigits (value : Nat) : Nat → Reader (Option Nat)
  | 0 => return some value
  | fuel + 1 => do
    match (← peek).bind digit? with
    | some d =>
      take
      if exponentLimit < value * 10 + d then return none
      else exponentDigits (value * 10 + d) fuel
    | none => return some value

/-- The exponent of a number, from its letter on. The number so far is `value · 10 ^ shift`. -/
def exponent (negative : Bool) (value : Nat) (shift : Int) : Reader Float := do
  take
  let sign ← peek
  if sign = some '+' ∨ sign = some '-' then take
  let down := sign = some '-'
  match ← next with
  | none => failHere .endInValue
  | some c =>
    match digit? c with
    | none => failHere .invalidNumber
    | some d =>
      match ← exponentDigits d (← bound) with
      | some e => decimal negative value (if down then shift - e else shift + e)
      | none =>
        if value ≠ 0 ∧ ¬ down then failHere .numberOutOfRange
        else
          discard skipDigits
          decimal negative 0 0

/-- What follows the whole part of a number, `value` and `dropped` digits that were too many. -/
def afterWhole (negative : Bool) (value dropped : Nat) : Reader Json := do
  match ← peek with
  | some '.' =>
    take
    let (value, places) ← digits value 0 (← bound)
    let ignored ← skipDigits
    let after ← peek
    if places + ignored = 0 then
      if after.isSome then failNext .invalidNumber else failNext .endInValue
    else if after = some 'e' ∨ after = some 'E' then
      return .float (← exponent negative value (dropped - places))
    else return .float (← decimal negative value (dropped - places))
  | some 'e' | some 'E' => return .float (← exponent negative value dropped)
  | _ =>
    if 0 < dropped then return .float (← decimal negative value dropped)
    else if negative then
      if value = 0 ∨ Nat.pow 2 63 < value then return .float (← decimal true value 0)
      else return .integer (-value)
    else return .integer value

/-- A number whose sign, if it has one, was taken. -/
def number (negative : Bool) : Reader Json := do
  match ← next with
  | none => failHere .endInValue
  | some c =>
    match digit? c with
    | none => failHere .invalidNumber
    | some 0 =>
      if ((← peek).bind digit?).isSome then failNext .invalidNumber
      else afterWhole negative 0 0
    | some d =>
      let (value, _) ← digits d 0 (← bound)
      afterWhole negative value (← skipDigits)

/-! ## Any of them -/

/-- The value without parts that starts with the character `first`, which is next. Nothing is
taken if no such value starts with it. -/
def scalar? (first : Char) : Reader (Option Json) := do
  match first with
  | 'n' =>
    take
    word "ull".toList
    return some .null
  | 't' =>
    take
    word "rue".toList
    return some (.bool true)
  | 'f' =>
    take
    word "alse".toList
    return some (.bool false)
  | '"' => return some (.string (← string))
  | '-' =>
    take
    return some (← number true)
  | c => if (digit? c).isSome then return some (← number false) else return none

end Pagewright.Json.Reader
