import Pagewright.Json.Read

/-!
# Passing over a value

The value of a name that nobody asked for is passed over. Its brackets have to match and its
strings and numbers have to be well formed, but nothing is made of them: levels are not counted,
surrogates need no partner, bytes need not be characters, and a number may be as large as it
likes. The open brackets are kept in a list, so the depth of the value is not bounded.
-/

namespace Pagewright.Json.Reader

/-- The two kinds of brackets that may be open. -/
inductive Bracket where
  | list
  | object
  deriving DecidableEq, Repr

/-- The problem of a text that ends inside the bracket. -/
def Bracket.endProblem : Bracket → Problem
  | .list => .endInList
  | .object => .endInObject

/-- The problem of an item that is followed by neither a comma nor the closing bracket. -/
def Bracket.commaProblem : Bracket → Problem
  | .list => .expectedCommaOrBracket
  | .object => .expectedCommaOrBrace

/-- The closing bracket. -/
def Bracket.closer : Bracket → Char
  | .list => ']'
  | .object => '\x7d'

/-! ## Strings and numbers -/

/-- An escape whose backslash was taken. -/
def skipEscape : Reader Unit := do
  let c ← nextInString
  if c = 'u' then discard hexUnit
  else if (simpleEscape? c).isSome then return ()
  else failHere .invalidEscape

/-- The rest of a string whose opening quote was taken. In memory, a control character is found
without being taken. -/
def skipString : Nat → Reader Unit
  | 0 => failHere .endInString
  | fuel + 1 => do
    let before ← get
    let c ← nextInString
    if c = '"' then return ()
    else if c = '\\' then
      skipEscape
      skipString fuel
    else if c < ' ' then
      if before.origin = .memory then set before
      failHere .controlCharacter
    else skipString fuel

/-- The exponent of a number, from its letter on. -/
def skipExponent : Reader Unit := do
  take
  let sign ← peek
  if sign = some '+' ∨ sign = some '-' then take
  if ((← next).bind digit?).isSome then discard skipDigits
  else failHere .invalidNumber

/-- What may follow the digits of a number. -/
def skipAfterDigits : Reader Unit := do
  let c ← peek
  if c = some 'e' ∨ c = some 'E' then skipExponent

/-- A number whose sign, if it has one, was taken. -/
def skipNumber : Reader Unit := do
  match (← next).bind digit? with
  | none => failHere .invalidNumber
  | some d =>
    if d = 0 then
      if ((← peek).bind digit?).isSome then failNext .invalidNumber
    else discard skipDigits
    if (← peek) = some '.' then
      take
      if (← skipDigits) = 0 then failNext .invalidNumber
    skipAfterDigits

/-- The value without parts that starts with the character `first`, which is next. -/
def skipScalar (first : Char) : Reader Unit := do
  match first with
  | 'n' =>
    take
    word "ull".toList
  | 't' =>
    take
    word "rue".toList
  | 'f' =>
    take
    word "alse".toList
  | '"' =>
    take
    skipString (← bound)
  | '-' =>
    take
    skipNumber
  | c => if (digit? c).isSome then skipNumber else failNext .expectedValue

/-! ## Whole values -/

/-- The key of a member, and its colon. -/
def skipKey : Reader Unit := do
  match ← gap with
  | some '"' =>
    take
    skipString (← bound)
    colon
  | some _ => failNext .keyNotString
  | none => failNext .endInObject

/-- Where the passing over stands: before a value, or inside brackets, where a comma may come only
after an item. -/
inductive Passing where
  | value
  | inside (afterItem : Bool)

/-- Passes over the rest of a value, with these brackets open, the innermost first. -/
def skipRest (brackets : List Bracket) (at_ : Passing) : Nat → Reader Unit
  | 0 => return ()
  | fuel + 1 => do
    match at_, brackets with
    | .value, _ =>
      match ← gap with
      | none => failNext .endInValue
      | some '[' =>
        take
        skipRest (.list :: brackets) (.inside false) fuel
      | some '\x7b' =>
        take
        skipRest (.object :: brackets) (.inside false) fuel
      | some c =>
        skipScalar c
        skipRest brackets (.inside true) fuel
    | .inside _, [] => return ()
    | .inside afterItem, bracket :: outer =>
      match ← gap with
      | none => failNext bracket.endProblem
      | some c =>
        if c = bracket.closer then
          take
          skipRest outer (.inside true) fuel
        else if afterItem && c != ',' then failNext bracket.commaProblem
        else
          if afterItem then take
          if bracket = .object then skipKey
          skipRest brackets .value fuel

/-- Passes over a value. -/
def skip : Reader Unit := do
  skipRest [] .value (2 * (← bound))

end Pagewright.Json.Reader
