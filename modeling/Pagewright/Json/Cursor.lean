import Pagewright.Json.Problem

/-!
# Reading bytes

A JSON text is read byte by byte, with a look at the next byte where the grammar needs one. The
cursor is the place reached, and every error carries the place it belongs to: the byte that cannot
continue the text, or the last byte of what was just read.

A text can come from memory or from a stream, and the two count places differently. In memory,
looking at a byte costs nothing. From a stream, a byte that was looked at has left the stream, so
the place of an error found right after a look already counts that byte. A stream may also fail
when it is asked for a byte past its end.
-/

namespace Pagewright.Json

/-- A place in a text: lines count from one, and the column is the number of bytes of the line up
to the place. -/
structure Place where
  line : Nat
  column : Nat
  deriving DecidableEq, Repr

namespace Place

/-- Before the first byte. -/
def start : Place := ⟨1, 0⟩

/-- The place after one more byte. -/
def step (p : Place) (b : UInt8) : Place :=
  if b = 10 then ⟨p.line + 1, 0⟩ else ⟨p.line, p.column + 1⟩

end Place

/-- Where a text comes from. -/
inductive Origin where
  /-- The whole text is in memory. -/
  | memory
  /-- The text comes byte by byte; after its last byte the stream ends, or fails for this
  reason. -/
  | stream (failure : Option String)
  deriving DecidableEq, Repr

/-- A text being read. -/
structure Cursor where
  /-- The bytes not yet taken. -/
  rest : List UInt8
  /-- The place after the bytes taken. -/
  place : Place
  /-- The next byte has been looked at. -/
  ahead : Bool
  origin : Origin
  deriving Repr

namespace Cursor

/-- At the start of a text. -/
def ofBytes (origin : Origin) (bytes : List UInt8) : Cursor :=
  ⟨bytes, .start, false, origin⟩

/-- The place after the next byte. -/
def following (c : Cursor) : Place :=
  match c.rest with
  | [] => c.place
  | b :: _ => c.place.step b

/-- The place of an error about what was just read. -/
def here (c : Cursor) : Place :=
  match c.origin with
  | .memory => c.place
  | .stream _ => if c.ahead then c.following else c.place

/-- The place of an error about the next byte. -/
def next (c : Cursor) : Place :=
  match c.origin with
  | .memory => c.following
  | .stream _ => c.here

/-- The cursor after the next byte. -/
def drop (c : Cursor) : Cursor :=
  match c.rest with
  | [] => c
  | b :: rest => { c with rest := rest, place := c.place.step b, ahead := false }

/-- The byte is a blank between the parts of a JSON text. -/
def isGap (b : UInt8) : Bool :=
  b = 32 || b = 10 || b = 9 || b = 13

/-- The place and the rest after the blanks that start `rest`. -/
def skipGap (place : Place) : List UInt8 → Place × List UInt8
  | [] => (place, [])
  | b :: rest => if isGap b then skipGap (place.step b) rest else (place, b :: rest)

end Cursor

/-- A problem and, once it is known, the place it belongs to. -/
structure Fault where
  problem : Problem
  place : Option Place
  deriving Repr

/-- A step of reading. The cursor outlives a failure, because the place of an error may depend on
what is still read after it was found. -/
abbrev Reader := ExceptT Fault (StateM Cursor)

namespace Reader

/-- Fails at what was just read. -/
def failHere {α : Type} (p : Problem) : Reader α := do
  throw ⟨p, some (← get).here⟩

/-- Fails at the next byte. -/
def failNext {α : Type} (p : Problem) : Reader α := do
  throw ⟨p, some (← get).next⟩

/-- Fails at a place that the reading around it will know. -/
def failUnplaced {α : Type} (p : Problem) : Reader α :=
  throw ⟨p, none⟩

/-- Gives a place to the errors that have none: what was just read. -/
def placed {α : Type} (r : Reader α) : Reader α := fun c =>
  match r c with
  | (.error ⟨p, none⟩, c') => (.error ⟨p, some c'.here⟩, c')
  | result => result

/-- Reads `body` and then `closer`. The closer is read even if the body failed, but then the error
of the body stands. -/
def closing {α : Type} (body : Reader α) (closer : Reader Unit) : Reader α := fun c =>
  match body c with
  | (.error e, c') => (.error e, (closer c').2)
  | (.ok a, c') =>
    match closer c' with
    | (.error e, c'') => (.error e, c'')
    | (.ok (), c'') => (.ok a, c'')

/-- The character of the next byte, which stays where it is; `none` at the end. -/
def peek : Reader (Option Char) := do
  let c ← get
  match c.rest with
  | b :: _ =>
    set { c with ahead := true }
    return some (Char.ofUInt8 b)
  | [] =>
    match c.origin with
    | .stream (some reason) => failUnplaced (.unreadable reason)
    | _ => return none

/-- Takes the next byte. -/
def take : Reader Unit :=
  modify Cursor.drop

/-- Takes the next byte and gives its character; `none` at the end. -/
def next : Reader (Option Char) := do
  let c ← peek
  if c.isSome then take
  return c

/-- Takes the blanks and gives the character after them. -/
def gap : Reader (Option Char) := do
  modify fun c =>
    let (place, rest) := Cursor.skipGap c.place c.rest
    { c with rest := rest, place := place, ahead := false }
  peek

/-- A bound on the number of steps that a loop over the rest of the text can take. -/
def bound : Reader Nat :=
  return (← get).rest.length + 1

end Reader

end Pagewright.Json
