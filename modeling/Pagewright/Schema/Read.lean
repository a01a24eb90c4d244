import Pagewright.Json.Skip
import Pagewright.Schema.Decode

/-!
# Reading a shape from a text

Documents, and the records that are not tagged, are read straight from the text: a value of the
wrong type is reported the moment it is met, before anything after it is looked at, and the values
of unknown names are passed over. A tagged record has to be read whole before its layout is known.
It is read into a JSON value first, except for the tag, which is judged where it stands, and the
fields are decoded from that value afterwards.
-/

namespace Pagewright.Schema

open Json (Problem Reader)
open Json.Reader

/-! ## Wrong types and chosen names -/

/-- A problem found in what was just read. -/
def judged {α : Type} : Except Problem α → Reader α
  | .ok a => return a
  | .error p => failUnplaced p

/-- Refuses the value that starts with the character `first`, which is next. A value without parts
is read first. -/
def refuse {α : Type} (wanted : String) (first : Char) : Reader α :=
  placed do
    match first with
    | '[' => failUnplaced (.wrongType .sequence wanted)
    | '\x7b' => failUnplaced (.wrongType .map wanted)
    | c =>
      match ← scalar? c with
      | some j => failUnplaced (.wrongType j.found wanted)
      | none => failNext .expectedValue

/-- The first character of the next value, which has to be there. -/
def startOfValue : Reader Char := do
  match ← gap with
  | some c => return c
  | none => failNext .endInValue

/-- A string. -/
def readText : Reader String := do
  match ← startOfValue with
  | '"' => Reader.string
  | c => refuse Shape.text.wanted c

/-- What a name stands for. -/
def readName {α : Type} (options : List (String × α)) : Reader α := do
  match ← startOfValue with
  | '"' => placed do judged (choose options (← Reader.string))
  | c => refuse chosenByName c

/-- Null. -/
def readNull : Reader Unit := do
  take
  word "ull".toList

/-- Takes null if it is next. -/
def nullIsNext : Reader Bool := do
  match ← gap with
  | some 'n' =>
    readNull
    return true
  | _ => return false

/-- Null, where nothing else may stand. -/
def readUnit : Reader Unit := do
  match ← startOfValue with
  | 'n' => readNull
  | c => refuse "unit" c

/-- A choice, which may open a level. -/
def readChoice (kind : ChoiceKind) (levels : Bool) : Reader kind.Value := do
  match ← startOfValue with
  | '"' => readName kind.options
  | '\x7b' =>
    if levels then
      take
      let value ← readName kind.options
      colon
      readUnit
      match ← gap with
      | some '\x7d' =>
        take
        return value
      | some _ => failHere .expectedValue
      | none => failHere .endInObject
    else failNext .nestedTooDeep
  | _ => failNext .expectedValue

/-! ## Records -/

/-- The readers of what stands one level deeper. -/
structure Inner where
  shape : (s : Shape) → Reader s.Value
  json : Reader Json

/-- The fields of a record that is written as a list; `position` fields came before. -/
def readItems (inner : Inner) (wanted : String) (position : Nat) (first : Bool) :
    (fs : List Field) → Reader (Values fs)
  | [] => return ()
  | f :: fs => do
    if ← hasItem first then
      let value ← f.receive nullIsNext (inner.shape f.shape)
      let values ← readItems inner wanted (position + 1) false fs
      return (value, values)
    else judged (absentFields wanted position (f :: fs))

/-- The fields of a record that is written as an object. -/
def readMembers (inner : Inner) (fs : List Field) (slots : Slots fs) (first : Bool) :
    Nat → Reader (Slots fs)
  | 0 => return slots
  | fuel + 1 => do
    if ← hasKey first then
      let name ← Reader.string
      let slots ← Slots.fill name
        (fun f => do
          colon
          f.receive nullIsNext (inner.shape f.shape))
        (failUnplaced (.duplicateField name))
        (do
          colon
          skip)
        fs slots
      readMembers inner fs slots false fuel
    else return slots

/-- A record. -/
def readRecord {α : Type} (layout : Layout α) (inner : Option Inner) : Reader α := do
  let first ← startOfValue
  placed do
    match first, inner with
    | '[', some inner =>
      take
      let values ← closing (readItems inner layout.wanted 0 true layout.fields) endList
      return Curried.apply _ layout.build values
    | '\x7b', some inner =>
      take
      let values ← closing
        (do
          let slots ← readMembers inner layout.fields (Slots.empty _) true (← bound)
          judged (finishFields _ slots))
        endObject
      return Curried.apply _ layout.build values
    | '[', none | '\x7b', none => failNext .nestedTooDeep
    | c, _ => refuse layout.title c

/-! ## Tagged records -/

/-- The members of a tagged record: what its tag stands for, and the others as they are. -/
def readTagged {α : Type} (options : List (String × α)) (inner : Inner) (tag : Option α)
    (first : Bool) : Nat → Reader (Option α × List (String × Json))
  | 0 => return (tag, [])
  | fuel + 1 => do
    if ← hasKey first then
      let name ← Reader.string
      if name = tagName then
        match tag with
        | some _ => failUnplaced (.duplicateField tagName)
        | none =>
          colon
          let a ← readName options
          readTagged options inner (some a) false fuel
      else
        colon
        let j ← inner.json
        let (tag, rest) ← readTagged options inner tag false fuel
        return (tag, (name, j) :: rest)
    else return (tag, [])

/-- A tagged record. What its fields hold is judged once it has been read, and a problem with them
has no place of its own. -/
def readUnion {α : Type} (title : String) (options : List (String × Layout α))
    (inner : Option Inner) : Reader α := do
  let first ← startOfValue
  let fields : Except Problem α ← placed do
    match first, inner with
    | '[', some inner =>
      take
      closing
        (do
          if ← hasItem true then
            let layout ← readName options
            let items ← items inner.json false (← bound)
            return layout.ofItems items
          else failUnplaced (.missingField tagName))
        endList
    | '\x7b', some inner =>
      take
      closing
        (do
          match ← readTagged options inner none true (← bound) with
          | (some layout, members) => return layout.ofMembers members
          | (none, _) => failUnplaced (.missingField tagName))
        endObject
    | '[', none | '\x7b', none => failNext .nestedTooDeep
    | c, _ => refuse title c
  judged fields

/-! ## Shapes -/

/-- A value of a shape, whose parts are read by `inner`. -/
def readOver (inner : Option Inner) : (s : Shape) → Reader s.Value
  | .text => readText
  | .choice kind => readChoice kind inner.isSome
  | .list item => do
    let first ← startOfValue
    placed do
      match first, inner with
      | '[', some inner =>
        take
        closing (items (inner.shape item) true (← bound)) endList
      | '[', none => failNext .nestedTooDeep
      | c, _ => refuse (Shape.list item).wanted c
  | .record kind => readRecord kind.layout inner
  | .union kind => readUnion (Shape.union kind).wanted kind.layouts inner
  | .flag => readPlain .flag
  | .number => readPlain .number
  | .byte => readPlain .byte
where
  /-- A value without parts. -/
  readPlain (s : Shape) : Reader s.Value := do
    let first ← startOfValue
    placed do
      match first with
      | '[' | '\x7b' => refuse s.wanted first
      | c =>
        match ← scalar? c with
        | some j => judged (decode s j)
        | none => failNext .expectedValue

/-- A value of a shape that may open this many levels. -/
def read : Nat → (s : Shape) → Reader s.Value
  | 0 => readOver none
  | level + 1 => readOver (some ⟨read level, Reader.value level⟩)

end Pagewright.Schema
