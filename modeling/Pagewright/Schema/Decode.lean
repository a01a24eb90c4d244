import Pagewright.Schema.Shape

/-!
# Reading a shape from a JSON value

A record is an object with a member for each field, or a list of the values of its fields in
order. Members are taken in the order they are written, so the first thing wrong is the one
reported; names that no field has are ignored. A tagged record has its tag under `type`, or first
in its list, and the tag says which layout the rest has.
-/

namespace Pagewright.Schema

open Json (Problem)

/-! ## Choices and tags -/

/-- The value stands for nothing: null, or an object without members. -/
def decodeUnit : Json → Except Problem Unit
  | .null | .object [] => .ok ()
  | j => .error (.wrongType j.found "unit")

/-- A choice is a name, or an object that has the name as its only member. -/
def decodeChoice (kind : ChoiceKind) : Json → Except Problem kind.Value
  | .string name => choose kind.options name
  | .object [(name, j)] => do
    let value ← choose kind.options name
    decodeUnit j
    return value
  | .object _ => .error (.wrongValue .map "map with a single key")
  | j => .error (.wrongType j.found (Shape.choice kind).wanted)

/-- A tag is a name, or its position in the list of names. -/
def decodeTag {α : Type} (options : List (String × α)) : Json → Except Problem α
  | .string name => choose options name
  | .integer (.ofNat i) =>
    match options[i]? with
    | some (_, a) => .ok a
    | none => .error (.wrongValue (.integer i) s!"variant index 0 <= i < {options.length}")
  | j => .error (.wrongType j.found chosenByName)

/-- The tag among the members of an object. -/
def decodeTagOf {α : Type} (options : List (String × α)) :
    Option α → List (String × Json) → Except Problem α
  | some a, [] => .ok a
  | none, [] => .error (.missingField tagName)
  | tag, (name, j) :: rest =>
    if name = tagName then
      match tag with
      | some _ => .error (.duplicateField tagName)
      | none => do decodeTagOf options (some (← decodeTag options j)) rest
    else decodeTagOf options tag rest

/-! ## Fields -/

/-- A field takes a value of its shape, and an optional field takes null for no value. -/
def Field.receive {m : Type → Type} [Monad m] (f : Field) (null : m Bool)
    (value : m f.shape.Value) : m f.Value :=
  match f with
  | ⟨_, _, .optional⟩ => do
    if ← null then return none
    else return some (← value)
  | ⟨_, _, .required⟩ => value
  | ⟨_, _, .default _⟩ => value

/-- The value is null. -/
def isNull : Json → Bool
  | .null => true
  | _ => false

/-- The values of all fields, once the members have been read. -/
def finishFields (fs : List Field) (slots : Slots fs) : Except Problem (Values fs) :=
  match Slots.finish fs slots with
  | .ok values => .ok values
  | .error name => .error (.missingField name)

/-- The values of fields that are all left out, of a record that is written as a list; `position`
fields came before. -/
def absentFields (wanted : String) (position : Nat) :
    (fs : List Field) → Except Problem (Values fs)
  | [] => .ok ()
  | f :: fs =>
    match f.absent? with
    | some value => do return (value, ← absentFields wanted (position + 1) fs)
    | none => .error (.wrongLength position wanted)

/-- A list of so many items was wanted. -/
def itemsWanted (count : Nat) : String :=
  if count = 1 then "1 element in sequence" else s!"{count} elements in sequence"

/-- The list has no more items than the record has fields. -/
def checkLength (fields : List Field) (items : List Json) : Except Problem Unit :=
  if fields.length < items.length then
    .error (.wrongLength items.length (itemsWanted fields.length))
  else .ok ()

/-- The record of these values, which were read from a list of items. -/
def Layout.ofValues {α : Type} (layout : Layout α) (items : List Json)
    (values : Values layout.fields) : Except Problem α := do
  checkLength layout.fields items
  return Curried.apply _ layout.build values

/-- The record of the values that the members of an object gave its fields. -/
def Layout.ofSlots {α : Type} (layout : Layout α) (slots : Slots layout.fields) :
    Except Problem α := do
  return Curried.apply _ layout.build (← finishFields _ slots)

/-! ## Shapes -/

mutual

/-- The value of a shape that a JSON value stands for. -/
def decode : (s : Shape) → Json → Except Problem s.Value
  | .text, .string s => .ok s
  | .flag, .bool b => .ok b
  | .number, .float x => .ok x
  | .number, .integer i => .ok (Float.ofInt i)
  | .byte, .integer i =>
    if 0 ≤ i ∧ i < 256 then .ok i.toNat.toUInt8
    else .error (.wrongValue (.integer i) Shape.byte.wanted)
  | .choice kind, j => decodeChoice kind j
  | .list item, .array items => decodeItems item items
  | .record kind, .array items => do
    kind.layout.ofValues items (← decodeInOrder kind.layout.wanted 0 kind.layout.fields items)
  | .record kind, .object members => do
    kind.layout.ofSlots (← decodeMembers none kind.layout.fields (Slots.empty _) members)
  | .union _, .array [] => .error (.missingField tagName)
  | .union kind, .array (tag :: items) => do
    let layout ← decodeTag kind.layouts tag
    layout.ofValues items (← decodeInOrder layout.wanted 0 layout.fields items)
  | .union kind, .object members => do
    let layout ← decodeTagOf kind.layouts none members
    layout.ofSlots (← decodeMembers (some tagName) layout.fields (Slots.empty _) members)
  | s, j => .error (.wrongType j.found s.wanted)

/-- The values of the items of a list. -/
def decodeItems : (s : Shape) → List Json → Except Problem (List s.Value)
  | _, [] => .ok []
  | s, j :: rest => do
    let value ← decode s j
    let values ← decodeItems s rest
    return value :: values

/-- The values of the fields of a record that is written as a list; `position` fields came
before. -/
def decodeInOrder (wanted : String) (position : Nat) :
    (fs : List Field) → List Json → Except Problem (Values fs)
  | [], _ => .ok ()
  | f :: fs, [] => absentFields wanted position (f :: fs)
  | f :: fs, j :: rest => do
    let value ← f.receive (.ok (isNull j)) (decode f.shape j)
    let values ← decodeInOrder wanted (position + 1) fs rest
    return (value, values)

/-- The values of the fields that the members of an object name; the tag is passed over. -/
def decodeMembers (tag : Option String) (fs : List Field) :
    Slots fs → List (String × Json) → Except Problem (Slots fs)
  | slots, [] => .ok slots
  | slots, (name, j) :: rest => do
    if tag = some name then decodeMembers tag fs slots rest
    else
      let slots ← Slots.fill name (fun f => f.receive (.ok (isNull j)) (decode f.shape j))
        (.error (.duplicateField name)) (.ok ()) fs slots
      decodeMembers tag fs slots rest

end

/-! ## Records by their layout

In `decode` itself these are spelled out, since its recursion is on the items and members. -/

/-- The record whose fields these items are. -/
def Layout.ofItems {α : Type} (layout : Layout α) (items : List Json) : Except Problem α := do
  layout.ofValues items (← decodeInOrder layout.wanted 0 layout.fields items)

/-- The record whose fields these members name. -/
def Layout.ofMembers {α : Type} (layout : Layout α) (members : List (String × Json)) :
    Except Problem α := do
  layout.ofSlots (← decodeMembers none layout.fields (Slots.empty _) members)

end Pagewright.Schema
