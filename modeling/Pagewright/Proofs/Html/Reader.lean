import Pagewright.Html.Tree

/-!
# Reading markup

What markup says is what a reader makes of it. The reader of this module knows as much of HTML as
it needs: opening and closing tags, attributes between double quotes, elements that have no content
and are not closed, and references to characters by name or by number. Everything else is refused.
It has no knowledge of the writer, except that a line break outside a tag and the blanks at the
start of a line are there for the eye only.

The reader takes one character at a time. Its state is where in the text it stands (`Mode`) and the
part of the tree that it has read (`PartialTree`): the nodes of the innermost element that is still
open, and around them the elements that are waiting for their closing tags.
-/

namespace Pagewright

/-- A node of a page as it is read. Text stands as its single characters, so there is one way only
to give it. -/
inductive Dom where
  | character (c : Char)
  | element (tag : String) (attrs : List Html.Attribute) (children : List Dom)
  deriving Repr, Inhabited

namespace Html

/-- Elements that have no content and are not closed. -/
def voidTags : List String := ["br", "img", "input", "link"]

/-! ## References -/

/-- The characters that can be referred to by name. -/
def namedReferences : List (String × Char) :=
  [("lt", '<'), ("gt", '>'), ("amp", '&'), ("quot", '"')]

/-- The character that is meant by a reference, given what stands between `&` and `;`. -/
def decodeReference : List Char → Option Char
  | '#' :: digits =>
    if digits ≠ [] ∧ digits.all Char.isDigit then
      some (Char.ofNat (Nat.ofDigitChars 10 digits 0))
    else none
  | name => namedReferences.lookup (String.ofList name)

namespace Reader

/-! ## The tree so far -/

/-- An element that waits for its closing tag. -/
structure Opened where
  tag : String
  attrs : List Attribute
  /-- The nodes in front of the element. -/
  before : List Dom

/-- A tree that has been read in part. -/
structure PartialTree where
  /-- The nodes of the innermost open element so far. -/
  nodes : List Dom
  /-- The open elements, the innermost first. -/
  opened : List Opened

namespace PartialTree

/-- Nothing has been read. -/
def empty : PartialTree := ⟨[], []⟩

/-- More nodes have been read. -/
def extend (tree : PartialTree) (nodes : List Dom) : PartialTree :=
  { tree with nodes := tree.nodes ++ nodes }

/-- An opening tag has been read. -/
def enter (tree : PartialTree) (tag : String) (attrs : List Attribute) : PartialTree :=
  if tag ∈ voidTags then tree.extend [.element tag attrs []]
  else ⟨[], ⟨tag, attrs, tree.nodes⟩ :: tree.opened⟩

/-- A closing tag has been read. It must belong to the innermost open element. -/
def leave? (tree : PartialTree) (tag : String) : Option PartialTree :=
  match tree.opened with
  | [] => none
  | outer :: rest =>
    if outer.tag = tag then
      some ⟨outer.before ++ [.element outer.tag outer.attrs tree.nodes], rest⟩
    else none

end PartialTree

/-! ## The place in the text -/

/-- An opening tag that has been read in part: its name and the attributes that are complete. -/
structure Tag where
  name : List Char
  attrs : List Attribute

/-- Where in the text the reader stands. What has been read of a name or a value comes along. -/
inductive Mode where
  /-- At the start of a line, among blanks. -/
  | margin
  /-- Between tags. -/
  | content
  /-- In a reference between tags. -/
  | reference (name : List Char)
  /-- Behind the `<` of a tag. -/
  | tagStart
  | openingName (name : List Char)
  | closingName (name : List Char)
  | attributeName (tag : Tag) (name : List Char)
  /-- Behind the `=` of an attribute. -/
  | equalSign (tag : Tag) (name : List Char)
  /-- Between the quotes of an attribute. -/
  | value (tag : Tag) (name value : List Char)
  /-- In a reference between the quotes of an attribute. -/
  | valueReference (tag : Tag) (name value reference : List Char)
  /-- Behind an attribute. -/
  | afterValue (tag : Tag)

/-- The state of the reader. -/
structure State where
  mode : Mode
  tree : PartialTree

/-- A character between tags. -/
def contentStep (tree : PartialTree) (c : Char) : State :=
  if c = '<' then ⟨.tagStart, tree⟩
  else if c = '&' then ⟨.reference [], tree⟩
  else if c = '\n' then ⟨.margin, tree⟩
  else ⟨.content, tree.extend [.character c]⟩

/-- Takes one character. -/
def step : State → Char → Option State
  | ⟨.margin, tree⟩, c => if c = ' ' then some ⟨.margin, tree⟩ else some (contentStep tree c)
  | ⟨.content, tree⟩, c => some (contentStep tree c)
  | ⟨.reference name, tree⟩, c =>
    if c = ';' then (decodeReference name).map fun d => ⟨.content, tree.extend [.character d]⟩
    else some ⟨.reference (name ++ [c]), tree⟩
  | ⟨.tagStart, tree⟩, c =>
    if c = '/' then some ⟨.closingName [], tree⟩
    else if c.isAlphanum then some ⟨.openingName [c], tree⟩
    else none
  | ⟨.openingName name, tree⟩, c =>
    if c = '>' then some ⟨.content, tree.enter (String.ofList name) []⟩
    else if c = ' ' then some ⟨.attributeName ⟨name, []⟩ [], tree⟩
    else if c.isAlphanum then some ⟨.openingName (name ++ [c]), tree⟩
    else none
  | ⟨.closingName name, tree⟩, c =>
    if c = '>' then (tree.leave? (String.ofList name)).map fun tree => ⟨.content, tree⟩
    else if c.isAlphanum then some ⟨.closingName (name ++ [c]), tree⟩
    else none
  | ⟨.attributeName tag name, tree⟩, c =>
    if c = '=' ∧ name ≠ [] then some ⟨.equalSign tag name, tree⟩
    else if c.isAlphanum then some ⟨.attributeName tag (name ++ [c]), tree⟩
    else none
  | ⟨.equalSign tag name, tree⟩, c =>
    if c = '"' then some ⟨.value tag name [], tree⟩ else none
  | ⟨.value tag name value, tree⟩, c =>
    if c = '"' then
      some ⟨.afterValue
        { tag with attrs := tag.attrs ++ [⟨String.ofList name, String.ofList value⟩] }, tree⟩
    else if c = '&' then some ⟨.valueReference tag name value [], tree⟩
    else some ⟨.value tag name (value ++ [c]), tree⟩
  | ⟨.valueReference tag name value reference, tree⟩, c =>
    if c = ';' then
      (decodeReference reference).map fun d => ⟨.value tag name (value ++ [d]), tree⟩
    else some ⟨.valueReference tag name value (reference ++ [c]), tree⟩
  | ⟨.afterValue tag, tree⟩, c =>
    if c = '>' then some ⟨.content, tree.enter (String.ofList tag.name) tag.attrs⟩
    else if c = ' ' then some ⟨.attributeName tag [], tree⟩
    else none

/-- The nodes that have been read, if the text may end here: between tags, with no element open. -/
def State.finished? : State → Option (List Dom)
  | ⟨.margin, ⟨nodes, []⟩⟩ | ⟨.content, ⟨nodes, []⟩⟩ => some nodes
  | _ => none

end Reader

/-- **The nodes that a text says**, if it is markup at all. -/
def read (s : String) : Option (List Dom) := do
  let state ← s.toList.foldlM Reader.step ⟨.margin, .empty⟩
  state.finished?

namespace Reader

/-! ## Reading on -/

/-- **From one state the reader comes to another** over these characters. -/
def Reads (s : State) (cs : List Char) (s' : State) : Prop :=
  cs.foldlM step s = some s'

theorem Reads.nil (s : State) : Reads s [] s := rfl

theorem Reads.cons {s s₁ s₂ : State} {c : Char} {cs : List Char} (hc : step s c = some s₁)
    (hcs : Reads s₁ cs s₂) : Reads s (c :: cs) s₂ := by
  unfold Reads
  rw [List.foldlM_cons, hc]
  exact hcs

theorem Reads.single {s s₁ : State} {c : Char} (hc : step s c = some s₁) : Reads s [c] s₁ :=
  Reads.cons hc (Reads.nil s₁)

theorem Reads.append {s s₁ s₂ : State} {cs ds : List Char} (hcs : Reads s cs s₁)
    (hds : Reads s₁ ds s₂) : Reads s (cs ++ ds) s₂ := by
  unfold Reads
  rw [List.foldlM_append, show cs.foldlM step s = some s₁ from hcs]
  exact hds

/-- A text over which the reader comes to the end of all elements says the nodes read by then. -/
theorem read_eq_some {s : String} {nodes : List Dom}
    (h : Reads ⟨.margin, .empty⟩ s.toList ⟨.margin, ⟨nodes, []⟩⟩) : read s = some nodes := by
  unfold read
  rw [show s.toList.foldlM step ⟨.margin, .empty⟩ = some ⟨.margin, ⟨nodes, []⟩⟩ from h]
  rfl

/-! ## The tree so far -/

namespace PartialTree

@[simp] theorem extend_nil (tree : PartialTree) : tree.extend [] = tree := by
  unfold extend
  rw [List.append_nil]

@[simp] theorem extend_extend (tree : PartialTree) (a b : List Dom) :
    (tree.extend a).extend b = tree.extend (a ++ b) := by
  unfold extend
  rw [List.append_assoc]

theorem enter_void (tree : PartialTree) {tag : String} (h : tag ∈ voidTags)
    (attrs : List Attribute) : tree.enter tag attrs = tree.extend [.element tag attrs []] :=
  if_pos h

/-- **Nodes between an opening tag and its closing tag** become the children of one element. -/
theorem leave?_enter (tree : PartialTree) {tag : String} (h : tag ∉ voidTags)
    (attrs : List Attribute) (children : List Dom) :
    ((tree.enter tag attrs).extend children).leave? tag
      = some (tree.extend [.element tag attrs children]) := by
  unfold enter
  rw [if_neg h]
  exact if_pos rfl

end PartialTree

end Reader

end Html

end Pagewright
