import Mathlib.Data.List.Forall2
import Pagewright.Document.Store
import Pagewright.Generation.Markup
import Pagewright.Proofs.Evaluation
import Pagewright.Proofs.Html.Escape

/-!
# What a document denotes

A document denotes a tree: its expressions have their values, and an element that uses a component
is replaced by what the body of the component denotes with the arguments in place of the parameters.
This module says which tree that is, without any regard to how the page is written. There is no
run, there are no classes to look up, and there is no limit to how deep components go; a document
whose expansion fails or does not end denotes nothing.
-/

namespace Pagewright

/-! ## Values -/

/-- The value of an expression, if it has one. -/
def Expression.value? (stack : Stack) (e : Expression) : Option Value :=
  (e.evaluate stack).result.toOption

/-- The value of an expression as it is shown. -/
def Expression.text? (stack : Stack) (e : Expression) : Option String :=
  (e.value? stack).map Value.display

/-- The properties that are lengths. -/
def Property.lengths : List Property :=
  [.fontSize, .height, .width, .size]

/-- What a property is called in a style: there is no `text-color` and no `size` in styles, and all
others go by the names that documents have for them. -/
def Property.styleName (property : Property) : String :=
  match property with
  | .textColor => "color"
  | .size => "font-size"
  | _ => property.name

/-- **What a value comes to in a style**: a number that is a length counts pixels, and all else is
as it is shown. -/
def Property.styleText (property : Property) : Value → String
  | .number x => if property ∈ lengths then numberText x ++ "px" else numberText x
  | .text s => s

/-- The name and the value that a declaration has in a style. -/
def Declaration.style? (stack : Stack) (d : Declaration) : Option (String × String) :=
  (d.value.value? stack).map fun v => (d.property.styleName, d.property.styleText v)

/-- A property with its value, as it stands in the style of an element. -/
def Declaration.text? (stack : Stack) (d : Declaration) : Option String :=
  (d.style? stack).map fun style => style.1 ++ ":" ++ style.2 ++ ";"

/-- The call that a click makes: the function with literals for the values of its arguments. -/
def Click.call? (stack : Stack) (click : Click) : Option String :=
  (click.arguments.mapM (Expression.value? stack)).map fun values =>
    click.function ++ "(" ++ ", ".intercalate (values.map Value.scriptLiteral) ++ ")"

/-! ## Elements -/

open Markup (attribute?)
open Html (prose)

/-- The attributes that most elements share: the name, the classes with those the element brings of
itself in front, and the style. Each is there only if there is something to say. -/
def Attributes.denoted? (stack : Stack) (own : List String) (attrs : Attributes) :
    Option (List Html.Attribute) := do
  let style ← attrs.css.mapM (Declaration.text? stack)
  let classes := own ++ attrs.classes
  return attribute? "id" attrs.name ++
    (if classes = [] then [] else [⟨"class", " ".intercalate classes⟩]) ++
    (if style = [] then [] else [⟨"style", String.join style⟩])

namespace Document

/-- What an entry of a topbar denotes. It shows its text, or else the name of its target. -/
def entry? (stack : Stack) (target : String) (text : Option Expression) : Option Dom := do
  let shown := (← text.mapM (Expression.text? stack)).getD target
  return .element "li" [] [.element "a" [⟨"href", "#" ++ target⟩] (prose shown)]

/-- What the entries of a topbar denote: every named section of the document, its title evaluated
outside all components, or else those that the topbar lists. -/
def entries? (doc : Document) (stack : Stack) (links : List NavLink) (auto : Bool) :
    Option (List Dom) :=
  if auto then doc.landmarks.mapM fun landmark => entry? .empty landmark.name landmark.title
  else links.mapM fun link => entry? stack link.target link.text

/-- What an element denotes that is neither a container nor a use of a component. -/
def simple? (doc : Document) (stack : Stack) : Element → Option (List Dom)
  | .title text => do
    return [.element "title" [] (prose (← text.text? stack))]
  | .icon path => do
    return [.element "link" [⟨"rel", "icon"⟩, ⟨"href", ← path.text? stack⟩] []]
  | .paragraph attrs text => do
    return [.element "p" (← attrs.denoted? stack []) (prose (← text.text? stack))]
  | .heading attrs level text => do
    return [.element s!"h{level.toNat}" (← attrs.denoted? stack []) (prose (← text.text? stack))]
  | .link attrs url text => do
    let attrs ← attrs.denoted? stack []
    let href ← url.text? stack
    return [.element "a" (attrs ++ [⟨"href", href⟩]) (prose (← (text.getD url).text? stack))]
  | .image attrs path alt => do
    let attrs ← attrs.denoted? stack []
    let src ← path.text? stack
    let alt ← alt.mapM (Expression.text? stack)
    return [.element "img" (attrs ++ ⟨"src", src⟩ :: attribute? "alt" alt) []]
  | .button attrs text onclick => do
    let attrs ← attrs.denoted? stack []
    let call ← onclick.mapM (Click.call? stack)
    return [.element "button" (attrs ++ attribute? "onclick" call) (prose (← text.text? stack))]
  | .textbox attrs label placeholder labelAfter => do
    let common ← attrs.denoted? stack []
    let hint ← placeholder.mapM (Expression.text? stack)
    let caption ← label.mapM (Expression.text? stack)
    let input := Dom.element "input"
      (common ++ ⟨"type", "text"⟩ :: attribute? "placeholder" hint) []
    let label := caption.toList.map fun s =>
      Dom.element "label" (attribute? "for" attrs.name) (prose s)
    return if labelAfter then input :: label else label ++ [input]
  | .linebreak => some [.element "br" [] []]
  | .topbar attrs caption home links autoNavLinks => do
    let attrs ← attrs.denoted? stack [topbarClass]
    let caption ← caption.text? stack
    let home ← home.mapM (Expression.text? stack)
    let entries ← doc.entries? stack links autoNavLinks
    let homeLink := Dom.element "a" [⟨"class", topbarHomeClass⟩, ⟨"href", home.getD "#"⟩]
      (prose caption)
    let navigation :=
      if entries = [] then [] else [Dom.element "nav" [] [.element "ul" [] entries]]
    return [.element "header" attrs (homeLink :: navigation)]
  | .footer attrs text => do
    let attrs ← attrs.denoted? stack [footerClass]
    return [.element "footer" attrs [.element "p" [] (prose (← text.text? stack))]]
  | .div .. | .sectionBlock .. | .useComponent .. => none

/-- **The tree that elements denote** inside the frames of a stack. Containers hold what their
content denotes, a section behind its title; a use of a component denotes what the component's body
denotes in a frame with the values of the arguments. -/
inductive Denotes (doc : Document) : Stack → List Element → List Dom → Prop where
  | nil (stack : Stack) : Denotes doc stack [] []
  | simple {stack : Stack} {e : Element} {nodes : List Dom} {rest : List Element}
      {tree : List Dom} (he : doc.simple? stack e = some nodes)
      (hrest : Denotes doc stack rest tree) : Denotes doc stack (e :: rest) (nodes ++ tree)
  | div {stack : Stack} {attrs : Attributes} {attrs' : List Html.Attribute}
      {content rest : List Element} {inner tree : List Dom}
      (hattrs : attrs.denoted? stack [] = some attrs') (hcontent : Denotes doc stack content inner)
      (hrest : Denotes doc stack rest tree) :
      Denotes doc stack (.div attrs content :: rest) (.element "div" attrs' inner :: tree)
  | sectionBlock {stack : Stack} {attrs : Attributes} {attrs' : List Html.Attribute}
      {caption : Option Expression} {caption' : Option String} {content rest : List Element}
      {inner tree : List Dom} (hattrs : attrs.denoted? stack [] = some attrs')
      (hcaption : caption.mapM (Expression.text? stack) = some caption')
      (hcontent : Denotes doc stack content inner) (hrest : Denotes doc stack rest tree) :
      Denotes doc stack (.sectionBlock attrs caption content :: rest)
        (.element "section" attrs'
          (caption'.toList.map (fun s => .element "h2" [] (prose s)) ++ inner) :: tree)
  | useComponent {stack : Stack} {name : String} {args : List Expression} {component : Component}
      {frame : Frame} {rest : List Element} {inner tree : List Dom}
      (hc : doc.component? name = some component)
      (hframe : (component.bind args stack).result = .ok frame)
      (hbody : Denotes doc (stack.push frame) component.body inner)
      (hrest : Denotes doc stack rest tree) :
      Denotes doc stack (.useComponent name args :: rest) (inner ++ tree)

namespace Denotes

variable {doc : Document} {stack : Stack}

/-- An element that is neither a container nor a use of a component, by itself. -/
theorem single {e : Element} {nodes : List Dom} (h : doc.simple? stack e = some nodes) :
    doc.Denotes stack [e] nodes := by
  have hnil := Denotes.simple h (.nil stack)
  rw [List.append_nil] at hnil
  exact hnil

/-- Lists of elements that follow each other denote trees that follow each other. -/
theorem append {es es' : List Element} {tree tree' : List Dom} (h : doc.Denotes stack es tree)
    (h' : doc.Denotes stack es' tree') : doc.Denotes stack (es ++ es') (tree ++ tree') := by
  induction h with
  | nil => exact h'
  | simple he _ ih =>
    rw [List.append_assoc]
    exact .simple he (ih h')
  | div hattrs hcontent _ _ ih => exact .div hattrs hcontent (ih h')
  | sectionBlock hattrs hcaption hcontent _ _ ih =>
    exact .sectionBlock hattrs hcaption hcontent (ih h')
  | useComponent hc hframe hbody _ _ ih =>
    rw [List.append_assoc]
    exact .useComponent hc hframe hbody (ih h')

/-- **Elements denote one tree at most.** -/
theorem unique {es : List Element} {tree tree' : List Dom} (h : doc.Denotes stack es tree)
    (h' : doc.Denotes stack es tree') : tree = tree' := by
  induction h generalizing tree' with
  | nil => cases h'; rfl
  | simple he _ ih =>
    -- The rules do not overlap, since `simple?` has nothing for containers and uses.
    cases h' with
    | simple he' hrest' =>
      rw [he] at he'
      cases he'
      exact congrArg _ (ih hrest')
    | div => cases he
    | sectionBlock => cases he
    | useComponent => cases he
  | div hattrs _ _ ihcontent ih =>
    cases h' with
    | simple he' => cases he'
    | div hattrs' hcontent' hrest' =>
      rw [hattrs] at hattrs'
      cases hattrs'
      rw [ihcontent hcontent', ih hrest']
  | sectionBlock hattrs hcaption _ _ ihcontent ih =>
    cases h' with
    | simple he' => cases he'
    | sectionBlock hattrs' hcaption' hcontent' hrest' =>
      rw [hattrs] at hattrs'
      rw [hcaption] at hcaption'
      cases hattrs'
      cases hcaption'
      rw [ihcontent hcontent', ih hrest']
  | useComponent hc hframe _ _ ihbody ih =>
    cases h' with
    | simple he' => cases he'
    | useComponent hc' hframe' hbody' hrest' =>
      rw [hc] at hc'
      cases hc'
      rw [hframe] at hframe'
      cases hframe'
      rw [ihbody hbody', ih hrest']

end Denotes

end Document

/-! ## Lists of things that denote something -/

/-- A list is gone through item by item. -/
theorem forall₂_of_mapM {α β : Type} {f : α → Option β} {xs : List α} {ys : List β}
    (h : xs.mapM f = some ys) : List.Forall₂ (fun x y => f x = some y) xs ys := by
  induction xs generalizing ys with
  | nil =>
    cases h
    exact .nil
  | cons x xs ih =>
    rw [List.mapM_cons] at h
    obtain ⟨y, hy, h⟩ := Option.bind_eq_some_iff.mp h
    obtain ⟨rest, hrest, h⟩ := Option.bind_eq_some_iff.mp h
    cases h
    exact .cons hy (ih hrest)

theorem exists_of_mem_mapM {α β : Type} {f : α → Option β} {xs : List α} {ys : List β}
    (h : xs.mapM f = some ys) {y : β} (hy : y ∈ ys) : ∃ x ∈ xs, f x = some y := by
  obtain ⟨hlength, hget⟩ := List.forall₂_iff_get.mp (forall₂_of_mapM h)
  obtain ⟨i, hi, rfl⟩ := List.getElem_of_mem hy
  exact ⟨xs[i], List.getElem_mem _, hget i (hlength ▸ hi) hi⟩

namespace Document

/-- **An entry is an item that holds a link** to its target. -/
theorem exists_of_entry? {stack : Stack} {target : String} {text : Option Expression} {node : Dom}
    (h : entry? stack target text = some node) :
    ∃ shown, node
      = .element "li" [] [.element "a" [⟨"href", "#" ++ target⟩] (prose shown)] := by
  obtain ⟨shown, -, h⟩ := Option.bind_eq_some_iff.mp h
  cases h
  exact ⟨_, rfl⟩

/-- Whether a topbar lists the sections or has links of its own, it holds nothing but entries. -/
theorem exists_of_mem_entries? {doc : Document} {stack : Stack} {links : List NavLink}
    {auto : Bool} {items : List Dom} (h : doc.entries? stack links auto = some items) {item : Dom}
    (hitem : item ∈ items) :
    ∃ target shown, item
      = .element "li" [] [.element "a" [⟨"href", "#" ++ target⟩] (prose shown)] := by
  unfold entries? at h
  split at h
  · obtain ⟨landmark, -, hentry⟩ := exists_of_mem_mapM h hitem
    exact ⟨landmark.name, exists_of_entry? hentry⟩
  · obtain ⟨link, -, hentry⟩ := exists_of_mem_mapM h hitem
    exact ⟨link.target, exists_of_entry? hentry⟩

end Document

end Pagewright
