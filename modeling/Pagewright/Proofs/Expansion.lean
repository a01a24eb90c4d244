import Pagewright.Proofs.Denotation
import Pagewright.Proofs.Findings
import Pagewright.Proofs.Validation

/-!
# The elements of a page

A use of a component stands for the body of the component, which may use components in turn. This
module says which elements are written for a document in the end, without any regard to how they
are: each use is replaced by the elements of the body, over and over (`Document.Expands`). There is
one such list at most, and all of its elements come from the document.

The order of the list is that of the page. The values of the class attributes on the page, read from
its tree, are those of the elements of the list, one after the other (`Denotes.expands`), and the
same goes for their names (`Denotes.expands_ids`).
-/

namespace Pagewright

/-! ## The elements that are written -/

namespace Document

/-- **The elements that are written** for a list of elements, in the order in which they are:
containers in front of their content, and in place of a use of a component the elements of the
component's body. The classes that a topbar or a footer brings of itself are not classes of the
element. -/
inductive Expands (doc : Document) : List Element → List Element → Prop where
  | nil : Expands doc [] []
  | element {e : Element} {rest inner tail : List Element}
      (he : ∀ name args, e ≠ .useComponent name args) (hinner : Expands doc e.children inner)
      (hrest : Expands doc rest tail) : Expands doc (e :: rest) (e :: inner ++ tail)
  | useComponent {name : String} {args : List Expression} {component : Component}
      {rest inner tail : List Element} (hc : doc.component? name = some component)
      (hbody : Expands doc component.body inner) (hrest : Expands doc rest tail) :
      Expands doc (.useComponent name args :: rest) (inner ++ tail)

namespace Expands

variable {doc : Document} {es es' elements elements' : List Element}

/-- Lists of elements that follow each other. -/
theorem append (h : doc.Expands es elements) (h' : doc.Expands es' elements') :
    doc.Expands (es ++ es') (elements ++ elements') := by
  induction h with
  | nil => exact h'
  | @element e rest inner tail he hinner _ _ ih =>
    have happend := Expands.element he hinner ih
    rw [← List.append_assoc] at happend
    exact happend
  | @useComponent name args component rest inner tail hc hbody _ _ ih =>
    rw [List.append_assoc]
    exact .useComponent hc hbody ih

/-- **Elements expand in one way at most.** -/
theorem unique (h : doc.Expands es elements) (h' : doc.Expands es elements') :
    elements = elements' := by
  induction h generalizing elements' with
  | nil => cases h'; rfl
  | element he _ _ ihinner ih =>
    cases h' with
    | element _ hinner' hrest' => rw [ihinner hinner', ih hrest']
    | useComponent => exact absurd rfl (he _ _)
  | useComponent hc _ _ ihbody ih =>
    cases h' with
    | element he' => exact absurd rfl (he' _ _)
    | useComponent hc' hbody' hrest' =>
      rw [hc] at hc'
      cases hc'
      rw [ihbody hbody', ih hrest']

/-- An element that is no use of a component, by itself. -/
theorem written {e : Element} {inner : List Element}
    (he : ∀ name args, e ≠ .useComponent name args) (hinner : doc.Expands e.children inner) :
    doc.Expands [e] (e :: inner) := by
  have h := Expands.element he hinner .nil
  rw [List.append_nil] at h
  exact h

/-- A use of a component, by itself. -/
theorem used {name : String} (args : List Expression) {component : Component}
    (hc : doc.component? name = some component) (hbody : doc.Expands component.body elements) :
    doc.Expands [.useComponent name args] elements := by
  have h : doc.Expands [.useComponent name args] (elements ++ []) := .useComponent hc hbody .nil
  rw [List.append_nil] at h
  exact h

end Expands

end Document

/-- Every element that is written stands in the list or in a component. -/
theorem Document.Expands.mem_subelementsOf {doc : Document} {es elements : List Element}
    (h : doc.Expands es elements) {e : Element} (he : e ∈ elements) :
    e ∈ Element.subelementsOf es ∨ ∃ c ∈ doc.components, e ∈ Element.subelementsOf c.body := by
  induction h with
  | nil => cases he
  | @element first rest inner tail _ _ _ ihinner ih =>
    rcases List.mem_append.mp he with he | he
    · rcases List.mem_cons.mp he with rfl | he
      · exact .inl (Element.mem_subelementsOf_cons.mpr (.inl (Element.mem_subelements_self e)))
      · refine (ihinner he).imp_left (fun hmem => ?_)
        exact Element.mem_subelementsOf_cons.mpr
          (.inl (Element.subelementsOf_children_subset first _ hmem))
    · exact (ih he).imp_left (fun hmem => Element.mem_subelementsOf_cons.mpr (.inr hmem))
  | @useComponent name args component rest inner tail hc _ _ ihbody ih =>
    rcases List.mem_append.mp he with he | he
    · refine .inr ((ihbody he).elim (fun hmem => ?_) id)
      exact ⟨component, Document.mem_components_of_component? hc, hmem⟩
    · exact (ih he).imp_left (fun hmem => Element.mem_subelementsOf_cons.mpr (.inr hmem))

/-! ## The class attributes of a tree -/

namespace Dom

/-- The values that attributes of this name have. -/
def valuesOf (name : String) (attrs : List Html.Attribute) : List String :=
  (attrs.filter (·.name = name)).map (·.value)

mutual

/-- The values that attributes of this name have on a node and inside it, in document order. -/
def values (name : String) : Dom → List String
  | .character _ => []
  | .element _ attrs children => valuesOf name attrs ++ valuesAll name children

/-- The values that attributes of this name have on nodes that follow each other. -/
def valuesAll (name : String) : List Dom → List String
  | [] => []
  | node :: rest => values name node ++ valuesAll name rest

end

variable {name : String}

@[simp] theorem valuesOf_nil : valuesOf name [] = [] := rfl

@[simp] theorem valuesOf_cons (a : Html.Attribute) (attrs : List Html.Attribute) :
    valuesOf name (a :: attrs)
      = (if a.name = name then [a.value] else []) ++ valuesOf name attrs := by
  unfold valuesOf
  by_cases h : a.name = name <;> simp [h]

@[simp] theorem valuesOf_append (attrs attrs' : List Html.Attribute) :
    valuesOf name (attrs ++ attrs') = valuesOf name attrs ++ valuesOf name attrs' := by
  unfold valuesOf
  rw [List.filter_append, List.map_append]

@[simp] theorem values_element (tag : String) (attrs : List Html.Attribute)
    (children : List Dom) :
    values name (.element tag attrs children) = valuesOf name attrs ++ valuesAll name children :=
  rfl

@[simp] theorem valuesAll_nil : valuesAll name [] = [] := rfl

@[simp] theorem valuesAll_cons (node : Dom) (rest : List Dom) :
    valuesAll name (node :: rest) = values name node ++ valuesAll name rest := rfl

theorem valuesAll_eq_flatMap (tree : List Dom) :
    valuesAll name tree = tree.flatMap (values name) := by
  induction tree with
  | nil => rfl
  | cons node rest ih => rw [valuesAll_cons, ih, List.flatMap_cons]

@[simp] theorem valuesAll_append (tree tree' : List Dom) :
    valuesAll name (tree ++ tree') = valuesAll name tree ++ valuesAll name tree' := by
  rw [valuesAll_eq_flatMap, valuesAll_eq_flatMap, valuesAll_eq_flatMap, List.flatMap_append]

/-- Texts have no attributes. -/
@[simp] theorem valuesAll_prose (s : String) : valuesAll name (Html.prose s) = [] := by
  unfold Html.prose
  induction s.toList with
  | nil => rfl
  | cons c rest ih =>
    have hchar : valuesAll name (Html.proseChar c) = [] := by
      unfold Html.proseChar
      split
      · rfl
      · split <;> rfl
    rw [List.flatMap_cons, valuesAll_append, hchar, ih, List.append_nil]

end Dom

namespace Element

/-- The classes that the element brings of itself. -/
def ownClasses : Element → List String
  | topbar .. => [topbarClass]
  | footer .. => [footerClass]
  | _ => []

/-- The classes of what the element writes inside its own tag. -/
def innerClasses : Element → List String
  | topbar .. => [topbarHomeClass]
  | _ => []

/-- The value of a class attribute, if there is anything to say. -/
def classValue (classes : List String) : List String :=
  if classes = [] then [] else [" ".intercalate classes]

/-- **The values of the class attributes that the element writes**: its own tag has the classes the
element brings of itself and those it refers to. -/
def classValues (e : Element) : List String :=
  classValue (e.ownClasses ++ e.classes) ++ e.innerClasses

end Element

namespace Document

open Dom Element Markup

variable {doc : Document} {stack : Stack}

/-- An attribute of another name does not count. -/
@[simp] theorem valuesOf_attribute? {name other : String} (h : name ≠ other)
    (value : Option String) : valuesOf other (attribute? name value) = [] := by
  cases value with
  | none => rfl
  | some v => simp [attribute?, valuesOf, h]

/-- Only the classes of an element make a class attribute. -/
theorem valuesOf_denoted? {attrs : Attributes} {own : List String}
    {attrs' : List Html.Attribute} (h : attrs.denoted? stack own = some attrs') :
    valuesOf "class" attrs' = classValue (own ++ attrs.classes) := by
  obtain ⟨style, -, hattrs⟩ := Option.bind_eq_some_iff.mp h
  cases hattrs
  have hstyle : valuesOf "class"
      (if style = [] then [] else [⟨"style", String.join style⟩]) = [] := by
    split <;> rfl
  rw [valuesOf_append, valuesOf_append, valuesOf_attribute? (by decide), hstyle, List.append_nil,
    List.nil_append]
  unfold classValue
  split <;> rfl

/-- The name of an element is the only `id` of its tag. -/
theorem valuesOf_id_denoted? {attrs : Attributes} {own : List String}
    {attrs' : List Html.Attribute} (h : attrs.denoted? stack own = some attrs') :
    valuesOf "id" attrs' = attrs.name.toList := by
  obtain ⟨style, -, hattrs⟩ := Option.bind_eq_some_iff.mp h
  cases hattrs
  have hid : valuesOf "id" (attribute? "id" attrs.name) = attrs.name.toList := by
    cases attrs.name <;> rfl
  have hclass : valuesOf "id" (if own ++ attrs.classes = [] then []
      else [⟨"class", " ".intercalate (own ++ attrs.classes)⟩]) = [] := by
    split <;> rfl
  have hstyle : valuesOf "id" (if style = [] then [] else [⟨"style", String.join style⟩]) = [] := by
    split <;> rfl
  rw [valuesOf_append, valuesOf_append, hid, hclass, hstyle, List.append_nil, List.append_nil]

/-! ## The attributes of single elements -/

/-- The names of the attributes that some elements have beside those that most of them share. -/
def ownAttributes : List String :=
  ["rel", "href", "src", "alt", "onclick", "type", "placeholder", "for"]

/-- The attributes that the element shares with others, if it has any. -/
def sharedAttributes? (stack : Stack) (e : Element) : Option (List Html.Attribute) :=
  e.attributes?.elim (some []) (·.denoted? stack e.ownClasses)

/-- The entries of a topbar have no attributes but their targets. -/
theorem valuesAll_entries? {name : String} (hname : "href" ≠ name) {links : List NavLink}
    {auto : Bool} {entries : List Dom} (h : doc.entries? stack links auto = some entries) :
    valuesAll name entries = [] := by
  rw [valuesAll_eq_flatMap, List.flatMap_eq_nil_iff]
  intro entry hentry
  obtain ⟨target, shown, rfl⟩ := exists_of_mem_entries? h hentry
  simp [hname]

/-- **What a single element writes has the shared attributes of the element and no others**, apart
from attributes of a few names and the classes inside its tag. -/
theorem valuesAll_simple? {name : String} (hname : name ∉ ownAttributes) {e : Element}
    {nodes : List Dom} (h : doc.simple? stack e = some nodes) :
    ∃ attrs', sharedAttributes? stack e = some attrs' ∧
      valuesAll name nodes
        = valuesOf name attrs' ++ if "class" = name then e.innerClasses else [] := by
  have hown : ∀ other ∈ ownAttributes, other ≠ name := by
    rintro other hother rfl
    exact hname hother
  cases e with
  | title text =>
    obtain ⟨shown, -, h⟩ := Option.bind_eq_some_iff.mp h
    cases h
    exact ⟨[], rfl, by simp [innerClasses]⟩
  | icon path =>
    obtain ⟨shown, -, h⟩ := Option.bind_eq_some_iff.mp h
    cases h
    have hrel := hown "rel" (by decide)
    have hhref := hown "href" (by decide)
    exact ⟨[], rfl, by simp [innerClasses, hrel, hhref]⟩
  | linebreak =>
    cases h
    exact ⟨[], rfl, by simp [innerClasses]⟩
  | paragraph attrs text =>
    obtain ⟨attrs', hattrs, h⟩ := Option.bind_eq_some_iff.mp h
    obtain ⟨shown, -, h⟩ := Option.bind_eq_some_iff.mp h
    cases h
    exact ⟨attrs', hattrs, by simp [innerClasses]⟩
  | heading attrs level text =>
    obtain ⟨attrs', hattrs, h⟩ := Option.bind_eq_some_iff.mp h
    obtain ⟨shown, -, h⟩ := Option.bind_eq_some_iff.mp h
    cases h
    exact ⟨attrs', hattrs, by simp [innerClasses]⟩
  | link attrs url text =>
    obtain ⟨attrs', hattrs, h⟩ := Option.bind_eq_some_iff.mp h
    obtain ⟨href, -, h⟩ := Option.bind_eq_some_iff.mp h
    obtain ⟨shown, -, h⟩ := Option.bind_eq_some_iff.mp h
    cases h
    have hhref := hown "href" (by decide)
    exact ⟨attrs', hattrs, by simp [innerClasses, hhref]⟩
  | image attrs path alt =>
    obtain ⟨attrs', hattrs, h⟩ := Option.bind_eq_some_iff.mp h
    obtain ⟨src, -, h⟩ := Option.bind_eq_some_iff.mp h
    obtain ⟨alt', -, h⟩ := Option.bind_eq_some_iff.mp h
    cases h
    have hsrc := hown "src" (by decide)
    have halt := hown "alt" (by decide)
    exact ⟨attrs', hattrs, by simp [innerClasses, hsrc, halt]⟩
  | button attrs text onclick =>
    obtain ⟨attrs', hattrs, h⟩ := Option.bind_eq_some_iff.mp h
    obtain ⟨call, -, h⟩ := Option.bind_eq_some_iff.mp h
    obtain ⟨shown, -, h⟩ := Option.bind_eq_some_iff.mp h
    cases h
    have honclick := hown "onclick" (by decide)
    exact ⟨attrs', hattrs, by simp [innerClasses, honclick]⟩
  | textbox attrs label placeholder labelAfter =>
    obtain ⟨attrs', hattrs, h⟩ := Option.bind_eq_some_iff.mp h
    obtain ⟨hint, -, h⟩ := Option.bind_eq_some_iff.mp h
    obtain ⟨caption, -, h⟩ := Option.bind_eq_some_iff.mp h
    cases h
    have htype := hown "type" (by decide)
    have hplaceholder := hown "placeholder" (by decide)
    have hfor := hown "for" (by decide)
    refine ⟨attrs', hattrs, ?_⟩
    cases caption <;> cases labelAfter <;> simp [innerClasses, htype, hplaceholder, hfor]
  | topbar attrs caption home links autoNavLinks =>
    obtain ⟨attrs', hattrs, h⟩ := Option.bind_eq_some_iff.mp h
    obtain ⟨shown, -, h⟩ := Option.bind_eq_some_iff.mp h
    obtain ⟨target, -, h⟩ := Option.bind_eq_some_iff.mp h
    obtain ⟨entries, hentries, h⟩ := Option.bind_eq_some_iff.mp h
    cases h
    have hhref := hown "href" (by decide)
    refine ⟨attrs', hattrs, ?_⟩
    split <;> simp [innerClasses, hhref, valuesAll_entries? hhref hentries]
  | footer attrs text =>
    obtain ⟨attrs', hattrs, h⟩ := Option.bind_eq_some_iff.mp h
    obtain ⟨shown, -, h⟩ := Option.bind_eq_some_iff.mp h
    cases h
    exact ⟨attrs', hattrs, by simp [innerClasses]⟩
  | div attrs content => cases h
  | sectionBlock attrs caption content => cases h
  | useComponent name args => cases h

/-- A single element is no use of a component, and it has no content. -/
theorem not_useComponent_of_simple? {e : Element} {nodes : List Dom}
    (h : doc.simple? stack e = some nodes) :
    (∀ name args, e ≠ .useComponent name args) ∧ e.children = [] := by
  cases e with
  | div attrs content => cases h
  | sectionBlock attrs caption content => cases h
  | useComponent name args => cases h
  | _ => exact ⟨nofun, rfl⟩

/-- **The attributes of a page are those of its elements**, in order, if they can be told from the
elements alone. -/
theorem Denotes.exists_expands {name : String} (hname : name ∉ ownAttributes)
    {written : Element → List String}
    (hwritten : ∀ stack e attrs', sharedAttributes? stack e = some attrs' →
      (valuesOf name attrs' ++ if "class" = name then e.innerClasses else []) = written e)
    {es : List Element} {tree : List Dom} (h : doc.Denotes stack es tree) :
    ∃ elements, doc.Expands es elements ∧ valuesAll name tree = elements.flatMap written := by
  induction h with
  | nil => exact ⟨[], .nil, rfl⟩
  | @simple stack e nodes rest tree he _ ih =>
    obtain ⟨elements, hexpands, hvalues⟩ := ih
    obtain ⟨huse, hchildren⟩ := not_useComponent_of_simple? he
    have hnone : doc.Expands e.children [] := by
      rw [hchildren]
      exact .nil
    obtain ⟨attrs', hattrs, hnodes⟩ := valuesAll_simple? hname he
    refine ⟨e :: elements, .element huse hnone hexpands, ?_⟩
    rw [valuesAll_append, hnodes, hwritten stack e attrs' hattrs, hvalues, List.flatMap_cons]
  | @div stack attrs attrs' content rest inner tree hattrs _ _ ihcontent ih =>
    obtain ⟨inner', hinner, hvalues⟩ := ihcontent
    obtain ⟨elements, hexpands, hvalues'⟩ := ih
    refine ⟨.div attrs content :: inner' ++ elements, .element nofun hinner hexpands, ?_⟩
    have hself := hwritten stack (.div attrs content) attrs' hattrs
    simp [← hself, hvalues, hvalues', innerClasses]
  | @sectionBlock stack attrs attrs' caption caption' content rest inner tree hattrs _ _ _
      ihcontent ih =>
    obtain ⟨inner', hinner, hvalues⟩ := ihcontent
    obtain ⟨elements, hexpands, hvalues'⟩ := ih
    refine ⟨.sectionBlock attrs caption content :: inner' ++ elements,
      .element nofun hinner hexpands, ?_⟩
    have hself := hwritten stack (.sectionBlock attrs caption content) attrs' hattrs
    cases caption' <;> simp [← hself, hvalues, hvalues', innerClasses]
  | useComponent hc _ _ _ ihbody ih =>
    obtain ⟨inner', hinner, hvalues⟩ := ihbody
    obtain ⟨elements, hexpands, hvalues'⟩ := ih
    refine ⟨inner' ++ elements, .useComponent hc hinner hexpands, ?_⟩
    rw [valuesAll_append, hvalues, hvalues', List.flatMap_append]

/-- **The class attributes of a page are those of its elements**, in order. -/
theorem Denotes.expands {es : List Element} {tree : List Dom} (h : doc.Denotes stack es tree) :
    ∃ elements, doc.Expands es elements ∧
      valuesAll "class" tree = elements.flatMap classValues := by
  refine h.exists_expands (by decide) (fun stack e attrs' hattrs => ?_)
  unfold classValues
  rw [if_pos rfl]
  refine congrArg (· ++ e.innerClasses) ?_
  cases e with
  | linebreak => cases hattrs; rfl
  | useComponent name args => cases hattrs; rfl
  | title text => cases hattrs; rfl
  | icon path => cases hattrs; rfl
  | _ => exact valuesOf_denoted? hattrs

/-- **The `id`s of a page are the names of its elements**, in order. -/
theorem Denotes.expands_ids {es : List Element} {tree : List Dom}
    (h : doc.Denotes stack es tree) :
    ∃ elements, doc.Expands es elements ∧
      valuesAll "id" tree = elements.flatMap (·.name?.toList) := by
  refine h.exists_expands (by decide) (fun stack e attrs' hattrs => ?_)
  rw [if_neg (by decide), List.append_nil]
  cases e with
  | linebreak => cases hattrs; rfl
  | useComponent name args => cases hattrs; rfl
  | title text => cases hattrs; rfl
  | icon path => cases hattrs; rfl
  | _ => exact valuesOf_id_denoted? hattrs

end Document

end Pagewright
