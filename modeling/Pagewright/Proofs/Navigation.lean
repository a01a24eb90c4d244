import Mathlib.Data.List.Forall2
import Pagewright.Proofs.Expansion
import Pagewright.Proofs.Fidelity

/-!
# The links of a topbar lead to the sections of the page

A topbar may list the sections of the document by itself. It is then written from a list of names
that has been made beforehand, from the body alone, and wherever the topbar stands the list is the
same. The sections are written on another way, each where it comes up, with its name as the `id` of
its tag. That the links lead somewhere means that both ways meet the same sections.

To say so one has to know what on a page was written for which element. A page does not show it: a
topbar that lists the sections looks like one that has these links of its own, and a section of the
body looks like one of a component. So the elements are put beside their nodes, in the order of the
page, with the number of components around them (`Document.Places`). The tree is the one that the
page is read as, and all its headers and sections are among the nodes.
-/

namespace Pagewright

/-! ## Elements of a tree by their tags -/

namespace Dom

mutual

/-- The elements with this tag, the node itself and those inside it, in document order. -/
def tagged (tag : String) : Dom → List Dom
  | .character _ => []
  | .element t attrs children =>
    (if t = tag then [.element t attrs children] else []) ++ taggedAll tag children

/-- The elements with this tag on nodes that follow each other. -/
def taggedAll (tag : String) : List Dom → List Dom
  | [] => []
  | node :: rest => tagged tag node ++ taggedAll tag rest

end

/-- The attributes of a node. -/
def attributes : Dom → List Html.Attribute
  | .character _ => []
  | .element _ attrs _ => attrs

variable {tag : String}

@[simp] theorem tagged_element (t : String) (attrs : List Html.Attribute) (children : List Dom) :
    tagged tag (.element t attrs children)
      = (if t = tag then [.element t attrs children] else []) ++ taggedAll tag children := rfl

@[simp] theorem taggedAll_nil : taggedAll tag [] = [] := rfl

@[simp] theorem taggedAll_cons (node : Dom) (rest : List Dom) :
    taggedAll tag (node :: rest) = tagged tag node ++ taggedAll tag rest := rfl

theorem taggedAll_eq_flatMap (tree : List Dom) :
    taggedAll tag tree = tree.flatMap (tagged tag) := by
  induction tree with
  | nil => rfl
  | cons node rest ih => rw [taggedAll_cons, ih, List.flatMap_cons]

@[simp] theorem taggedAll_append (tree tree' : List Dom) :
    taggedAll tag (tree ++ tree') = taggedAll tag tree ++ taggedAll tag tree' := by
  rw [taggedAll_eq_flatMap, taggedAll_eq_flatMap, taggedAll_eq_flatMap, List.flatMap_append]

/-- The only elements of a text are line breaks. -/
theorem taggedAll_prose (h : tag ≠ "br") (s : String) : taggedAll tag (Html.prose s) = [] := by
  unfold Html.prose
  induction s.toList with
  | nil => rfl
  | cons c rest ih =>
    have hchar : taggedAll tag (Html.proseChar c) = [] := by
      unfold Html.proseChar
      split
      · rfl
      · split
        · simp [h.symm]
        · rfl
    rw [List.flatMap_cons, taggedAll_append, hchar, ih, List.append_nil]

end Dom

namespace Document

open Dom Element Markup

/-! ## Elements and their nodes -/

/-- **An element on the page.** -/
structure Placement where
  element : Element
  /-- How many components are around the element, each used inside the one before. -/
  depth : Nat
  /-- What is written for the element, with its content. -/
  nodes : List Dom

/-- **What on a page is written for which element**, in the order of the page. The tree is the one
that the elements denote, and a container stands in front of its content. For a use of a component
there is nothing but what is written for the elements of its body. -/
inductive Places (doc : Document) : Stack → List Element → List Placement → List Dom → Prop where
  | nil (stack : Stack) : Places doc stack [] [] []
  | simple {stack : Stack} {e : Element} {nodes : List Dom} {rest : List Element}
      {ps : List Placement} {tree : List Dom} (he : doc.simple? stack e = some nodes)
      (hrest : Places doc stack rest ps tree) :
      Places doc stack (e :: rest) (⟨e, stack.depth, nodes⟩ :: ps) (nodes ++ tree)
  | div {stack : Stack} {attrs : Attributes} {attrs' : List Html.Attribute}
      {content rest : List Element} {inside ps : List Placement} {inner tree : List Dom}
      (hattrs : attrs.denoted? stack [] = some attrs')
      (hcontent : Places doc stack content inside inner) (hrest : Places doc stack rest ps tree) :
      Places doc stack (.div attrs content :: rest)
        (⟨.div attrs content, stack.depth, [.element "div" attrs' inner]⟩ :: (inside ++ ps))
        (.element "div" attrs' inner :: tree)
  | sectionBlock {stack : Stack} {attrs : Attributes} {attrs' : List Html.Attribute}
      {caption : Option Expression} {caption' : Option String} {content rest : List Element}
      {inside ps : List Placement} {inner tree : List Dom}
      (hattrs : attrs.denoted? stack [] = some attrs')
      (hcaption : caption.mapM (Expression.text? stack) = some caption')
      (hcontent : Places doc stack content inside inner) (hrest : Places doc stack rest ps tree) :
      Places doc stack (.sectionBlock attrs caption content :: rest)
        (⟨.sectionBlock attrs caption content, stack.depth,
            [.element "section" attrs'
              (caption'.toList.map (fun s => .element "h2" [] (Html.prose s)) ++ inner)]⟩ ::
          (inside ++ ps))
        (.element "section" attrs'
          (caption'.toList.map (fun s => .element "h2" [] (Html.prose s)) ++ inner) :: tree)
  | useComponent {stack : Stack} {name : String} {args : List Expression} {component : Component}
      {frame : Frame} {rest : List Element} {inside ps : List Placement} {inner tree : List Dom}
      (hc : doc.component? name = some component)
      (hframe : (component.bind args stack).result = .ok frame)
      (hbody : Places doc (stack.push frame) component.body inside inner)
      (hrest : Places doc stack rest ps tree) :
      Places doc stack (.useComponent name args :: rest) (inside ++ ps) (inner ++ tree)

/-- **Whatever elements denote has been written for some of them.** -/
theorem Denotes.exists_places {doc : Document} {stack : Stack} {es : List Element}
    {tree : List Dom} (h : doc.Denotes stack es tree) : ∃ ps, doc.Places stack es ps tree := by
  induction h with
  | nil stack => exact ⟨[], .nil stack⟩
  | simple he _ ih =>
    obtain ⟨ps, hps⟩ := ih
    exact ⟨_, .simple he hps⟩
  | div hattrs _ _ ihcontent ih =>
    obtain ⟨inside, hinside⟩ := ihcontent
    obtain ⟨ps, hps⟩ := ih
    exact ⟨_, .div hattrs hinside hps⟩
  | sectionBlock hattrs hcaption _ _ ihcontent ih =>
    obtain ⟨inside, hinside⟩ := ihcontent
    obtain ⟨ps, hps⟩ := ih
    exact ⟨_, .sectionBlock hattrs hcaption hinside hps⟩
  | useComponent hc hframe _ _ ihbody ih =>
    obtain ⟨inside, hinside⟩ := ihbody
    obtain ⟨ps, hps⟩ := ih
    exact ⟨_, .useComponent hc hframe hinside hps⟩

variable {doc : Document} {stack : Stack} {es : List Element} {ps : List Placement}
  {tree : List Dom}

/-- **No element of the page is left out**: the elements beside the nodes are those that are
written. -/
theorem Places.expands (h : doc.Places stack es ps tree) :
    doc.Expands es (ps.map (·.element)) := by
  induction h with
  | nil => exact .nil
  | @simple _ e _ _ _ _ he _ ih =>
    obtain ⟨huse, hchildren⟩ := not_useComponent_of_simple? he
    have hnone : doc.Expands e.children [] := by
      rw [hchildren]
      exact .nil
    exact .element huse hnone ih
  | div _ _ _ ihcontent ih =>
    rw [List.map_cons, List.map_append]
    exact .element nofun ihcontent ih
  | sectionBlock _ _ _ _ ihcontent ih =>
    rw [List.map_cons, List.map_append]
    exact .element nofun ihcontent ih
  | useComponent hc _ _ _ ihbody ih =>
    rw [List.map_append]
    exact .useComponent hc ihbody ih

/-- An element that is neither a container nor a use of a component is written by itself. -/
theorem Places.exists_simple? (h : doc.Places stack es ps tree) {p : Placement} (hp : p ∈ ps)
    (hchildren : p.element.kind ≠ "Div" ∧ p.element.kind ≠ "Section") :
    ∃ stack', doc.simple? stack' p.element = some p.nodes := by
  induction h with
  | nil => cases hp
  | simple he _ ih =>
    rcases List.mem_cons.mp hp with rfl | hp
    · exact ⟨_, he⟩
    · exact ih hp
  | div _ _ _ ihcontent ih =>
    rcases List.mem_cons.mp hp with rfl | hp
    · exact absurd rfl hchildren.1
    · exact (List.mem_append.mp hp).elim ihcontent ih
  | sectionBlock _ _ _ _ ihcontent ih =>
    rcases List.mem_cons.mp hp with rfl | hp
    · exact absurd rfl hchildren.2
    · exact (List.mem_append.mp hp).elim ihcontent ih
  | useComponent _ _ _ _ ihbody ih => exact (List.mem_append.mp hp).elim ihbody ih

/-- Nothing is written further out than where the elements stand. -/
theorem Places.depth_le (h : doc.Places stack es ps tree) {p : Placement} (hp : p ∈ ps) :
    stack.depth ≤ p.depth := by
  induction h with
  | nil => cases hp
  | simple _ _ ih =>
    rcases List.mem_cons.mp hp with rfl | hp
    · exact Nat.le_refl _
    · exact ih hp
  | div _ _ _ ihcontent ih =>
    rcases List.mem_cons.mp hp with rfl | hp
    · exact Nat.le_refl _
    · exact (List.mem_append.mp hp).elim ihcontent ih
  | sectionBlock _ _ _ _ ihcontent ih =>
    rcases List.mem_cons.mp hp with rfl | hp
    · exact Nat.le_refl _
    · exact (List.mem_append.mp hp).elim ihcontent ih
  | useComponent _ _ _ _ ihbody ih =>
    rcases List.mem_append.mp hp with hp | hp
    · exact Nat.le_of_succ_le (ihbody hp)
    · exact ih hp

/-! ## The entries of a topbar -/

section Entries

variable {α : Type} {context : α → Stack} {target : α → String} {text : α → Option Expression}
  {xs : List α} {items : List Dom}
  (h : List.Forall₂ (fun x item => entry? (context x) (target x) (text x) = some item) xs items)

include h

/-- The items of a list of entries are the entries. -/
theorem taggedAll_li_entries : taggedAll "li" items = items := by
  induction h with
  | nil => rfl
  | cons hitem _ ih =>
    obtain ⟨shown, rfl⟩ := exists_of_entry? hitem
    simp [taggedAll_prose, ih]

/-- The links of a list of entries lead to their targets, one after the other. -/
theorem valuesAll_href_entries : valuesAll "href" items = xs.map ("#" ++ target ·) := by
  induction h with
  | nil => rfl
  | cons hitem _ ih =>
    obtain ⟨shown, rfl⟩ := exists_of_entry? hitem
    simp [ih]

end Entries

/-- There are only items, links and texts among the entries. -/
theorem taggedAll_entries? {links : List NavLink} {auto : Bool} {items : List Dom} {tag : String}
    (htag : tag ∉ ["li", "a", "br"]) (h : doc.entries? stack links auto = some items) :
    taggedAll tag items = [] := by
  simp only [List.mem_cons, List.not_mem_nil, or_false, not_or] at htag
  obtain ⟨hli, ha, hbr⟩ := htag
  rw [taggedAll_eq_flatMap, List.flatMap_eq_nil_iff]
  intro item hitem
  obtain ⟨target, shown, rfl⟩ := exists_of_mem_entries? h hitem
  simp [taggedAll_prose hbr, Ne.symm hli, Ne.symm ha]

/-- **A topbar that lists the sections by itself.** What it lists depends on the body of the
document alone, and it has a list if there is anything to list. -/
theorem topbar_lists {attrs : Attributes} {caption : Expression} {home : Option Expression}
    {links : List NavLink} {nodes : List Dom}
    (h : doc.simple? stack (.topbar attrs caption home links true) = some nodes) :
    (doc.landmarks.mapM fun l => entry? .empty l.name l.title) = some (taggedAll "li" nodes) ∧
      valuesAll "href" (taggedAll "nav" nodes) = doc.landmarks.map ("#" ++ ·.name) ∧
      (taggedAll "nav" nodes = [] ↔ doc.landmarks = []) := by
  obtain ⟨attrs', -, h⟩ := Option.bind_eq_some_iff.mp h
  obtain ⟨shown, -, h⟩ := Option.bind_eq_some_iff.mp h
  obtain ⟨home', -, h⟩ := Option.bind_eq_some_iff.mp h
  obtain ⟨items, hitems, h⟩ := Option.bind_eq_some_iff.mp h
  cases h
  have hnav : taggedAll "nav" items = [] := taggedAll_entries? (by decide) hitems
  change (doc.landmarks.mapM fun l => entry? .empty l.name l.title) = some items at hitems
  have hentries := forall₂_of_mapM hitems
  have hempty : items = [] ↔ doc.landmarks = [] := by
    rw [← List.length_eq_zero_iff, ← List.length_eq_zero_iff, hentries.length_eq]
  have hli := taggedAll_li_entries hentries
  have hhref := valuesAll_href_entries hentries
  by_cases hnone : items = []
  · simp [hnone, hempty.mp hnone, taggedAll_prose]
  · simp [hnone, hempty.not.mp hnone, taggedAll_prose, hitems, hli, hnav, hhref]

/-! ## Headers and sections of the page -/

/-- Tags that are written for elements of one kind only, with the kind. -/
def soleTags : List (String × String) :=
  [("header", "Topbar"), ("section", "Section")]

/-- A heading of any level has another tag. -/
theorem heading_ne {tag : String} (h : 'e' ∈ tag.toList) (level : Nat) : s!"h{level}" ≠ tag := by
  rintro rfl
  rw [toList_heading] at h
  rcases List.mem_cons.mp h with h | h
  · cases h
  · have hdigit := Nat.isDigit_of_mem_toDigits (by decide) (by decide) h
    cases hdigit

/-- An element that is neither a container nor a use of a component writes one of these tags around
all of it, or not at all. -/
theorem taggedAll_simple? {tag kind : String} (htag : (tag, kind) ∈ soleTags) {e : Element}
    {nodes : List Dom} (h : doc.simple? stack e = some nodes) :
    taggedAll tag nodes = if e.kind = kind then nodes else [] := by
  have hletter : 'e' ∈ tag.toList := by
    have hall : ∀ t ∈ soleTags, 'e' ∈ t.1.toList := by decide
    exact hall _ htag
  simp only [soleTags, List.mem_cons, List.not_mem_nil, or_false, Prod.mk.injEq] at htag
  cases e with
  | title text =>
    obtain ⟨shown, -, h⟩ := Option.bind_eq_some_iff.mp h
    cases h
    rcases htag with ⟨rfl, rfl⟩ | ⟨rfl, rfl⟩ <;> simp [taggedAll_prose, Element.kind]
  | icon path =>
    obtain ⟨shown, -, h⟩ := Option.bind_eq_some_iff.mp h
    cases h
    rcases htag with ⟨rfl, rfl⟩ | ⟨rfl, rfl⟩ <;> simp [Element.kind]
  | linebreak =>
    cases h
    rcases htag with ⟨rfl, rfl⟩ | ⟨rfl, rfl⟩ <;> simp [Element.kind]
  | paragraph attrs text =>
    obtain ⟨attrs', -, h⟩ := Option.bind_eq_some_iff.mp h
    obtain ⟨shown, -, h⟩ := Option.bind_eq_some_iff.mp h
    cases h
    rcases htag with ⟨rfl, rfl⟩ | ⟨rfl, rfl⟩ <;> simp [taggedAll_prose, Element.kind]
  | heading attrs level text =>
    obtain ⟨attrs', -, h⟩ := Option.bind_eq_some_iff.mp h
    obtain ⟨shown, -, h⟩ := Option.bind_eq_some_iff.mp h
    cases h
    rw [taggedAll_cons, tagged_element, if_neg (heading_ne hletter level.toNat)]
    rcases htag with ⟨rfl, rfl⟩ | ⟨rfl, rfl⟩ <;> simp [taggedAll_prose, Element.kind]
  | link attrs url text =>
    obtain ⟨attrs', -, h⟩ := Option.bind_eq_some_iff.mp h
    obtain ⟨href, -, h⟩ := Option.bind_eq_some_iff.mp h
    obtain ⟨shown, -, h⟩ := Option.bind_eq_some_iff.mp h
    cases h
    rcases htag with ⟨rfl, rfl⟩ | ⟨rfl, rfl⟩ <;> simp [taggedAll_prose, Element.kind]
  | image attrs path alt =>
    obtain ⟨attrs', -, h⟩ := Option.bind_eq_some_iff.mp h
    obtain ⟨src, -, h⟩ := Option.bind_eq_some_iff.mp h
    obtain ⟨alt', -, h⟩ := Option.bind_eq_some_iff.mp h
    cases h
    rcases htag with ⟨rfl, rfl⟩ | ⟨rfl, rfl⟩ <;> simp [Element.kind]
  | button attrs text onclick =>
    obtain ⟨attrs', -, h⟩ := Option.bind_eq_some_iff.mp h
    obtain ⟨call, -, h⟩ := Option.bind_eq_some_iff.mp h
    obtain ⟨shown, -, h⟩ := Option.bind_eq_some_iff.mp h
    cases h
    rcases htag with ⟨rfl, rfl⟩ | ⟨rfl, rfl⟩ <;> simp [taggedAll_prose, Element.kind]
  | textbox attrs label placeholder labelAfter =>
    obtain ⟨attrs', -, h⟩ := Option.bind_eq_some_iff.mp h
    obtain ⟨hint, -, h⟩ := Option.bind_eq_some_iff.mp h
    obtain ⟨caption, -, h⟩ := Option.bind_eq_some_iff.mp h
    cases h
    rcases htag with ⟨rfl, rfl⟩ | ⟨rfl, rfl⟩ <;> cases caption <;> cases labelAfter <;>
      simp [taggedAll_prose, Element.kind]
  | topbar attrs caption home links autoNavLinks =>
    obtain ⟨attrs', -, h⟩ := Option.bind_eq_some_iff.mp h
    obtain ⟨shown, -, h⟩ := Option.bind_eq_some_iff.mp h
    obtain ⟨target, -, h⟩ := Option.bind_eq_some_iff.mp h
    obtain ⟨items, hitems, h⟩ := Option.bind_eq_some_iff.mp h
    cases h
    rcases htag with ⟨rfl, rfl⟩ | ⟨rfl, rfl⟩
    · have hnone : taggedAll "header" items = [] := taggedAll_entries? (by decide) hitems
      split <;> simp [taggedAll_prose, Element.kind, hnone]
    · have hnone : taggedAll "section" items = [] := taggedAll_entries? (by decide) hitems
      split <;> simp [taggedAll_prose, Element.kind, hnone]
  | footer attrs text =>
    obtain ⟨attrs', -, h⟩ := Option.bind_eq_some_iff.mp h
    obtain ⟨shown, -, h⟩ := Option.bind_eq_some_iff.mp h
    cases h
    rcases htag with ⟨rfl, rfl⟩ | ⟨rfl, rfl⟩ <;> simp [taggedAll_prose, Element.kind]
  | div attrs content => cases h
  | sectionBlock attrs caption content => cases h
  | useComponent name args => cases h

/-- **The headers of a page are its topbars, and the sections are its sections**: whatever has one
of these tags has been written for an element of the kind. -/
theorem Places.taggedAll_eq {tag kind : String} (htag : (tag, kind) ∈ soleTags)
    (h : doc.Places stack es ps tree) :
    taggedAll tag tree = (ps.filter (·.element.kind = kind)).flatMap (·.nodes) := by
  induction h with
  | nil => rfl
  | simple he _ ih =>
    rw [taggedAll_append, taggedAll_simple? htag he, ih, List.filter_cons]
    split <;> simp_all
  | div _ _ _ ihcontent ih =>
    have hdiv : "div" ≠ tag ∧ "Div" ≠ kind := by
      have hall : ∀ t ∈ soleTags, "div" ≠ t.1 ∧ "Div" ≠ t.2 := by decide
      exact hall _ htag
    simp [Element.kind, hdiv, ihcontent, ih]
  | @sectionBlock _ _ _ _ caption' _ _ _ _ _ _ _ _ _ _ ihcontent ih =>
    have hcaption : taggedAll tag
        (caption'.toList.map fun s => .element "h2" [] (Html.prose s)) = [] := by
      have hall : ∀ t ∈ soleTags, "h2" ≠ t.1 ∧ t.1 ≠ "br" := by decide
      obtain ⟨hheading, hbreak⟩ : "h2" ≠ tag ∧ tag ≠ "br" := hall _ htag
      cases caption' with
      | none => rfl
      | some s => simp [hheading, taggedAll_prose hbreak]
    have hsection : "section" = tag ↔ "Section" = kind := by
      have hall : ∀ t ∈ soleTags, ("section" = t.1 ↔ "Section" = t.2) := by decide
      exact hall _ htag
    by_cases hkind : "Section" = kind
    · simp [Element.kind, hsection.mpr hkind, hkind, hcaption, ihcontent, ih]
    · simp [Element.kind, mt hsection.mp hkind, hkind, hcaption, ihcontent, ih]
  | useComponent _ _ _ _ ihbody ih =>
    rw [taggedAll_append, ihbody, ih, List.filter_append, List.flatMap_append]

/-! ## The sections outside components -/

/-- **The `id`s of the sections** that stand inside so many components, in the order of the page. -/
def sectionIds (depth : Nat) (ps : List Placement) : List String :=
  (ps.filter fun p => p.element.kind = "Section" ∧ p.depth = depth).flatMap fun p =>
    p.nodes.flatMap fun node => valuesOf "id" node.attributes

@[simp] theorem sectionIds_append (depth : Nat) (ps ps' : List Placement) :
    sectionIds depth (ps ++ ps') = sectionIds depth ps ++ sectionIds depth ps' := by
  unfold sectionIds
  rw [List.filter_append, List.flatMap_append]

/-- An element that is no section does not count. -/
theorem sectionIds_cons_of_ne {p : Placement} (h : p.element.kind ≠ "Section") (depth : Nat)
    (ps : List Placement) : sectionIds depth (p :: ps) = sectionIds depth ps := by
  simp [sectionIds, h]

/-- Inside a component there is no section that stands further out. -/
theorem sectionIds_of_lt {depth : Nat} (h : ∀ p ∈ ps, depth < p.depth) :
    sectionIds depth ps = [] := by
  have hnone : ps.filter (fun p => p.element.kind = "Section" ∧ p.depth = depth) = [] := by
    refine List.filter_eq_nil_iff.mpr (fun p hp => ?_)
    simp [Nat.ne_of_gt (h p hp)]
  rw [sectionIds, hnone, List.flatMap_nil]

/-- A section counts with its name, if it has one. -/
theorem sectionIds_cons_section {attrs : Attributes} {attrs' : List Html.Attribute}
    (h : attrs.denoted? stack [] = some attrs') {caption : Option Expression}
    {content : List Element} {children : List Dom} :
    sectionIds stack.depth
        (⟨.sectionBlock attrs caption content, stack.depth,
          [.element "section" attrs' children]⟩ :: ps)
      = attrs.name.toList ++ sectionIds stack.depth ps := by
  simp [sectionIds, Element.kind, Dom.attributes, valuesOf_id_denoted? h]

/-- A single element is no section, and there is none inside it. -/
theorem not_section_of_simple? {e : Element} {nodes : List Dom}
    (h : doc.simple? stack e = some nodes) :
    e.kind ≠ "Section" ∧ (subelements e).filterMap landmark? = [] := by
  cases e with
  | div => cases h
  | sectionBlock => cases h
  | useComponent => cases h
  | _ => exact ⟨by simp [Element.kind], rfl⟩

/-- **The sections of a page meet the sections of a document.** The `id`s that are written for
elements, and not for what they use, are the names of the sections among the elements. -/
theorem Places.sectionIds_eq (h : doc.Places stack es ps tree) :
    sectionIds stack.depth ps = ((subelementsOf es).filterMap landmark?).map (·.name) := by
  induction h with
  | nil => rfl
  | simple he _ ih =>
    obtain ⟨hkind, hnone⟩ := not_section_of_simple? he
    rw [sectionIds_cons_of_ne hkind, ih, subelementsOf, List.filterMap_append, hnone,
      List.nil_append]
  | div _ _ _ ihcontent ih =>
    rw [sectionIds_cons_of_ne (by simp [Element.kind]), sectionIds_append, ihcontent, ih,
      subelementsOf, subelements, List.cons_append, List.filterMap_cons_none rfl,
      List.filterMap_append, List.map_append]
  | @sectionBlock _ attrs _ _ _ _ _ _ _ _ _ hattrs _ _ _ ihcontent ih =>
    rw [sectionIds_cons_section hattrs, sectionIds_append, ihcontent, ih]
    cases hname : attrs.name <;> simp [subelementsOf, subelements, landmark?, hname]
  | @useComponent stack _ _ _ _ _ _ _ _ _ _ _ hbody _ _ ih =>
    have hinside : sectionIds stack.depth _ = [] := sectionIds_of_lt fun p hp => hbody.depth_le hp
    rw [sectionIds_append, hinside, ih]
    rfl

/-- **The links of every topbar lead to the sections of the page, one after the other.** A page that
is written can be read, and what is on it can be told apart by the elements it was written for: none
is left out, all headers of the page are topbars and all its sections are sections. Every topbar
that lists the sections by itself, inside however many components, then has the same entries: one
for each named section of the body, containers searched through, in order. They lead to the `id`s of
the sections that stand outside all components, none more and none less, and the list is left out
only if there are none. -/
theorem topbars_list_sections (doc : Document) (source : ClassSource) (run run' : Run)
    (text : String) (h : (ExceptT.run (doc.emitBody source)).run run = (.ok text, run')) :
    ∃ tree, Html.read text = some tree ∧ (∃ ps, doc.Places .empty doc.body ps tree) ∧
      ∀ ps, doc.Places .empty doc.body ps tree →
        doc.Expands doc.body (ps.map (·.element)) ∧
        taggedAll "header" tree = (ps.filter (·.element.kind = "Topbar")).flatMap (·.nodes) ∧
        taggedAll "section" tree = (ps.filter (·.element.kind = "Section")).flatMap (·.nodes) ∧
        sectionIds 0 ps = doc.landmarks.map (·.name) ∧
        ∀ p ∈ ps, ∀ attrs caption home links, p.element = .topbar attrs caption home links true →
          (doc.landmarks.mapM fun l => entry? .empty l.name l.title)
              = some (taggedAll "li" p.nodes) ∧
            valuesAll "href" (taggedAll "nav" p.nodes) = (sectionIds 0 ps).map ("#" ++ ·) ∧
            (taggedAll "nav" p.nodes = [] ↔ doc.landmarks = []) := by
  obtain ⟨tree, hread, hdenotes⟩ := exists_tree_of_emitBody h
  refine ⟨tree, hread, hdenotes.exists_places, fun ps hps => ?_⟩
  have hids : sectionIds 0 ps = doc.landmarks.map (·.name) := hps.sectionIds_eq
  refine ⟨hps.expands, hps.taggedAll_eq (by decide), hps.taggedAll_eq (by decide), hids, ?_⟩
  intro p hp attrs caption home links htopbar
  obtain ⟨stack, hnodes⟩ := hps.exists_simple? hp (by simp [htopbar, Element.kind])
  rw [htopbar] at hnodes
  obtain ⟨hitems, hhref, hnav⟩ := topbar_lists hnodes
  refine ⟨hitems, ?_, hnav⟩
  rw [hhref, hids, List.map_map]
  rfl

/-- The topbar of the guide, with a link of its own that does not count. -/
def guideBar : Element :=
  .topbar .none (.text "Guide") none [⟨"elsewhere", none⟩] true

/-- A page whose topbar stands inside two components. One of its sections is inside a component, one
inside another section, and one has no name. -/
def guide : Document where
  head := []
  components :=
    [⟨"Bar", [], [guideBar]⟩,
      ⟨"Frame", [], [.useComponent "Bar" [], .sectionBlock ⟨some "news", [], []⟩ none []]⟩]
  body :=
    [.useComponent "Frame" [],
      .div .none [.sectionBlock ⟨some "start", [], []⟩ (some (.text "Start"))
        [.sectionBlock ⟨some "R&D", [], []⟩ none []]],
      .sectionBlock .none none [.sectionBlock ⟨some "end", [], []⟩ none []]]
  functions := []
  statements := []
  styles := []

/-- The topbar of the guide leads to the three named sections outside components. -/
theorem topbars_list_sections_guide :
    ∃ text run' tree,
      (ExceptT.run (guide.emitBody (fun _ => []))).run .fresh = (.ok text, run') ∧
      Html.read text = some tree ∧ ∃ ps, guide.Places .empty guide.body ps tree ∧
        sectionIds 0 ps = ["start", "R&D", "end"] ∧ ∃ p ∈ ps, p.element = guideBar ∧
          valuesAll "href" (taggedAll "nav" p.nodes) = ["#start", "#R&D", "#end"] := by
  obtain ⟨tree, hread, ⟨ps, hps⟩, hall⟩ :=
    topbars_list_sections guide (fun _ => []) .fresh _ _ rfl
  obtain ⟨hexpands, -, -, hids, htopbars⟩ := hall ps hps
  have hbar : guideBar ∈ ps.map (·.element) := by
    generalize ps.map (·.element) = elements at hexpands
    cases hexpands with
    | element he => exact absurd rfl (he _ _)
    | useComponent hc hbody =>
      cases hc
      cases hbody with
      | element he => exact absurd rfl (he _ _)
      | useComponent hc hbody =>
        cases hc
        cases hbody with
        | element => simp
  obtain ⟨p, hp, hpbar⟩ := List.mem_map.mp hbar
  refine ⟨_, _, tree, rfl, hread, ps, hps, hids, p, hp, hpbar, ?_⟩
  obtain ⟨-, hhref, -⟩ := htopbars p hp _ _ _ _ hpbar
  rw [hhref, hids]
  rfl

end Document

end Pagewright
