import Pagewright.Generation.Page
import Pagewright.Proofs.Denotation
import Pagewright.Proofs.Emission
import Pagewright.Proofs.Html.RoundTrip

/-!
# The page says what the document denotes

The text that is written for the body of a document, if it can be written at all, is read as the
tree that the body denotes. Since texts and values stand in that tree as they are, and its tags and
attributes come from the kinds of the elements alone, nothing in a text, a name or a value can pass
for markup.

The proof goes over the fourteen kinds of elements once. For each of them the nodes that are built
can be written, and they stand for what the element denotes (`Html.Spells`). Uses of components are
a parameter of that walk, as they are in the walk itself, and the parameter is filled in by
induction on the number of levels.
-/

namespace Pagewright

/-! ## Nodes and what they spell -/

namespace Html

/-- **The nodes spell the tree**: they can be written, each on lines of its own, and they stand for
the tree. -/
structure Spells (nodes : List Html) (tree : List Dom) : Prop where
  sound : SoundAll nodes
  noText : ∀ node ∈ nodes, node.isText = false
  domAll : domAll nodes = tree

theorem soundAll_append {nodes nodes' : List Html} (h : SoundAll nodes) (h' : SoundAll nodes') :
    SoundAll (nodes ++ nodes') := by
  induction nodes with
  | nil => exact h'
  | cons node rest ih => exact ⟨h.1, ih h.2⟩

theorem domAll_append (nodes nodes' : List Html) :
    domAll (nodes ++ nodes') = domAll nodes ++ domAll nodes' := by
  induction nodes with
  | nil => rfl
  | cons node rest ih =>
    rw [List.cons_append, Html.domAll, Html.domAll, ih, List.append_assoc]

namespace Spells

variable {tag : String} {attrs : List Attribute} {nodes nodes' : List Html} {tree tree' : List Dom}

theorem nil : Spells [] [] :=
  ⟨trivial, (fun _ h => nomatch h), rfl⟩

theorem append (h : Spells nodes tree) (h' : Spells nodes' tree') :
    Spells (nodes ++ nodes') (tree ++ tree') where
  sound := soundAll_append h.sound h'.sound
  noText := List.forall_mem_append.mpr ⟨h.noText, h'.noText⟩
  domAll := by rw [domAll_append, h.domAll, h'.domAll]

theorem void (htag : Plain tag) (hvoid : tag ∈ voidTags) (hattrs : ∀ a ∈ attrs, Plain a.name) :
    Spells [.void tag attrs] [.element tag attrs []] where
  sound := ⟨⟨htag, hvoid, hattrs⟩, trivial⟩
  noText := List.forall_mem_singleton.mpr rfl
  domAll := rfl

/-- An element with a text on one line. -/
theorem inlineText (htag : Closable tag) (hattrs : ∀ a ∈ attrs, Plain a.name) (s : String) :
    Spells [.inline tag attrs [.text s]] [.element tag attrs (prose s)] where
  sound := ⟨⟨htag, hattrs, trivial, trivial⟩, trivial⟩
  noText := List.forall_mem_singleton.mpr rfl
  domAll := by
    simp only [Html.domAll, Html.dom, List.append_nil]

/-- An element with other elements on one line. -/
theorem inline (htag : Closable tag) (hattrs : ∀ a ∈ attrs, Plain a.name)
    (h : Spells nodes tree) : Spells [.inline tag attrs nodes] [.element tag attrs tree] where
  sound := ⟨⟨htag, hattrs, h.sound⟩, trivial⟩
  noText := List.forall_mem_singleton.mpr rfl
  domAll := by rw [Html.domAll, Html.dom, h.domAll]; rfl

/-- An element with other elements on lines of their own. -/
theorem block (htag : Closable tag) (hattrs : ∀ a ∈ attrs, Plain a.name)
    (h : Spells nodes tree) : Spells [.block tag attrs nodes] [.element tag attrs tree] where
  sound := ⟨⟨htag, hattrs, h.sound, h.noText⟩, trivial⟩
  noText := List.forall_mem_singleton.mpr rfl
  domAll := by rw [Html.domAll, Html.dom, h.domAll]; rfl

/-- A container is the same element on one line and on several. -/
theorem container (htag : Closable tag) (hattrs : ∀ a ∈ attrs, Plain a.name)
    (h : Spells nodes tree) (isEmpty : Bool) :
    Spells [Markup.container tag attrs isEmpty nodes] [.element tag attrs tree] := by
  unfold Markup.container
  split
  · exact inline htag hattrs h
  · exact block htag hattrs h

/-- The text of nodes that spell a tree is read as the tree. -/
theorem read_render (h : Spells nodes tree) : read (render nodes) = some tree := by
  rw [Html.read_render h.sound h.noText, h.domAll]

end Spells

end Html

/-! ## Parts of an element -/

namespace Emission

theorem value_yields (stack : Stack) (e : Expression) :
    (value stack e).Yields (fun v => e.value? stack = some v) := by
  refine (Yields.ofEvaluation (e.evaluate stack)).imp (fun v _ hv => ?_)
  unfold Expression.value?
  rw [hv]
  rfl

theorem shown_yields (stack : Stack) (e : Expression) :
    (shown stack e).Yields (fun s => e.text? stack = some s) := by
  refine (value_yields stack e).bind (fun v hv => Yields.pure ?_)
  unfold Expression.text?
  rw [hv]
  rfl

theorem shown?_yields (stack : Stack) (e : Option Expression) :
    (shown? stack e).Yields (fun s => e.mapM (Expression.text? stack) = some s) := by
  cases e with
  | none => exact Yields.pure rfl
  | some e =>
    refine (shown_yields stack e).bind (fun s hs => Yields.pure ?_)
    show (some <$> e.text? stack) = _
    rw [hs]
    rfl

end Emission

namespace Markup

open Emission
open Html (Closable Plain Spells prose voidTags)

theorem plain_attribute? {name : String} (h : Plain name) (value : Option String) :
    ∀ a ∈ attribute? name value, Plain a.name := by
  intro a ha
  obtain ⟨v, -, rfl⟩ := Option.map_eq_some_iff.mp (Option.mem_toList.mp ha)
  exact h

theorem styleName_eq_cssName (property : Property) : property.styleName = property.cssName := by
  cases property <;> rfl

theorem styleText_eq_valueText (property : Property) (v : Value) :
    property.styleText v = property.valueText v := by
  cases v with
  | text s => rfl
  | number x => cases property <;> rfl

/-- **Every declaration is written with the name and the value it has in a style.** -/
theorem written_yields (stack : Stack) (d : Declaration) :
    (d.written stack).Yields (fun w => d.style? stack = some w) := by
  refine (value_yields stack d.value).bind (fun v hv => Yields.pure ?_)
  unfold Declaration.style?
  rw [hv, Option.map_some, styleName_eq_cssName, styleText_eq_valueText]

/-- The style of an element is the declarations one after the other. -/
theorem inlineStyle_yields (stack : Stack) (css : List Declaration) :
    (inlineStyle stack css).Yields (fun s => ∃ texts : List String,
      css.mapM (Declaration.text? stack) = some texts ∧ s = String.join texts) := by
  have htext : ∀ d : Declaration,
      (d.written stack).Yields (fun w => d.text? stack = some s!"{w.1}:{w.2};") := fun d =>
    (written_yields stack d).imp fun w _ hw => by
      unfold Declaration.text?
      rw [hw]
      rfl
  refine (Yields.mapM htext css).bind (fun written hwritten => ?_)
  exact Yields.pure ⟨_, hwritten, rfl⟩

theorem colon_mem_of_text? {stack : Stack} {d : Declaration} {t : String}
    (h : d.text? stack = some t) : ':' ∈ t.toList := by
  obtain ⟨style, -, rfl⟩ := Option.map_eq_some_iff.mp h
  simp

/-- A style is empty only if there are no declarations. -/
theorem isEmpty_join_texts {stack : Stack} {css : List Declaration} {texts : List String}
    (h : css.mapM (Declaration.text? stack) = some texts) :
    (String.join texts).isEmpty = texts.isEmpty := by
  cases css with
  | nil => cases h; rfl
  | cons d ds =>
    rw [List.mapM_cons] at h
    obtain ⟨t, ht, h⟩ := Option.bind_eq_some_iff.mp h
    obtain ⟨rest, -, h⟩ := Option.bind_eq_some_iff.mp h
    cases h
    rw [List.isEmpty_cons, String.isEmpty_eq_false_iff]
    intro hempty
    have hcolon : ':' ∈ (String.join (t :: rest)).toList := by
      rw [String.toList_join, List.flatMap_cons]
      exact List.mem_append_left _ (colon_mem_of_text? ht)
    rw [hempty] at hcolon
    cases hcolon

/-- **The attributes of an element are those that it denotes**, and their names are plain. -/
theorem attributes_yields (source : ClassSource) (stack : Stack) (own : List String)
    (attrs : Attributes) :
    (attributes source stack own attrs).Yields
      (fun as => attrs.denoted? stack own = some as ∧ ∀ a ∈ as, Plain a.name) := by
  refine (Yields.trivial _).bind (fun _ _ => ?_)
  refine (inlineStyle_yields stack attrs.css).bind (fun style hstyle => Yields.pure ⟨?_, ?_⟩)
  · obtain ⟨texts, htexts, rfl⟩ := hstyle
    unfold Attributes.denoted?
    rw [htexts, isEmpty_join_texts htexts]
    refine congrArg some ?_
    cases own ++ attrs.classes <;> cases texts <;> rfl
  · intro a ha
    rcases List.mem_append.mp ha with ha | ha
    · rcases List.mem_append.mp ha with ha | ha
      · exact plain_attribute? (by decide) _ a ha
      · exact plain_attribute? (by decide) _ a ha
    · exact plain_attribute? (by decide) _ a ha

theorem clickCall_yields (stack : Stack) (click : Click) :
    (clickCall stack click).Yields (fun s => click.call? stack = some s) := by
  refine (Yields.mapM (k := id) (value_yields stack) click.arguments).bind
    (fun values hvalues => ?_)
  refine Yields.pure ?_
  unfold Click.call?
  rw [hvalues, List.map_id]
  rfl

/-- What an entry of a topbar denotes, given the text it shows. -/
def Entry.dom (e : Entry) : Dom :=
  .element "li" [] [.element "a" [⟨"href", "#" ++ e.target⟩] (prose e.text)]

theorem entry_yields (stack : Stack) (target : String) (text : Option Expression) :
    (entry stack target text).Yields
      (fun e => Document.entry? stack target text = some e.dom) := by
  refine (shown?_yields stack text).bind (fun s hs => Yields.pure ?_)
  unfold Document.entry?
  rw [hs]
  rfl

theorem entries_yields (doc : Document) (source : ClassSource)
    (expand : Stack → String → List Expression → Emission (List Html)) (stack : Stack)
    (links : List NavLink) (auto : Bool) :
    (entries ⟨source, doc.landmarks, expand⟩ stack links auto).Yields
      (fun es => doc.entries? stack links auto = some (es.map Entry.dom)) := by
  unfold entries Document.entries?
  cases auto with
  | true =>
    exact Yields.mapM (fun l : Document.Landmark => entry_yields .empty l.name l.title)
      doc.landmarks
  | false => exact Yields.mapM (fun l : NavLink => entry_yields stack l.target l.text) links

/-- The list of entries spells what the entries denote. -/
theorem spells_navigation (es : List Entry) :
    Spells (navigation es)
      (if es.map Entry.dom = [] then []
        else [.element "nav" [] [.element "ul" [] (es.map Entry.dom)]]) := by
  have hitem : ∀ e : Entry, Spells
      [.inline "li" [] [.inline "a" [⟨"href", "#" ++ e.target⟩] [.text e.text]]] [e.dom] := by
    intro e
    refine .inline (by decide) (List.forall_mem_nil _) (.inlineText (by decide) ?_ e.text)
    exact List.forall_mem_singleton.mpr (show Plain "href" by decide)
  have hitems : ∀ es : List Entry, Spells (es.map fun e =>
      .inline "li" [] [.inline "a" [⟨"href", "#" ++ e.target⟩] [.text e.text]])
      (es.map Entry.dom) := by
    intro es
    induction es with
    | nil => exact .nil
    | cons e rest ih => exact (hitem e).append ih
  cases es with
  | nil => exact .nil
  | cons e rest =>
    refine .block (by decide) (List.forall_mem_nil _) ?_
    exact .block (by decide) (List.forall_mem_nil _) (hitems (e :: rest))

/-- The tag of a heading is a letter with digits behind it. -/
theorem toList_heading (level : Nat) : (s!"h{level}").toList = 'h' :: Nat.toDigits 10 level := by
  simp [toString]

/-- A heading of any level is closed. -/
theorem closable_heading (level : Nat) : Closable s!"h{level}" := by
  refine ⟨⟨by rw [toList_heading]; exact List.cons_ne_nil _ _, List.all_eq_true.mpr ?_⟩, ?_⟩
  · rw [toList_heading]
    intro c hc
    rcases List.mem_cons.mp hc with rfl | hc
    · decide
    · have hdigit := Nat.isDigit_of_mem_toDigits (by decide) (by decide) hc
      unfold Char.isAlphanum
      rw [hdigit, Bool.or_true]
  · -- None of the elements without content begins with the letter of a heading.
    intro hvoid
    have hhead : ∀ tag ∈ voidTags, tag.toList.head? ≠ some 'h' := by decide
    exact hhead _ hvoid (by rw [toList_heading]; rfl)

end Markup

/-! ## Elements -/

/-- The nodes spell what the elements denote. -/
def Document.Spelled (doc : Document) (stack : Stack) (es : List Element) (nodes : List Html) :
    Prop :=
  ∃ tree, doc.Denotes stack es tree ∧ Html.Spells nodes tree

theorem Document.Spelled.of_simple {doc : Document} {stack : Stack} {e : Element}
    {nodes : List Html} {tree : List Dom} (h : doc.simple? stack e = some tree)
    (hs : Html.Spells nodes tree) : doc.Spelled stack [e] nodes :=
  ⟨tree, .single h, hs⟩

namespace Markup

open Emission
open Html (Closable Plain Spells prose voidTags)

variable {doc : Document} {source : ClassSource}
  {expand : Stack → String → List Expression → Emission (List Html)}

mutual

/-- **The nodes of an element spell what the element denotes**, if those of the uses in it do. -/
theorem element_yields
    (hexpand : ∀ stack name args, (expand stack name args).Yields
      (doc.Spelled stack [.useComponent name args])) (stack : Stack) (e : Element) :
    (element ⟨source, doc.landmarks, expand⟩ stack e).Yields (doc.Spelled stack [e]) := by
  match e with
  | .title text =>
    refine (shown_yields stack text).bind (fun s hs => Yields.pure ?_)
    refine .of_simple (by rw [Document.simple?, hs]; rfl) (.inlineText (by decide) ?_ s)
    exact List.forall_mem_nil _
  | .icon path =>
    refine (shown_yields stack path).bind (fun s hs => Yields.pure ?_)
    refine .of_simple (by rw [Document.simple?, hs]; rfl) (.void (by decide) (by decide) ?_)
    exact List.forall_mem_cons.mpr
      ⟨show Plain "rel" by decide, List.forall_mem_singleton.mpr (show Plain "href" by decide)⟩
  | .div attrs content =>
    refine (attributes_yields source stack [] attrs).bind (fun as ⟨has, hplain⟩ => ?_)
    refine (elements_yields hexpand stack content).bind (fun nodes ⟨tree, htree, hnodes⟩ => ?_)
    refine Yields.pure ⟨_, .div has htree (.nil stack), ?_⟩
    exact .container (by decide) hplain hnodes _
  | .sectionBlock attrs caption content =>
    refine (attributes_yields source stack [] attrs).bind (fun as ⟨has, hplain⟩ => ?_)
    refine (shown?_yields stack caption).bind (fun s hs => ?_)
    have hcontent := elements_yields hexpand stack content
    cases s with
    | none =>
      refine hcontent.bind (fun nodes ⟨tree, htree, hnodes⟩ => Yields.pure ?_)
      refine ⟨_, .sectionBlock has hs htree (.nil stack), ?_⟩
      exact .container (by decide) hplain hnodes _
    | some s =>
      refine hcontent.bind (fun nodes ⟨tree, htree, hnodes⟩ => Yields.pure ?_)
      refine ⟨_, .sectionBlock has hs htree (.nil stack), .block (by decide) hplain ?_⟩
      exact (Spells.inlineText (by decide) (List.forall_mem_nil _) s).append hnodes
  | .paragraph attrs text =>
    refine (attributes_yields source stack [] attrs).bind (fun as ⟨has, hplain⟩ => ?_)
    refine (shown_yields stack text).bind (fun s hs => Yields.pure ?_)
    refine .of_simple (by rw [Document.simple?, has, hs]; rfl) ?_
    exact .inlineText (by decide) hplain s
  | .heading attrs level text =>
    refine (attributes_yields source stack [] attrs).bind (fun as ⟨has, hplain⟩ => ?_)
    refine (shown_yields stack text).bind (fun s hs => Yields.pure ?_)
    refine .of_simple (by rw [Document.simple?, has, hs]; rfl) ?_
    exact .inlineText (closable_heading _) hplain s
  | .link attrs url text =>
    refine (attributes_yields source stack [] attrs).bind (fun as ⟨has, hplain⟩ => ?_)
    refine (shown_yields stack url).bind (fun href hhref => ?_)
    refine (shown_yields stack (text.getD url)).bind (fun s hs => Yields.pure ?_)
    refine .of_simple (by rw [Document.simple?, has, hhref, hs]; rfl) ?_
    refine .inlineText (by decide) (List.forall_mem_append.mpr ⟨hplain, ?_⟩) s
    exact List.forall_mem_singleton.mpr (show Plain "href" by decide)
  | .image attrs path alt =>
    refine (attributes_yields source stack [] attrs).bind (fun as ⟨has, hplain⟩ => ?_)
    refine (shown_yields stack path).bind (fun src hsrc => ?_)
    refine (shown?_yields stack alt).bind (fun s hs => Yields.pure ?_)
    refine .of_simple (by rw [Document.simple?, has, hsrc, hs]; rfl) ?_
    refine .void (by decide) (by decide) (List.forall_mem_append.mpr ⟨hplain, ?_⟩)
    exact List.forall_mem_cons.mpr ⟨show Plain "src" by decide, plain_attribute? (by decide) s⟩
  | .button attrs text onclick =>
    refine (attributes_yields source stack [] attrs).bind (fun as ⟨has, hplain⟩ => ?_)
    refine (Yields.mapM_option (clickCall_yields stack) onclick).bind (fun call hcall => ?_)
    refine (shown_yields stack text).bind (fun s hs => Yields.pure ?_)
    refine .of_simple (by rw [Document.simple?, has, hcall, hs]; rfl) ?_
    refine .inlineText (by decide) (List.forall_mem_append.mpr ⟨hplain, ?_⟩) s
    exact plain_attribute? (by decide) call
  | .textbox attrs label placeholder labelAfter =>
    -- The label is evaluated first, wherever it stands in the end.
    refine (shown?_yields stack label).bind (fun caption hcaption => ?_)
    refine (attributes_yields source stack [] attrs).bind (fun as ⟨has, hplain⟩ => ?_)
    refine (shown?_yields stack placeholder).bind (fun hint hhint => ?_)
    have hinput : Spells [.void "input" (as ++ ⟨"type", "text"⟩ :: attribute? "placeholder" hint)]
        [.element "input" (as ++ ⟨"type", "text"⟩ :: attribute? "placeholder" hint) []] := by
      refine .void (by decide) (by decide) (List.forall_mem_append.mpr ⟨hplain, ?_⟩)
      exact List.forall_mem_cons.mpr
        ⟨show Plain "type" by decide, plain_attribute? (by decide) hint⟩
    cases caption with
    | none =>
      refine Yields.pure (.of_simple (by rw [Document.simple?, has, hhint, hcaption]; rfl) ?_)
      cases labelAfter <;> exact hinput
    | some s =>
      have hlabel : Spells [.inline "label" (attribute? "for" attrs.name) [.text s]]
          [.element "label" (attribute? "for" attrs.name) (prose s)] :=
        .inlineText (by decide) (plain_attribute? (by decide) attrs.name) s
      refine Yields.pure (.of_simple (by rw [Document.simple?, has, hhint, hcaption]; rfl) ?_)
      cases labelAfter with
      | true => exact hinput.append hlabel
      | false => exact hlabel.append hinput
  | .linebreak =>
    exact Yields.pure (.of_simple rfl (.void (by decide) (by decide) (List.forall_mem_nil _)))
  | .topbar attrs caption home links autoNavLinks =>
    -- That there is a topbar goes into the run and does not show in the nodes.
    refine (Yields.trivial _).bind (fun _ _ => ?_)
    refine (attributes_yields source stack [topbarClass] attrs).bind (fun as ⟨has, hplain⟩ => ?_)
    refine (shown_yields stack caption).bind (fun s hs => ?_)
    refine (shown?_yields stack home).bind (fun href hhref => ?_)
    refine (entries_yields doc source expand stack links autoNavLinks).bind (fun es hes => ?_)
    have hhome : Spells
        [.inline "a" [⟨"class", topbarHomeClass⟩, ⟨"href", href.getD "#"⟩] [.text s]]
        [.element "a" [⟨"class", topbarHomeClass⟩, ⟨"href", href.getD "#"⟩] (prose s)] := by
      refine .inlineText (by decide) (List.forall_mem_cons.mpr ⟨show Plain "class" by decide, ?_⟩) s
      exact List.forall_mem_singleton.mpr (show Plain "href" by decide)
    refine Yields.pure (.of_simple (by rw [Document.simple?, has, hs, hhref, hes]; rfl) ?_)
    exact .block (by decide) hplain (hhome.append (spells_navigation es))
  | .footer attrs text =>
    refine (Yields.trivial _).bind (fun _ _ => ?_)
    refine (attributes_yields source stack [footerClass] attrs).bind (fun as ⟨has, hplain⟩ => ?_)
    refine (shown_yields stack text).bind (fun s hs => Yields.pure ?_)
    refine .of_simple (by rw [Document.simple?, has, hs]; rfl) (.block (by decide) hplain ?_)
    exact .inlineText (by decide) (List.forall_mem_nil _) s
  | .useComponent name args => exact hexpand stack name args

/-- **The nodes of elements spell what the elements denote**, if those of the uses in them do. -/
theorem elements_yields
    (hexpand : ∀ stack name args, (expand stack name args).Yields
      (doc.Spelled stack [.useComponent name args])) (stack : Stack) (es : List Element) :
    (elements ⟨source, doc.landmarks, expand⟩ stack es).Yields (doc.Spelled stack es) := by
  match es with
  | [] => exact Yields.pure ⟨[], .nil stack, .nil⟩
  | e :: rest =>
    refine (element_yields hexpand stack e).bind (fun first ⟨tree, htree, hfirst⟩ => ?_)
    refine (elements_yields hexpand stack rest).bind (fun nodes ⟨tree', htree', hnodes⟩ => ?_)
    exact Yields.pure ⟨tree ++ tree', htree.append htree', hfirst.append hnodes⟩

end

/-! ## Components and documents -/

/-- **The nodes of a use of a component spell what the use denotes**, with however many levels left
to go. -/
theorem instantiate_yields (doc : Document) (source : ClassSource) (levels : Nat) (stack : Stack)
    (name : String) (args : List Expression) :
    (instantiate doc source levels stack name args).Yields
      (doc.Spelled stack [.useComponent name args]) := by
  induction levels generalizing stack name args with
  | zero =>
    unfold instantiate
    cases doc.component? name <;> exact fun _ _ => trivial
  | succ levels ih =>
    unfold instantiate
    cases hc : doc.component? name with
    | none => exact fun _ _ => trivial
    | some component =>
      refine (Yields.ofEvaluation (component.bind args stack)).bind (fun frame hframe => ?_)
      refine (elements_yields ih (stack.push frame) component.body).imp ?_
      rintro nodes _ ⟨tree, htree, hnodes⟩
      have huse := Document.Denotes.useComponent hc hframe htree (.nil stack)
      rw [List.append_nil] at huse
      exact ⟨tree, huse, hnodes⟩

end Markup

namespace Document

/-- A body that is written is read as a tree that it denotes. -/
theorem exists_tree_of_emitBody {doc : Document} {source : ClassSource} {run run' : Run}
    {text : String} (h : (doc.emitBody source).on run = (.ok text, run')) :
    ∃ tree, Html.read text = some tree ∧ doc.Denotes .empty doc.body tree := by
  obtain ⟨nodes, between, hnodes, htext⟩ := Emission.exists_of_on_bind h
  cases htext
  obtain ⟨tree, htree, hspells⟩ := (Markup.elements_yields (Markup.instantiate_yields doc source _)
    .empty doc.body).of_ok trivial hnodes
  exact ⟨tree, hspells.read_render, htree⟩

/-- **The body that is written is read as the tree it denotes.** Whenever the body of a document can
be written, the text is markup, and the tree that it is read as is the one and only tree that the
body denotes. -/
theorem read_emitBody (doc : Document) (source : ClassSource) (run run' : Run) (text : String)
    (h : (ExceptT.run (doc.emitBody source)).run run = (.ok text, run')) :
    ∃ tree, Html.read text = some tree ∧
      ∀ tree', doc.Denotes .empty doc.body tree' ↔ tree' = tree := by
  obtain ⟨tree, hread, htree⟩ := exists_tree_of_emitBody h
  refine ⟨tree, hread, fun tree' => ⟨fun htree' => htree'.unique htree, ?_⟩⟩
  rintro rfl
  exact htree

/-- A paragraph whose name and style are full of the characters of markup. -/
def quote : Component where
  name := "Quote"
  params := [⟨"words", .string⟩]
  body :=
    [.paragraph ⟨some "\"><b>", ["big"], [⟨.size, .number 12⟩, ⟨.textColor, .text "\"><i>"⟩]⟩
      (.symbol "words")]

/-- A page with a quotation, a click, and a topbar that lists the sections by itself. -/
def sayings : Document where
  head := []
  components := [quote]
  body :=
    [.topbar .none (.text "Sayings") none [] true,
      .sectionBlock ⟨some "a&b", [], []⟩ (some (.text "Sums"))
        [.useComponent "Quote" [.text "1 < 2\n& 3"]],
      .button .none (.text "Cite") (some ⟨"cite", [.text "\">", .number 2]⟩)]
  functions := []
  statements := []
  styles := []

/-- The tree that the sayings denote. -/
def sayingsTree : List Dom :=
  [.element "header" [⟨"class", "topbar"⟩]
      [.element "a" [⟨"class", "topbar-home"⟩, ⟨"href", "#"⟩] (Html.prose "Sayings"),
        .element "nav" [] [.element "ul" []
          [.element "li" [] [.element "a" [⟨"href", "#a&b"⟩] (Html.prose "Sums")]]]],
    .element "section" [⟨"id", "a&b"⟩]
      [.element "h2" [] (Html.prose "Sums"),
        .element "p" [⟨"id", "\"><b>"⟩, ⟨"class", "big"⟩,
            ⟨"style", "font-size:12px;color:\"><i>;"⟩]
          (Html.prose "1 < 2" ++ .element "br" [] [] :: Html.prose "& 3")],
    .element "button" [⟨"onclick", "cite(\"\\\">\", 2)"⟩] (Html.prose "Cite")]

/-- The text written for the sayings. -/
def sayingsText : String :=
  "<header class=\"topbar\">\n    <a class=\"topbar-home\" href=\"#\">Sayings</a>\n" ++
    "    <nav>\n        <ul>\n            <li><a href=\"#a&amp;b\">Sums</a></li>\n" ++
    "        </ul>\n    </nav>\n</header>\n<section id=\"a&amp;b\">\n    <h2>Sums</h2>\n" ++
    "    <p id=\"&quot;&gt;&lt;b&gt;\" class=\"big\"" ++
    " style=\"font-size:12px;color:&quot;&gt;&lt;i&gt;;\">1 &lt; 2<br>&amp; 3</p>\n</section>\n" ++
    "<button onclick=\"cite(&quot;\\&quot;&gt;&quot;, 2)\">Cite</button>\n"

theorem denotes_sayings : sayings.Denotes .empty sayings.body sayingsTree := by
  have hcomponent : sayings.component? "Quote" = some quote := rfl
  have hquote : sayings.Denotes .empty [.useComponent "Quote" [.text "1 < 2\n& 3"]] _ :=
    .useComponent hcomponent rfl (.single rfl) (.nil _)
  have htopbar : sayings.Denotes .empty (sayings.body.take 1) _ := .single rfl
  have hbutton : sayings.Denotes .empty (sayings.body.drop 2) _ := .single rfl
  have hsection : sayings.Denotes .empty (sayings.body.drop 1) _ :=
    .sectionBlock rfl rfl hquote hbutton
  exact htopbar.append hsection

/-- The text written for the sayings is read as their tree, and they denote no other. -/
theorem read_emitBody_sayings :
    ∃ run', (ExceptT.run (sayings.emitBody (fun _ => []))).run .fresh = (.ok sayingsText, run') ∧
      Html.read sayingsText = some sayingsTree ∧
      ∀ tree', sayings.Denotes .empty sayings.body tree' ↔ tree' = sayingsTree := by
  have htext : ((ExceptT.run (sayings.emitBody (fun _ => []))).run .fresh).1 = .ok sayingsText := by
    decide +kernel
  obtain ⟨⟨result, run'⟩, hrun⟩ :
      ∃ after, (ExceptT.run (sayings.emitBody (fun _ => []))).run .fresh = after := ⟨_, rfl⟩
  rw [hrun] at htext
  subst htext
  obtain ⟨tree, hread, hdenotes⟩ := read_emitBody sayings _ _ _ _ hrun
  obtain rfl := (hdenotes sayingsTree).1 denotes_sayings
  exact ⟨run', hrun, hread, hdenotes⟩

end Document

end Pagewright
