import Pagewright.Generation.Markup
import Pagewright.Proofs.Emission
import Pagewright.Validation.Definitions

/-!
# The walk over elements

Whatever kind an element is of, writing it is made of the same few steps: classes are looked up,
expressions are evaluated, a topbar may list the sections of the document, and a use of a component
is handed on. A property of runs that all these steps keep is kept by the walk over a whole list of
elements, containers and their content included (`Markup.elements_keeps`). The fourteen kinds of
elements are gone through here, and what is proved later about passes over documents says only what
the steps do.

The converse direction is about failure: a list of elements cannot be written if one of them cannot
(`Markup.elements_fails`), and an element cannot be written if one of its expressions has no value
(`Markup.element_fails_of_expression`).
-/

namespace Pagewright

namespace Element

/-! ## The expressions of an element -/

/-- The style properties of the element itself. -/
def declarations (e : Element) : List Declaration :=
  e.attributes?.elim [] (·.css)

/-- The expressions of the element itself apart from its style: no content of a container. -/
def contents : Element → List Expression
  | paragraph _ text | heading _ _ text | footer _ text | title text => [text]
  | icon path => [path]
  | sectionBlock _ caption _ => caption.toList
  | link _ url text => url :: text.toList
  | image _ path alt => path :: alt.toList
  | button _ text onclick => text :: onclick.toList.flatMap (·.arguments)
  | textbox _ label placeholder _ => label.toList ++ placeholder.toList
  | topbar _ caption home links _ => caption :: (home.toList ++ links.filterMap (·.text))
  | useComponent _ arguments => arguments
  | div .. | linebreak => []

/-- The element is a topbar that lists the sections of the document although it has links of its
own; these are then not evaluated. -/
def ignoresLinks : Element → Bool
  | topbar _ _ _ links autoNavLinks => autoNavLinks && !links.isEmpty
  | _ => false

/-- All expressions of the element itself. -/
def expressions (e : Element) : List Expression :=
  e.declarations.map (·.value) ++ e.contents

theorem mem_expressions_of_declaration {e : Element} {d : Declaration}
    (h : d ∈ e.declarations) : d.value ∈ e.expressions :=
  List.mem_append_left _ (List.mem_map_of_mem h)

theorem mem_expressions_of_contents {e : Element} {x : Expression} (h : x ∈ e.contents) :
    x ∈ e.expressions :=
  List.mem_append_right _ h

/-! ## Elements inside elements -/

/-- An element stands in front of what is inside it. -/
theorem subelements_eq (e : Element) : e.subelements = e :: subelementsOf e.children := by
  cases e <;> simp [subelements, subelementsOf, children]

/-- The elements of a list are its first element, the content of that and the elements after it. -/
theorem subelementsOf_cons (e : Element) (rest : List Element) :
    subelementsOf (e :: rest) = e :: (subelementsOf e.children ++ subelementsOf rest) := by
  rw [subelementsOf, subelements_eq, List.cons_append]

/-- Content and rest of a list are both shorter than the list, with what is inside them. -/
theorem length_subelementsOf_lt (e : Element) (rest : List Element) :
    (subelementsOf e.children).length < (subelementsOf (e :: rest)).length ∧
      (subelementsOf rest).length < (subelementsOf (e :: rest)).length := by
  rw [subelementsOf_cons, List.length_cons, List.length_append]
  omega

/-- **Induction on elements and their content**: for the first of a list of elements its content is
taken care of, and so are the elements after it. -/
theorem contentInduction {motive : List Element → Prop} (nil : motive [])
    (cons : ∀ e rest, motive e.children → motive rest → motive (e :: rest)) (es : List Element) :
    motive es := by
  induction hlength : (subelementsOf es).length using Nat.strongRecOn generalizing es with
  | ind length ih =>
    subst hlength
    cases es with
    | nil => exact nil
    | cons e rest =>
      obtain ⟨hcontent, hrest⟩ := length_subelementsOf_lt e rest
      exact cons e rest (ih _ hcontent e.children rfl) (ih _ hrest rest rfl)

/-- An element is among its own subelements. -/
theorem mem_subelements_self (e : Element) : e ∈ e.subelements := by
  cases e <;> simp [subelements]

/-- The content of a container is among its subelements. -/
theorem subelementsOf_children_subset (e : Element) :
    ∀ x ∈ subelementsOf e.children, x ∈ e.subelements := by
  cases e with
  | div attrs content => exact fun x hx => List.mem_cons_of_mem _ hx
  | sectionBlock attrs caption content => exact fun x hx => List.mem_cons_of_mem _ hx
  | _ => exact fun x hx => nomatch hx

@[simp] theorem mem_subelementsOf_cons {x e : Element} {es : List Element} :
    x ∈ subelementsOf (e :: es) ↔ x ∈ e.subelements ∨ x ∈ subelementsOf es := by
  rw [subelementsOf, List.mem_append]

/-- An element of a list is among its subelements. -/
theorem mem_subelementsOf {e : Element} {es : List Element} (h : e ∈ es) :
    e ∈ subelementsOf es := by
  induction es with
  | nil => cases h
  | cons first rest ih =>
    rcases List.mem_cons.mp h with rfl | h
    · exact mem_subelementsOf_cons.mpr (.inl e.mem_subelements_self)
    · exact mem_subelementsOf_cons.mpr (.inr (ih h))

end Element

namespace Markup

open Emission Element

variable {I : Run → Prop} {E : GenerationError → Run → Prop} {context : Context} {stack : Stack}

/-! ## What the steps keep -/

/-- **The steps that every walk may take** keep the property `I` and fail with errors `E`. -/
structure Surroundings (I : Run → Prop) (E : GenerationError → Run → Prop) (context : Context) :
    Prop where
  /-- A class is looked up. -/
  lookup : ∀ name, (useClass context.source name).Keeps I E
  /-- A topbar begins. -/
  topbar : ∀ run, I run → I { run with topbar := true }
  /-- A footer begins. -/
  footer : ∀ run, I run → I { run with footer := true }
  /-- A topbar lists the sections of the document. -/
  titles : ∀ l ∈ context.landmarks, ∀ x ∈ l.title, (value .empty x).Keeps I E

/-- **The steps that an element itself takes** keep the property `I` and fail with errors `E`. -/
structure Steps (I : Run → Prop) (E : GenerationError → Run → Prop) (context : Context)
    (stack : Stack) (e : Element) : Prop where
  /-- An expression of the element is evaluated. -/
  value : ∀ x ∈ e.expressions, (value stack x).Keeps I E
  /-- The element is a use of a component. -/
  use : ∀ name args, e = .useComponent name args → (context.expand stack name args).Keeps I E

theorem Steps.content {e : Element} (h : Steps I E context stack e) {x : Expression}
    (hx : x ∈ e.contents) : (Emission.value stack x).Keeps I E :=
  h.value x (mem_expressions_of_contents hx)

/-! ## Parts of an element -/

theorem attributes_keeps (hctx : Surroundings I E context) {own : List String}
    {attrs : Attributes} (h : ∀ d ∈ attrs.css, (value stack d.value).Keeps I E) :
    (attributes context.source stack own attrs).Keeps I E := by
  have hwritten : ∀ d ∈ attrs.css, (d.written stack).Keeps I E :=
    fun d hd => (h d hd).bind (fun v => Keeps.pure _)
  have hstyle : (inlineStyle stack attrs.css).Keeps I E :=
    (Keeps.mapM hwritten).bind (fun written => Keeps.pure _)
  exact (Keeps.forM (fun name _ => hctx.lookup name)).bind
    (fun _ => hstyle.bind (fun style => Keeps.pure _))

/-- The attributes of an element, given the steps the element takes. -/
theorem Steps.attributes {e : Element} (h : Steps I E context stack e)
    (hctx : Surroundings I E context) {attrs : Attributes} (hattrs : e.attributes? = some attrs)
    (own : List String) : (Markup.attributes context.source stack own attrs).Keeps I E := by
  refine attributes_keeps hctx (fun d hd => h.value _ (mem_expressions_of_declaration ?_))
  rw [declarations, hattrs]
  exact hd

theorem clickCall_keeps {click : Click} (h : ∀ x ∈ click.arguments, (value stack x).Keeps I E) :
    (clickCall stack click).Keeps I E :=
  (Keeps.mapM h).bind (fun _ => Keeps.pure _)

theorem entry_keeps {target : String} {text : Option Expression}
    (h : ∀ x ∈ text, (value stack x).Keeps I E) : (entry stack target text).Keeps I E :=
  (Keeps.shown? h).bind (fun _ => Keeps.pure _)

theorem entries_keeps (hctx : Surroundings I E context) {links : List NavLink} (auto : Bool)
    (h : ∀ x ∈ links.filterMap (·.text), (value stack x).Keeps I E) :
    (entries context stack links auto).Keeps I E := by
  unfold entries
  split
  · exact Keeps.mapM (fun l hl => entry_keeps (hctx.titles l hl))
  · exact Keeps.mapM (fun l hl => entry_keeps (fun x hx =>
      h x (List.mem_filterMap.mpr ⟨l, hl, hx⟩)))

/-! ## Elements -/

mutual

/-- Writing an element keeps what the steps in it keep. -/
theorem element_keeps (hctx : Surroundings I E context) (e : Element)
    (h : ∀ x ∈ e.subelements, Steps I E context stack x) :
    (element context stack e).Keeps I E := by
  have hself := h e e.mem_subelements_self
  match e with
  | .title text =>
    exact (Keeps.shown (hself.content (by simp [contents]))).bind (fun _ => Keeps.pure _)
  | .icon path =>
    exact (Keeps.shown (hself.content (by simp [contents]))).bind (fun _ => Keeps.pure _)
  | .div attrs content =>
    have hcontent := elements_keeps hctx content
      (fun x hx => h x (subelementsOf_children_subset (.div attrs content) x hx))
    exact (hself.attributes hctx rfl []).bind
      (fun _ => hcontent.bind (fun _ => Keeps.pure _))
  | .sectionBlock attrs caption content =>
    have hcontent := elements_keeps hctx content
      (fun x hx => h x (subelementsOf_children_subset (.sectionBlock attrs caption content) x hx))
    have hcaption : (shown? stack caption).Keeps I E :=
      Keeps.shown? (fun x hx => hself.content (by simpa [contents] using hx))
    refine (hself.attributes hctx rfl []).bind (fun _ => hcaption.bind (fun shown => ?_))
    cases shown with
    | none => exact hcontent.bind (fun _ => Keeps.pure _)
    | some s => exact hcontent.bind (fun _ => Keeps.pure _)
  | .paragraph attrs text =>
    have htext := hself.content (x := text) (by simp [contents])
    exact (hself.attributes hctx rfl []).bind
      (fun _ => (Keeps.shown htext).bind (fun _ => Keeps.pure _))
  | .heading attrs level text =>
    have htext := hself.content (x := text) (by simp [contents])
    exact (hself.attributes hctx rfl []).bind
      (fun _ => (Keeps.shown htext).bind (fun _ => Keeps.pure _))
  | .link attrs url text =>
    have hurl := hself.content (x := url) (by simp [contents])
    have htext := hself.content (x := text.getD url) (by cases text <;> simp [contents])
    exact (hself.attributes hctx rfl []).bind
      (fun _ => (Keeps.shown hurl).bind
        (fun _ => (Keeps.shown htext).bind (fun _ => Keeps.pure _)))
  | .image attrs path alt =>
    have hpath := hself.content (x := path) (by simp [contents])
    have halt : (shown? stack alt).Keeps I E :=
      Keeps.shown? (fun x hx => hself.content (by simp_all [contents]))
    exact (hself.attributes hctx rfl []).bind
      (fun _ => (Keeps.shown hpath).bind (fun _ => halt.bind (fun _ => Keeps.pure _)))
  | .button attrs text onclick =>
    have htext := hself.content (x := text) (by simp [contents])
    have hclick : (onclick.mapM (clickCall stack)).Keeps I E :=
      Keeps.mapM_option (fun click hc => clickCall_keeps (fun x hx =>
        hself.content (by simp_all [contents])))
    exact (hself.attributes hctx rfl []).bind
      (fun _ => hclick.bind (fun _ => (Keeps.shown htext).bind (fun _ => Keeps.pure _)))
  | .textbox attrs label placeholder labelAfter =>
    have hlabel : (shown? stack label).Keeps I E :=
      Keeps.shown? (fun x hx => hself.content (by simp_all [contents]))
    have hhint : (shown? stack placeholder).Keeps I E :=
      Keeps.shown? (fun x hx => hself.content (by simp_all [contents]))
    refine hlabel.bind (fun caption => (hself.attributes hctx rfl []).bind
      (fun _ => hhint.bind (fun _ => ?_)))
    cases caption <;> exact Keeps.pure _
  | .linebreak => exact Keeps.pure _
  | .topbar attrs caption home links autoNavLinks =>
    have hcaption := hself.content (x := caption) (by simp [contents])
    have hhome : (shown? stack home).Keeps I E :=
      Keeps.shown? (fun x hx => hself.content (by simp_all [contents]))
    have hlinks : (entries context stack links autoNavLinks).Keeps I E :=
      entries_keeps hctx autoNavLinks (fun x hx => hself.content
        (List.mem_cons_of_mem _ (List.mem_append_right _ hx)))
    exact (Keeps.modify hctx.topbar).bind
      (fun _ => (hself.attributes hctx rfl [topbarClass]).bind
        (fun _ => (Keeps.shown hcaption).bind
          (fun _ => hhome.bind (fun _ => hlinks.bind (fun _ => Keeps.pure _)))))
  | .footer attrs text =>
    have htext := hself.content (x := text) (by simp [contents])
    exact (Keeps.modify hctx.footer).bind
      (fun _ => (hself.attributes hctx rfl [footerClass]).bind
        (fun _ => (Keeps.shown htext).bind (fun _ => Keeps.pure _)))
  | .useComponent component arguments => exact hself.use component arguments rfl

/-- **Writing a list of elements keeps what the steps in it keep.** -/
theorem elements_keeps (hctx : Surroundings I E context) (es : List Element)
    (h : ∀ x ∈ subelementsOf es, Steps I E context stack x) :
    (elements context stack es).Keeps I E := by
  match es with
  | [] => exact Keeps.pure []
  | e :: rest =>
    have hfirst := element_keeps hctx e (fun x hx => h x (mem_subelementsOf_cons.mpr (.inl hx)))
    have hrest := elements_keeps hctx rest
      (fun x hx => h x (mem_subelementsOf_cons.mpr (.inr hx)))
    exact hfirst.bind (fun _ => hrest.bind (fun _ => Keeps.pure _))

end

/-! ## Elements that cannot be written -/

mutual

/-- An element cannot be written if one inside it cannot. -/
theorem element_fails {x : Element} (h : (element context stack x).Fails) (e : Element)
    (hx : x ∈ e.subelements) : (element context stack e).Fails := by
  match e with
  | .div attrs content =>
    rcases List.mem_cons.mp (by simpa only [subelements] using hx) with rfl | hx
    · exact h
    · exact Fails.bind_right _ (fun _ => (elements_fails h content hx).bind _)
  | .sectionBlock attrs caption content =>
    rcases List.mem_cons.mp (by simpa only [subelements] using hx) with rfl | hx
    · exact h
    · have hcontent := elements_fails h content hx
      refine Fails.bind_right _ (fun _ => Fails.bind_right _ (fun shown => ?_))
      cases shown with
      | none => exact hcontent.bind _
      | some s => exact hcontent.bind _
  | .title _ | .icon _ | .paragraph _ _ | .heading _ _ _ | .link _ _ _ | .image _ _ _
  | .button _ _ _ | .textbox _ _ _ _ | .linebreak | .topbar _ _ _ _ _ | .footer _ _
  | .useComponent _ _ =>
    cases List.mem_singleton.mp hx
    exact h

/-- **A list of elements cannot be written if one of them cannot**, however deep in containers it
stands. -/
theorem elements_fails {x : Element} (h : (element context stack x).Fails) (es : List Element)
    (hx : x ∈ subelementsOf es) : (elements context stack es).Fails := by
  match es with
  | [] => cases hx
  | e :: rest =>
    rcases mem_subelementsOf_cons.mp hx with hfirst | hrest
    · exact (element_fails h e hfirst).bind _
    · exact Fails.bind_right _ (fun _ => (elements_fails h rest hrest).bind _)

end

theorem attributes_fails {source : ClassSource} {own : List String} {attrs : Attributes}
    {d : Declaration} (hd : d ∈ attrs.css) (h : (value stack d.value).Fails) :
    (attributes source stack own attrs).Fails := by
  have hstyle : (inlineStyle stack attrs.css).Fails :=
    (Fails.mapM (f := Declaration.written stack) hd (h.bind _)).bind _
  exact Fails.bind_right _ (fun _ => hstyle.bind _)

/-- An element cannot be written if a style property of it has no value. Its attributes come first
or nearly so. -/
theorem element_fails_of_declaration {d : Declaration} (h : (value stack d.value).Fails)
    {e : Element} (hd : d ∈ e.declarations) : (element context stack e).Fails := by
  cases e with
  | div attrs _ => exact (attributes_fails hd h).bind _
  | sectionBlock attrs _ _ => exact (attributes_fails hd h).bind _
  | paragraph attrs _ => exact (attributes_fails hd h).bind _
  | heading attrs _ _ => exact (attributes_fails hd h).bind _
  | link attrs _ _ => exact (attributes_fails hd h).bind _
  | image attrs _ _ => exact (attributes_fails hd h).bind _
  | button attrs _ _ => exact (attributes_fails hd h).bind _
  | textbox attrs _ _ _ => exact Fails.bind_right _ (fun _ => (attributes_fails hd h).bind _)
  | topbar attrs _ _ _ _ => exact Fails.bind_right _ (fun _ => (attributes_fails hd h).bind _)
  | footer attrs _ => exact Fails.bind_right _ (fun _ => (attributes_fails hd h).bind _)
  | linebreak => cases hd
  | useComponent _ _ => cases hd
  | title _ => cases hd
  | icon _ => cases hd

/-- **An element cannot be written if one of its expressions has no value.** Two kinds of elements
are apart: a use of a component, whose arguments are evaluated when it is expanded, and a topbar
that ignores its links. -/
theorem element_fails_of_expression {x : Expression} (h : (value stack x).Fails) {e : Element}
    (hx : x ∈ e.expressions) (hlinks : e.ignoresLinks = false)
    (huse : ∀ name args, e ≠ .useComponent name args) : (element context stack e).Fails := by
  rcases List.mem_append.mp hx with hx | hx
  · obtain ⟨d, hd, rfl⟩ := List.mem_map.mp hx
    exact element_fails_of_declaration h hd
  cases e with
  | title text =>
    cases List.mem_singleton.mp hx
    exact (Fails.shown h).bind _
  | icon path =>
    cases List.mem_singleton.mp hx
    exact (Fails.shown h).bind _
  | div attrs content => cases hx
  | sectionBlock attrs caption content =>
    have hcaption := Fails.shown? (Option.mem_toList.mp hx) h
    exact Fails.bind_right _ (fun _ => hcaption.bind _)
  | paragraph attrs text =>
    cases List.mem_singleton.mp hx
    exact Fails.bind_right _ (fun _ => (Fails.shown h).bind _)
  | heading attrs level text =>
    cases List.mem_singleton.mp hx
    exact Fails.bind_right _ (fun _ => (Fails.shown h).bind _)
  | link attrs url text =>
    rcases List.mem_cons.mp hx with rfl | hx
    · exact Fails.bind_right _ (fun _ => (Fails.shown h).bind _)
    · cases Option.mem_toList.mp hx
      exact Fails.bind_right _ (fun _ => Fails.bind_right _ (fun _ => (Fails.shown h).bind _))
  | image attrs path alt =>
    rcases List.mem_cons.mp hx with rfl | hx
    · exact Fails.bind_right _ (fun _ => (Fails.shown h).bind _)
    · have halt := Fails.shown? (Option.mem_toList.mp hx) h
      exact Fails.bind_right _ (fun _ => Fails.bind_right _ (fun _ => halt.bind _))
  | button attrs text onclick =>
    rcases List.mem_cons.mp hx with rfl | hx
    · exact Fails.bind_right _ (fun _ => Fails.bind_right _ (fun _ => (Fails.shown h).bind _))
    · obtain ⟨click, hclick, hx⟩ := List.mem_flatMap.mp hx
      have hcall : (clickCall stack click).Fails := (Fails.mapM hx h).bind _
      have hcalls := Fails.mapM_option (Option.mem_toList.mp hclick) hcall
      exact Fails.bind_right _ (fun _ => hcalls.bind _)
  | textbox attrs label placeholder labelAfter =>
    rcases List.mem_append.mp hx with hx | hx
    · exact (Fails.shown? (Option.mem_toList.mp hx) h).bind _
    · have hhint := Fails.shown? (Option.mem_toList.mp hx) h
      exact Fails.bind_right _ (fun _ => Fails.bind_right _ (fun _ => hhint.bind _))
  | linebreak => cases hx
  | topbar attrs caption home links autoNavLinks =>
    refine Fails.bind_right _ (fun _ => Fails.bind_right _ (fun _ => ?_))
    rcases List.mem_cons.mp hx with rfl | hx
    · exact (Fails.shown h).bind _
    refine Fails.bind_right _ (fun _ => ?_)
    rcases List.mem_append.mp hx with hx | hx
    · exact (Fails.shown? (Option.mem_toList.mp hx) h).bind _
    · -- There are links, so the topbar does not list the sections instead of them.
      obtain ⟨link, hlink, htext⟩ := List.mem_filterMap.mp hx
      have hauto : autoNavLinks = false := by
        cases links with
        | nil => cases hlink
        | cons _ _ => simpa [ignoresLinks] using hlinks
      have hentry : (entry stack link.target link.text).Fails := (Fails.shown? htext h).bind _
      have hentries : (entries context stack links autoNavLinks).Fails := by
        rw [hauto]
        exact Fails.mapM (f := fun l => entry stack l.target l.text) hlink hentry
      exact Fails.bind_right _ (fun _ => hentries.bind _)
  | footer attrs text =>
    cases List.mem_singleton.mp hx
    exact Fails.bind_right _ (fun _ => Fails.bind_right _ (fun _ => (Fails.shown h).bind _))
  | useComponent component args => exact absurd rfl (huse component args)

end Markup

end Pagewright
