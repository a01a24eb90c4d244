import Pagewright.Proofs.Findings
import Pagewright.Proofs.Histories

/-!
# Elements that have begun

A run remembers whether writing a topbar or a footer has begun, so that the stylesheet can bring the
rules they need. It remembers this of every pass, over whatever document, and also of passes that
have failed since. This module says which elements those are, without the run: an element begins if
everything in front of it could be written, be that in the list it stands in, in the containers
around it, or in the components it is used through (`Document.Begins`). From there it follows what a
run knows after a history of passes (`Run.knows_after`).
-/

namespace Pagewright

open Emission

/-! ## Elements that begin -/

/-- The pass comes to its end. For a pass that does not look at the run it does not matter from
which run it starts. -/
def Emission.Succeeds {α : Type} (m : ClassSource → Emission α) : Prop :=
  ∃ a, ((m fun _ => []).on .fresh).1 = .ok a

/-- **The element begins to be written** when elements are written inside the frames of a stack,
with so many levels left to go deeper. Whatever comes before it must have been written to its end:
the elements in front, the attributes and the title of the container around it, the arguments of
the component it stands in. -/
inductive Document.Begins (doc : Document) : Nat → Stack → List Element → Element → Prop where
  | here {levels : Nat} {stack : Stack} {e : Element} {rest : List Element} :
      Begins doc levels stack (e :: rest) e
  | later {levels : Nat} {stack : Stack} {first e : Element} {rest : List Element}
      (hfirst : Succeeds fun source =>
        Markup.element ⟨source, doc.landmarks, Markup.instantiate doc source levels⟩ stack first)
      (h : Begins doc levels stack rest e) : Begins doc levels stack (first :: rest) e
  | div {levels : Nat} {stack : Stack} {attrs : Attributes} {content rest : List Element}
      {e : Element} (hattrs : Succeeds fun source => Markup.attributes source stack [] attrs)
      (h : Begins doc levels stack content e) :
      Begins doc levels stack (.div attrs content :: rest) e
  | sectionBlock {levels : Nat} {stack : Stack} {attrs : Attributes}
      {caption : Option Expression} {content rest : List Element} {e : Element}
      (hattrs : Succeeds fun source => Markup.attributes source stack [] attrs)
      (hcaption : Succeeds fun _ => shown? stack caption)
      (h : Begins doc levels stack content e) :
      Begins doc levels stack (.sectionBlock attrs caption content :: rest) e
  | useComponent {levels : Nat} {stack : Stack} {name : String} {args : List Expression}
      {component : Component} {frame : Frame} {rest : List Element} {e : Element}
      (hc : doc.component? name = some component)
      (hframe : (component.bind args stack).result = .ok frame)
      (h : Begins doc levels (stack.push frame) component.body e) :
      Begins doc (levels + 1) stack (.useComponent name args :: rest) e

/-- What a run remembers of an element that has begun. -/
def Element.mark? : Element → Option Effect
  | .topbar .. => some .topbar
  | .footer .. => some .footer
  | _ => none

/-- **An element with this mark begins.** -/
def Document.Marks (doc : Document) (mark : Effect) (levels : Nat) (stack : Stack)
    (es : List Element) : Prop :=
  ∃ e, doc.Begins levels stack es e ∧ e.mark? = some mark

namespace Document

variable {doc : Document} {mark : Effect} {levels : Nat} {stack : Stack}

theorem not_marks_nil : ¬ doc.Marks mark levels stack [] := by
  rintro ⟨e, he, -⟩
  cases he

/-- In a list, the mark is made by the first element, or behind it if it could be written. -/
theorem marks_cons_iff {first : Element} {rest : List Element} :
    doc.Marks mark levels stack (first :: rest) ↔
      doc.Marks mark levels stack [first] ∨
        (Succeeds fun source => Markup.element
          ⟨source, doc.landmarks, Markup.instantiate doc source levels⟩ stack first) ∧
          doc.Marks mark levels stack rest := by
  constructor
  · rintro ⟨e, he, hmark⟩
    cases he with
    | here => exact .inl ⟨first, .here, hmark⟩
    | later hfirst h => exact .inr ⟨hfirst, e, h, hmark⟩
    | div hattrs h => exact .inl ⟨e, .div hattrs h, hmark⟩
    | sectionBlock hattrs hcaption h => exact .inl ⟨e, .sectionBlock hattrs hcaption h, hmark⟩
    | useComponent hc hframe h => exact .inl ⟨e, .useComponent hc hframe h, hmark⟩
  · rintro (⟨e, he, hmark⟩ | ⟨hfirst, e, he, hmark⟩)
    · refine ⟨e, ?_, hmark⟩
      cases he with
      | here => exact .here
      | later _ h => cases h
      | div hattrs h => exact .div hattrs h
      | sectionBlock hattrs hcaption h => exact .sectionBlock hattrs hcaption h
      | useComponent hc hframe h => exact .useComponent hc hframe h
    · exact ⟨e, .later hfirst he, hmark⟩

theorem marks_single_iff {e : Element} (he : e.isSingle = true) :
    doc.Marks mark levels stack [e] ↔ e.mark? = some mark := by
  constructor
  · rintro ⟨x, hx, hmark⟩
    cases hx with
    | here => exact hmark
    | later _ h => cases h
    | div => cases he
    | sectionBlock => cases he
    | useComponent => cases he
  · exact fun hmark => ⟨e, .here, hmark⟩

theorem marks_div_iff {attrs : Attributes} {content : List Element} :
    doc.Marks mark levels stack [.div attrs content] ↔
      (Succeeds fun source => Markup.attributes source stack [] attrs) ∧
        doc.Marks mark levels stack content := by
  constructor
  · rintro ⟨x, hx, hmark⟩
    cases hx with
    | here => cases hmark
    | later _ h => cases h
    | div hattrs h => exact ⟨hattrs, x, h, hmark⟩
  · exact fun ⟨hattrs, x, h, hmark⟩ => ⟨x, .div hattrs h, hmark⟩

theorem marks_sectionBlock_iff {attrs : Attributes} {caption : Option Expression}
    {content : List Element} :
    doc.Marks mark levels stack [.sectionBlock attrs caption content] ↔
      (Succeeds fun source => Markup.attributes source stack [] attrs) ∧
        (Succeeds fun _ => shown? stack caption) ∧ doc.Marks mark levels stack content := by
  constructor
  · rintro ⟨x, hx, hmark⟩
    cases hx with
    | here => cases hmark
    | later _ h => cases h
    | sectionBlock hattrs hcaption h => exact ⟨hattrs, hcaption, x, h, hmark⟩
  · exact fun ⟨hattrs, hcaption, x, h, hmark⟩ => ⟨x, .sectionBlock hattrs hcaption h, hmark⟩

/-- A use of a component makes the marks of the component's body, if it comes to that. -/
theorem marks_useComponent_iff {name : String} {args : List Expression} :
    doc.Marks mark levels stack [.useComponent name args] ↔
      ∃ component frame inner, doc.component? name = some component ∧
        (component.bind args stack).result = .ok frame ∧ levels = inner + 1 ∧
        doc.Marks mark inner (stack.push frame) component.body := by
  constructor
  · rintro ⟨x, hx, hmark⟩
    cases hx with
    | here => cases hmark
    | later _ h => cases h
    | useComponent hc hframe h => exact ⟨_, _, _, hc, hframe, rfl, x, h, hmark⟩
  · rintro ⟨component, frame, inner, hc, hframe, rfl, x, h, hmark⟩
    exact ⟨x, .useComponent hc hframe h, hmark⟩

end Document

/-! ## Marks that a pass makes -/

namespace Emission

variable {α β : Type} {mark : Effect} {p q : Prop}

/-- **The pass makes a mark if and only if `p` holds**, whether or not it comes to its end. -/
structure Makes (mark : Effect) (p : Prop) (m : ClassSource → Emission α) : Prop where
  oblivious : Oblivious m
  knows_iff : ∀ source run, ((m source).on run).2.Knows mark ↔ run.Knows mark ∨ p

namespace Makes

theorem imp_iff {m : ClassSource → Emission α} (h : Makes mark p m) (hpq : p ↔ q) :
    Makes mark q m :=
  ⟨h.oblivious, fun source run => (h.knows_iff source run).trans (or_congr_right hpq)⟩

/-- A pass in two parts makes the marks of the first, and those of the second if it comes to
that. -/
theorem bind {m : ClassSource → Emission α} {f : ClassSource → α → Emission β}
    (hm : Makes mark p m) (hf : ∀ a, Makes mark q (fun source => f source a)) :
    Makes mark (p ∨ Succeeds m ∧ q) (fun source => m source >>= f source) := by
  refine ⟨hm.oblivious.bind (fun a => (hf a).oblivious), fun source run => ?_⟩
  have hresult := hm.oblivious.result_eq source (fun _ => []) run .fresh
  have hknows := hm.knows_iff source run
  rw [on_bind]
  rcases heq : (m source).on run with ⟨e | a, between⟩
  · rw [heq] at hresult hknows
    have hfails : ¬ Succeeds m := by
      rintro ⟨a, ha⟩
      cases hresult.trans ha
    exact hknows.trans (or_congr_right (by simp [hfails]))
  · rw [heq] at hresult hknows
    have hsucceeds : Succeeds m := ⟨a, hresult.symm⟩
    refine ((hf a).knows_iff source between).trans ?_
    rw [hknows, or_assoc]
    simp [hsucceeds]

/-- What comes after makes no mark. -/
theorem bind_none {m : ClassSource → Emission α} {f : ClassSource → α → Emission β}
    (hm : Makes mark p m) (hf : ∀ a, Makes mark False (fun source => f source a)) :
    Makes mark p (fun source => m source >>= f source) :=
  (hm.bind hf).imp_iff (by simp)

/-- What comes before makes no mark. -/
theorem none_bind {m : ClassSource → Emission α} {f : ClassSource → α → Emission β}
    (hm : Makes mark False m) (hf : ∀ a, Makes mark q (fun source => f source a)) :
    Makes mark (Succeeds m ∧ q) (fun source => m source >>= f source) :=
  (hm.bind hf).imp_iff (by simp)

theorem pure (a : α) : Makes mark False (fun _ => pure a) :=
  ⟨Oblivious.pure a, fun _ _ => (or_false _).symm.to_iff⟩

theorem throw (e : GenerationError) : Makes mark False (fun _ => (throw e : Emission α)) :=
  ⟨Oblivious.throw e, fun _ _ => (or_false _).symm.to_iff⟩

end Makes

end Emission

section Marks

variable {mark : Effect} (hmark : mark = .topbar ∨ mark = .footer)

include hmark

/-- Runs that know of the same topbars and footers know the same marks. -/
theorem Run.Alike.knows_iff {run run' : Run} (h : run.Alike run') :
    run.Knows mark ↔ run'.Knows mark := by
  rcases hmark with rfl | rfl
  · show run.topbar = true ↔ run'.topbar = true
    rw [h.1]
  · show run.footer = true ↔ run'.footer = true
    rw [h.2]

/-- An element that begins makes its mark. -/
theorem Run.knows_begun_iff (run : Run) (e : Element) :
    (run.begun e).Knows mark ↔ run.Knows mark ∨ e.mark? = some mark := by
  cases e with
  | topbar => rcases hmark with rfl | rfl <;> simp [Run.begun, Run.Knows, Element.mark?]
  | footer => rcases hmark with rfl | rfl <;> simp [Run.begun, Run.Knows, Element.mark?]
  | _ => simp [Run.begun, Element.mark?]

/-- A pass that leaves topbars and footers alone makes no mark. -/
theorem Emission.Makes.of_alike {α : Type} {m : ClassSource → Emission α} (hm : Oblivious m)
    (h : ∀ source run, ((m source).on run).2.Alike run) : Makes mark False m := by
  refine ⟨hm, fun source run => ?_⟩
  rw [or_false]
  exact Run.Alike.knows_iff hmark (h source run)

/-- A pass that looks up classes makes no mark. -/
theorem Emission.Makes.of_looks {α : Type} {m : ClassSource → Emission α} {names : List String}
    (hm : Oblivious m) (h : ∀ source, (m source).Looks source names) : Makes mark False m := by
  refine Makes.of_alike hmark hm (fun source run => ?_)
  have hlooks := h source run.silenced run rfl
  rcases heq : (m source).on run with ⟨e | a, run'⟩
  · rw [heq] at hlooks
    exact hlooks
  · rw [heq] at hlooks
    have halike := Run.alike_of_silenced hlooks
    exact halike

theorem Emission.Makes.of_quiet {α : Type} {m : ClassSource → Emission α} (hm : Oblivious m)
    (h : ∀ source, (m source).Quiet) : Makes mark False m :=
  Makes.of_looks hmark hm (fun source => Looks.of_quiet source (h source))

end Marks

namespace Markup

section Walk

variable {doc : Document} {mark : Effect} {levels : Nat}

/-- A single element makes its own mark. -/
theorem element_makes_of_isSingle (hmark : mark = .topbar ∨ mark = .footer) {e : Element}
    (he : e.isSingle = true) (stack : Stack) :
    Makes mark (doc.Marks mark levels stack [e]) (fun source =>
      element ⟨source, doc.landmarks, instantiate doc source levels⟩ stack e) := by
  refine ⟨element_oblivious (fun name args => instantiate_oblivious doc levels stack name args) e,
    fun source run => ?_⟩
  have hfound : ∀ run' : Run, run'.Alike (run.silenced.begun e) →
      (run'.Knows mark ↔ run.Knows mark ∨ doc.Marks mark levels stack [e]) := by
    intro run' halike
    have hsame : run.silenced.Alike run := ⟨rfl, rfl⟩
    rw [Run.Alike.knows_iff hmark halike, Run.knows_begun_iff hmark,
      Run.Alike.knows_iff hmark hsame, Document.marks_single_iff he]
  rcases heq : (element ⟨source, doc.landmarks, instantiate doc source levels⟩ stack e).on run with
    ⟨error | nodes, run'⟩
  · exact hfound run' ((element_finds he run.silenced).of_error rfl heq)
  · have halike := Run.alike_of_silenced ((element_finds he run.silenced).of_ok rfl heq)
    exact hfound run' halike

mutual

/-- Writing an element makes the marks of the elements that begin in it. -/
theorem element_makes (hmark : mark = .topbar ∨ mark = .footer)
    (hexpand : ∀ stack name args,
      Makes mark (doc.Marks mark levels stack [.useComponent name args])
        (fun source => instantiate doc source levels stack name args))
    (stack : Stack) (e : Element) :
    Makes mark (doc.Marks mark levels stack [e]) (fun source =>
      element ⟨source, doc.landmarks, instantiate doc source levels⟩ stack e) := by
  match e with
  | .div attrs content =>
    refine Makes.imp_iff ?_ Document.marks_div_iff.symm
    have hattrs : Makes mark False (fun source => attributes source stack [] attrs) :=
      .of_looks hmark (attributes_oblivious stack [] attrs)
        (fun source => attributes_looks source stack [] attrs)
    exact hattrs.none_bind (fun _ =>
      (elements_makes hmark hexpand stack content).bind_none (fun _ => Makes.pure _))
  | .sectionBlock attrs caption content =>
    refine Makes.imp_iff ?_ Document.marks_sectionBlock_iff.symm
    have hattrs : Makes mark False (fun source => attributes source stack [] attrs) :=
      .of_looks hmark (attributes_oblivious stack [] attrs)
        (fun source => attributes_looks source stack [] attrs)
    have hcaption : Makes mark False (fun _ => shown? stack caption) :=
      .of_quiet hmark (Oblivious.shown? stack caption) (fun _ => Quiet.shown? stack caption)
    refine hattrs.none_bind (fun _ => hcaption.none_bind (fun shown => ?_))
    cases shown <;>
      exact (elements_makes hmark hexpand stack content).bind_none (fun _ => Makes.pure _)
  | .useComponent name args => exact hexpand stack name args
  | .title _ | .icon _ | .paragraph _ _ | .heading _ _ _ | .link _ _ _ | .image _ _ _
  | .button _ _ _ | .textbox _ _ _ _ | .linebreak | .topbar _ _ _ _ _ | .footer _ _ =>
    exact element_makes_of_isSingle hmark rfl stack

/-- **Writing elements makes the marks of the elements that begin**, and no others. -/
theorem elements_makes (hmark : mark = .topbar ∨ mark = .footer)
    (hexpand : ∀ stack name args,
      Makes mark (doc.Marks mark levels stack [.useComponent name args])
        (fun source => instantiate doc source levels stack name args))
    (stack : Stack) (es : List Element) :
    Makes mark (doc.Marks mark levels stack es) (fun source =>
      elements ⟨source, doc.landmarks, instantiate doc source levels⟩ stack es) := by
  match es with
  | [] => exact (Makes.pure []).imp_iff (iff_of_false id Document.not_marks_nil)
  | e :: rest =>
    refine Makes.imp_iff ?_ Document.marks_cons_iff.symm
    exact (element_makes hmark hexpand stack e).bind (fun _ =>
      (elements_makes hmark hexpand stack rest).bind_none (fun _ => Makes.pure _))

end

end Walk

/-- A use of a component makes the marks of the elements that begin in its body, by induction on the
levels left. -/
theorem instantiate_makes {mark : Effect} (hmark : mark = .topbar ∨ mark = .footer)
    (doc : Document) (levels : Nat) (stack : Stack) (name : String) (args : List Expression) :
    Makes mark (doc.Marks mark levels stack [.useComponent name args])
      (fun source => instantiate doc source levels stack name args) := by
  refine Makes.imp_iff ?_ Document.marks_useComponent_iff.symm
  induction levels generalizing stack name args with
  | zero =>
    unfold instantiate
    cases doc.component? name <;> exact (Makes.throw _).imp_iff (by simp)
  | succ levels ih =>
    cases hc : doc.component? name with
    | none =>
      unfold instantiate
      simp only [hc]
      exact (Makes.throw _).imp_iff (by simp)
    | some component =>
      refine ⟨instantiate_oblivious doc (levels + 1) stack name args, fun source run => ?_⟩
      have hwarned : ∀ ws, (run.warned ws).Knows mark ↔ run.Knows mark :=
        fun ws => Run.Alike.knows_iff hmark ⟨rfl, rfl⟩
      unfold instantiate
      rw [hc]
      show ((ofEvaluation (component.bind args stack) >>= fun frame =>
        elements ⟨source, doc.landmarks, instantiate doc source levels⟩ (stack.push frame)
          component.body).on run).2.Knows mark ↔ _
      rw [on_bind, on_ofEvaluation]
      cases hframe : (component.bind args stack).result with
      | error e => exact (hwarned _).trans (by simp [hframe])
      | ok frame =>
        have hbody := elements_makes hmark
          (fun stack name args => (ih stack name args).imp_iff
            Document.marks_useComponent_iff.symm) (stack.push frame) component.body
        refine (hbody.knows_iff source _).trans ((or_congr_left (hwarned _)).trans ?_)
        simp [hframe]

end Markup

/-! ## Marks that a run makes -/

/-- Writing elements outside all components makes the marks of those that begin. -/
theorem Document.markup_makes {mark : Effect} (hmark : mark = .topbar ∨ mark = .footer)
    (doc : Document) (es : List Element) :
    Makes mark (doc.Marks mark depthLimit .empty es) (fun source => doc.markup source es) :=
  Markup.elements_makes hmark (Markup.instantiate_makes hmark doc depthLimit) .empty es

/-- **The element begins in the course of the pass.** The body of a page comes after its head. A
stylesheet begins elements only if it has to write the body. -/
def Pass.Begins (run : Run) : Pass → Element → Prop
  | head doc, e => doc.Begins depthLimit .empty doc.head e
  | body doc, e => doc.Begins depthLimit .empty doc.body e
  | page doc _, e => doc.Begins depthLimit .empty doc.head e ∨
      (Succeeds fun source => doc.markup source doc.head) ∧
        doc.Begins depthLimit .empty doc.body e
  | stylesheet doc, e => run.markupDone = false ∧ doc.Begins depthLimit .empty doc.body e

/-- **The element begins in the course of a history of passes**, in one that fails or not. -/
def Run.Begins (source : ClassSource) : Run → List Pass → Element → Prop
  | _, [], _ => False
  | run, pass :: history, e =>
    pass.Begins run e ∨ Begins source ((pass.emission source).on run).2 history e

section Histories

variable {mark : Effect} (hmark : mark = .topbar ∨ mark = .footer)

include hmark

theorem Document.emitBody_makes (doc : Document) :
    Makes mark (doc.Marks mark depthLimit .empty doc.body) doc.emitBody := by
  have hdone : Makes mark False (fun source => modify (Run.apply source · .done)) :=
    .of_alike hmark (Oblivious.effect .done) (fun _ _ => ⟨rfl, rfl⟩)
  exact (doc.markup_makes hmark doc.body).bind_none
    (fun _ => hdone.bind_none (fun _ => Makes.pure _))

theorem Document.emitPage_makes (doc : Document) (options : PageOptions) :
    Makes mark
      (doc.Marks mark depthLimit .empty doc.head ∨
        (Succeeds fun source => doc.markup source doc.head) ∧
          doc.Marks mark depthLimit .empty doc.body)
      (fun source => doc.emitPage source options) := by
  have hdone : Makes mark False (fun source => modify (Run.apply source · .done)) :=
    .of_alike hmark (Oblivious.effect .done) (fun _ _ => ⟨rfl, rfl⟩)
  have hnote : Makes mark False (fun _ => note (.markupPass doc.head.length doc.body.length)) :=
    .of_quiet hmark (Oblivious.effect (.note _)) (fun _ => Quiet.note _)
  have hbegun : Succeeds (fun _ => note (.markupPass doc.head.length doc.body.length)) :=
    ⟨(), rfl⟩
  refine (hnote.none_bind (fun _ => (doc.markup_makes hmark doc.head).bind (fun _ =>
    (doc.markup_makes hmark doc.body).bind_none (fun _ =>
      hdone.bind_none (fun _ => Makes.pure _))))).imp_iff ?_
  simp [hbegun]

/-- **What a pass adds to the marks of a run.** -/
theorem Pass.knows_iff (pass : Pass) (source : ClassSource) (run : Run) :
    ((pass.emission source).on run).2.Knows mark ↔
      run.Knows mark ∨ ∃ e, pass.Begins run e ∧ e.mark? = some mark := by
  cases pass with
  | head doc =>
    have hhead := (doc.markup_makes hmark doc.head).bind_none
      (fun nodes => Makes.pure (Html.render nodes))
    exact hhead.knows_iff source run
  | body doc => exact (doc.emitBody_makes hmark).knows_iff source run
  | page doc options =>
    refine ((doc.emitPage_makes hmark options).knows_iff source run).trans (or_congr_right ?_)
    simp only [Pass.Begins, Document.Marks, or_and_right, exists_or, and_assoc, exists_and_left]
  | stylesheet doc =>
    have hrules : ∀ run, (doc.emitRules.on run).2.Alike run := by
      intro run
      have halike := Run.alike_of_silenced (doc.emitRules_quiet.silenced_on run)
      exact halike
    show ((doc.emitStylesheet source).on run).2.Knows mark ↔ _
    rw [Document.on_emitStylesheet]
    by_cases hdone : run.markupDone = true
    · rw [if_pos hdone, Run.Alike.knows_iff hmark (hrules run)]
      simp [Pass.Begins, hdone]
    · have hbody := (doc.emitBody_makes hmark).knows_iff source run
      have hmarks : doc.Marks mark depthLimit .empty doc.body
          ↔ ∃ e, (Pass.stylesheet doc).Begins run e ∧ e.mark? = some mark := by
        simp [Pass.Begins, Document.Marks, hdone]
      rw [hmarks] at hbody
      rw [if_neg hdone, on_bind]
      rcases hresult : (doc.emitBody source).on run with ⟨e | text, run'⟩
      · rw [hresult] at hbody
        exact hbody
      · rw [hresult] at hbody
        exact (Run.Alike.knows_iff hmark (hrules run')).trans hbody

/-- **What a run knows after a history of passes**: what it knew before, and the marks of all
elements that have begun since. -/
theorem Run.knows_after (source : ClassSource) (run : Run) (history : List Pass) :
    (run.after source history).Knows mark ↔
      run.Knows mark ∨ ∃ e, run.Begins source history e ∧ e.mark? = some mark := by
  induction history generalizing run with
  | nil =>
    show run.Knows mark ↔ _
    simp [Run.Begins]
  | cons pass history ih =>
    refine (ih _).trans ?_
    rw [Pass.knows_iff hmark]
    simp only [Run.Begins, or_and_right, exists_or, or_assoc]

end Histories

end Pagewright
