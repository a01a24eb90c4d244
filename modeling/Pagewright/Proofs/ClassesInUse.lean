import Pagewright.Proofs.Expansion
import Pagewright.Proofs.Fidelity
import Pagewright.Proofs.Stylesheet.Classes
import Pagewright.Publication

/-!
# The classes in use

Which rules a run collects is a side effect of writing the markup: a class is looked up where an
element refers to it, be that in a container or in a component that is used in a component. Seen
from the page it is simple. The classes in use are those of the elements that are written, and the
rules collected are the rules of these classes, in order and without repetitions
(`Document.rules_of_emitBody`).

The check of a document has its own idea of which classes there are. It asks whether a class leads
a selector, while a lookup asks whether a selector begins with the class. A class that the check
knows is always found (`Stylesheet.rulesFor_ne_nil`), so none is left without a rule.
-/

namespace Pagewright

/-! ## What the markup collects -/

/-- That an element has begun collects nothing. -/
theorem Run.collector_begun (run : Run) (e : Element) :
    (run.begun e).collector = run.collector := by
  cases e <;> rfl

namespace Emission

variable {α : Type} {source : ClassSource} {names : List String}

/-- What a pass that looks up classes collects, if it comes to its end. -/
theorem Looks.collects {m : Emission α} (h : m.Looks source names) (start : Collector) :
    m.Ensures (fun run => run.collector = start)
      (fun _ run => run.collector = start.resolveAll source names) (fun _ _ => True) := by
  rintro run rfl
  have hlooks := h run.silenced run rfl
  rcases hm : m.on run with ⟨e | a, run'⟩
  · trivial
  · rw [hm] at hlooks
    exact congrArg Run.collector hlooks

/-- What a pass that finds nothing collects. -/
theorem Quiet.collects {m : Emission α} (h : m.Quiet) (start : Collector) :
    m.Ensures (fun run => run.collector = start) (fun _ run => run.collector = start)
      (fun _ _ => True) :=
  (Looks.of_quiet (fun _ => []) h).collects start

/-- **The pass collects the rules of the elements that are written** for a list of elements, if it
comes to its end. -/
def Collects (doc : Document) (source : ClassSource) (es : List Element) (m : Emission α) : Prop :=
  ∀ start : Collector, m.Ensures (fun run => run.collector = start)
    (fun _ run => ∃ elements, doc.Expands es elements ∧
      run.collector = start.resolveAll source (elements.flatMap Element.classes))
    (fun _ _ => True)

namespace Collects

variable {β : Type} {doc : Document} {es es' : List Element}

theorem nil {m : Emission α} (h : m.Quiet) : m.Collects doc source [] :=
  fun start => (h.collects start).imp (fun _ _ hrun => ⟨[], .nil, hrun⟩)

/-- Elements that are written after others. -/
theorem append {m : Emission α} {f : α → Emission β} (hm : m.Collects doc source es)
    (hf : ∀ a, (f a).Collects doc source es') : (m >>= f).Collects doc source (es ++ es') := by
  refine fun start => Ensures.bind (hm start) (fun a => ?_)
  rintro run ⟨elements, hes, hrun⟩
  refine ((hf a _).imp (fun _ later => ?_)) run hrun
  rintro ⟨elements', hes', hlater⟩
  refine ⟨elements ++ elements', hes.append hes', ?_⟩
  rw [hlater, List.flatMap_append, Collector.resolveAll_append]

/-- What comes after the elements finds nothing more. -/
theorem bind_quiet {m : Emission α} {f : α → Emission β} (hm : m.Collects doc source es)
    (hf : ∀ a, (f a).Quiet) : (m >>= f).Collects doc source es := by
  have h := hm.append (fun a => nil (hf a))
  rw [List.append_nil] at h
  exact h

/-- **An element and its content**: the classes of the element are looked up first. -/
theorem container {m : Emission α} {f : α → Emission β} {e : Element}
    (he : ∀ name args, e ≠ .useComponent name args) (hm : m.Looks source e.classes)
    (hf : ∀ a, (f a).Collects doc source e.children) : (m >>= f).Collects doc source [e] := by
  refine fun start => Ensures.bind (hm.collects start) (fun a => (hf a _).imp (fun _ run => ?_))
  rintro ⟨inner, hinner, hrun⟩
  refine ⟨e :: inner, .written he hinner, ?_⟩
  rw [hrun, List.flatMap_cons, Collector.resolveAll_append]

end Collects

end Emission

namespace Markup

open Emission

variable {doc : Document} {source : ClassSource}

/-- A single element collects its own classes. -/
theorem element_collects_of_isSingle {landmarks : List Document.Landmark}
    {expand : Stack → String → List Expression → Emission (List Html)} {e : Element}
    (he : e.isSingle = true) (stack : Stack) :
    (element ⟨source, landmarks, expand⟩ stack e).Collects doc source [e] := by
  have hchildren : e.children = [] := by
    cases e <;> first | rfl | cases he
  have huse : ∀ name args, e ≠ .useComponent name args := by
    rintro name args rfl
    cases he
  have hnone : doc.Expands e.children [] := by
    rw [hchildren]
    exact .nil
  rintro start run rfl
  rcases hm : (element ⟨source, landmarks, expand⟩ stack e).on run with ⟨error | nodes, run'⟩
  · trivial
  · have hfinds := (element_finds he run.silenced).of_ok rfl hm
    refine ⟨[e], .written huse hnone, ?_⟩
    rw [List.flatMap_singleton]
    calc run'.silenced.collector
        = ((run.silenced.begun e).lookedUp source e.classes).collector :=
          congrArg Run.collector hfinds
      _ = run.collector.resolveAll source e.classes :=
          congrArg (·.resolveAll source e.classes) (Run.collector_begun run.silenced e)

section Walk

variable {expand : Stack → String → List Expression → Emission (List Html)}

mutual

/-- Writing an element collects its classes and those of its content. -/
theorem element_collects
    (hexpand : ∀ stack name args,
      (expand stack name args).Collects doc source [.useComponent name args])
    (stack : Stack) (e : Element) :
    (element ⟨source, doc.landmarks, expand⟩ stack e).Collects doc source [e] := by
  match e with
  | .div attrs content =>
    refine Collects.container nofun (attributes_looks source stack [] attrs) (fun _ => ?_)
    exact (elements_collects hexpand stack content).bind_quiet (fun _ => Quiet.pure _)
  | .sectionBlock attrs caption content =>
    refine Collects.container nofun (attributes_looks source stack [] attrs) (fun _ => ?_)
    refine (Collects.nil (Quiet.shown? stack caption)).append (fun shown => ?_)
    cases shown <;>
      exact (elements_collects hexpand stack content).bind_quiet (fun _ => Quiet.pure _)
  | .useComponent name args => exact hexpand stack name args
  | .title _ | .icon _ | .paragraph _ _ | .heading _ _ _ | .link _ _ _ | .image _ _ _
  | .button _ _ _ | .textbox _ _ _ _ | .linebreak | .topbar _ _ _ _ _ | .footer _ _ =>
    exact element_collects_of_isSingle rfl stack

/-- **Writing elements collects the classes of the elements they expand to.** -/
theorem elements_collects
    (hexpand : ∀ stack name args,
      (expand stack name args).Collects doc source [.useComponent name args])
    (stack : Stack) (es : List Element) :
    (elements ⟨source, doc.landmarks, expand⟩ stack es).Collects doc source es := by
  match es with
  | [] => exact .nil (Quiet.pure [])
  | e :: rest =>
    exact (element_collects hexpand stack e).append
      (fun _ => (elements_collects hexpand stack rest).bind_quiet (fun _ => Quiet.pure _))

end

end Walk

/-- A use of a component collects the classes of the component's body, by induction on the levels
left. -/
theorem instantiate_collects (doc : Document) (source : ClassSource) (levels : Nat)
    (stack : Stack) (name : String) (args : List Expression) :
    (instantiate doc source levels stack name args).Collects doc source
      [.useComponent name args] := by
  induction levels generalizing stack name args with
  | zero =>
    unfold instantiate
    cases doc.component? name <;> exact fun _ _ _ => trivial
  | succ levels ih =>
    unfold instantiate
    cases hc : doc.component? name with
    | none => exact fun _ _ _ => trivial
    | some component =>
      have hbody : (ofEvaluation (component.bind args stack) >>= fun frame =>
          elements ⟨source, doc.landmarks, instantiate doc source levels⟩ (stack.push frame)
            component.body).Collects doc source component.body :=
        (Collects.nil (Quiet.ofEvaluation _)).append
          (fun frame => elements_collects ih (stack.push frame) component.body)
      refine fun start => (hbody start).imp (fun _ run => ?_)
      rintro ⟨elements, hexpands, hrun⟩
      exact ⟨elements, .used args hc hexpands, hrun⟩

end Markup

/-- **A body that is written collects the rules of its elements.** -/
theorem Document.emitBody_collects (doc : Document) (source : ClassSource) :
    (doc.emitBody source).Collects doc source doc.body := by
  have hmarkup : (doc.markup source doc.body).Collects doc source doc.body :=
    Markup.elements_collects (Markup.instantiate_collects doc source _) .empty doc.body
  refine fun start => Emission.Ensures.bind (hmarkup start) (fun nodes => ?_)
  exact fun run hrun => hrun

/-! ## The classes that the check knows -/

/-- Nothing reported of an element means that its classes are known. -/
theorem Element.mem_known_of_diagnostics {scope : Scope} {names : NameTable} {path : Path}
    {e : Element} {loose : String → Prop} {known : List String}
    (h : AllAdmitted loose (scope.diagnostics names path e)) (hknown : scope.known = some known)
    {name : String} (hname : name ∈ e.classes) : name ∈ known := by
  unfold Element.classes at hname
  cases hattrs : e.attributes? with
  | none =>
    rw [hattrs] at hname
    cases hname
  | some attrs =>
    have hplace : e.inHead = false := by
      cases e <;> first | rfl | cases hattrs
    rw [hattrs] at hname
    unfold Scope.diagnostics at h
    rw [hplace, if_neg Bool.false_ne_true, hattrs, hknown] at h
    simp only [allAdmitted_append, allAdmitted_found] at h
    refine Decidable.byContradiction (fun hnew => ?_)
    have hfinding : Finding.unknownClass name ∈ attrs.classFindings (some known) :=
      List.mem_map_of_mem (List.mem_filter.mpr ⟨hname, by simpa using hnew⟩)
    exact nomatch (h.1.1.1 _ (List.mem_append_right _ hfinding)).1

/-- **The classes of all elements that are written are known** if the check of the document finds
no error. -/
theorem Document.Expands.mem_known {doc : Document} {known : List String}
    {elements : List Element} (h : doc.Expands doc.body elements)
    (herrors : hasErrors (doc.diagnostics (some known)) = false) {e : Element}
    (he : e ∈ elements) {name : String} (hname : name ∈ e.classes) : name ∈ known := by
  have hchecked : doc.Checked (some known) (fun _ => True) :=
    checked_of_not_hasErrors herrors (fun _ _ _ _ => trivial)
  rcases h.mem_subelementsOf he with he | ⟨c, hc, he⟩
  · obtain ⟨path, hpath⟩ := Element.exists_mem_locatedFrom doc.body [] .body 0 he
    obtain ⟨names, hnames⟩ := Scope.exists_diagnostics_of_inOrder hchecked.parts.2.1 hpath
    exact Element.mem_known_of_diagnostics hnames rfl hname
  · obtain ⟨i, hi⟩ := allAdmitted_zipIdx hchecked.parts.2.2.1 hc
    obtain ⟨path, hpath⟩ := Element.exists_mem_locatedFrom c.body [.component i] .body 0 he
    exact Element.mem_known_of_diagnostics (allAdmitted_flatMap.mp hi _ hpath) rfl hname

/-! ## The rules of a page -/

namespace Document

/-- **A page carries the rules of the classes in use.** If the body is written in a fresh run, its
elements expand in exactly one way, and the class attributes of the page are theirs, in this order.
The rules collected are those of the classes that these elements refer to, later repetitions left
out. And if the check finds no error in the document, each of these classes has a rule among
them. -/
theorem rules_of_emitBody (doc : Document) (base : Stylesheet) (text : String) (run : Run)
    (h : (doc.emitBody base.source).on .fresh = (.ok text, run)) :
    ∃ elements, (∀ es, doc.Expands doc.body es ↔ es = elements) ∧
      (∃ tree, Html.read text = some tree ∧
        Dom.valuesAll "class" tree = elements.flatMap Element.classValues) ∧
      run.rules = ((elements.flatMap Element.classes).flatMap base.rulesFor).eraseDups ∧
      (hasErrors (Publication.check doc base) = false →
        ∀ e ∈ elements, ∀ name ∈ e.classes, ∃ rule ∈ base.rulesFor name, rule ∈ run.rules) := by
  obtain ⟨elements, hexpands, hcollector⟩ :=
    (doc.emitBody_collects base.source .empty).of_ok rfl h
  obtain ⟨tree, hread, htree⟩ := exists_tree_of_emitBody h
  obtain ⟨elements', hexpands', hvalues⟩ := htree.expands
  cases hexpands'.unique hexpands
  have hrules : run.rules = ((elements.flatMap Element.classes).flatMap base.rulesFor).eraseDups :=
    (congrArg Collector.rules hcollector).trans (Collector.rules_resolveAll _ _)
  refine ⟨elements, fun es => ⟨fun hes => hes.unique hexpands, fun hes => hes ▸ hexpands⟩,
    ⟨tree, hread, hvalues⟩, hrules, fun herrors e he name hname => ?_⟩
  obtain ⟨rule, hrule⟩ := List.exists_mem_of_ne_nil _
    (Stylesheet.rulesFor_ne_nil (hexpands.mem_known herrors he hname))
  refine ⟨rule, hrule, ?_⟩
  rw [hrules, List.mem_eraseDups]
  exact List.mem_flatMap.mpr ⟨name, List.mem_flatMap.mpr ⟨e, he, hname⟩, hrule⟩

end Document

/-- Two rules for cards, one of which they share with notes. -/
def Stylesheet.cards : Stylesheet :=
  ⟨[⟨".card", ".card \x7b\x7d"⟩, ⟨".note, .card > p", ".note, .card > p \x7b\x7d"⟩]⟩

/-- A box that uses a card, and the card once more with a topbar in front of it. -/
def Document.shelf : Document where
  head := []
  components :=
    [⟨"Card", [], [.div ⟨none, ["card", "note"], []⟩ [.paragraph .none (.text "Closed")]]⟩]
  body :=
    [.div ⟨none, ["note"], []⟩ [.useComponent "Card" []],
     .topbar .none (.text "Shelf") none [] false,
     .useComponent "Card" []]
  functions := []
  statements := []
  styles := []

/-- The shared rule comes first, as the box refers to it before any card does, and each rule comes
once. -/
theorem Document.rules_of_emitBody_shelf :
    ∃ text run, (shelf.emitBody Stylesheet.cards.source).on .fresh = (.ok text, run) ∧
      hasErrors (Publication.check shelf .cards) = false ∧
      run.rules = [".note, .card > p \x7b\x7d", ".card \x7b\x7d"] ∧
      ∃ elements, (∀ es, shelf.Expands shelf.body es ↔ es = elements) ∧
        (∃ tree, Html.read text = some tree ∧
          Dom.valuesAll "class" tree = elements.flatMap Element.classValues) ∧
        run.rules
          = ((elements.flatMap Element.classes).flatMap Stylesheet.cards.rulesFor).eraseDups ∧
        ∀ e ∈ elements, ∀ name ∈ e.classes,
          ∃ rule ∈ Stylesheet.cards.rulesFor name, rule ∈ run.rules := by
  have herrors : hasErrors (Publication.check shelf .cards) = false := by decide +kernel
  refine ⟨_, _, rfl, herrors, by decide +kernel, ?_⟩
  obtain ⟨elements, hexpands, htree, hrules, hknown⟩ := rules_of_emitBody shelf .cards _ _ rfl
  exact ⟨elements, hexpands, htree, hrules, hknown herrors⟩

end Pagewright
