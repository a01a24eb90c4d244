import Pagewright.Generation.Page
import Pagewright.Proofs.Emission

/-!
# Markup does not look at the run

A run is written to all the time while the markup of a document is made, and yet the markup never
depends on it. Nor does it depend on where classes are looked up. What is more, the same things
happen to every run: the same classes are looked up, the same warnings are noted, and a topbar or a
footer is begun at the same time. Only what comes of a lookup is different from run to run.

So a pass over markup can be taken apart. There is its result, which is fixed by the document, and
there is the list of its effects, which is fixed as well (`Emission.Oblivious`). A run and a place
to look up classes are needed only to say what the effects amount to (`Run.record`). A pass that
fails is no exception: its effects are those before the failure.
-/

namespace Pagewright

/-! ## Effects on a run -/

/-- A single thing that happens to a run. -/
inductive Effect where
  | note (entry : Note)
  /-- A class is looked up. -/
  | lookup (name : String)
  /-- A topbar begins. -/
  | topbar
  /-- A footer begins. -/
  | footer
  /-- The markup of a body comes to its end. -/
  | done
  deriving DecidableEq, Repr

/-- The run after an effect. -/
def Run.apply (source : ClassSource) (run : Run) : Effect → Run
  | .note entry => { run with journal := run.journal ++ [entry] }
  | .lookup name => ((Emission.useClass source name).on run).2
  | .topbar => { run with topbar := true }
  | .footer => { run with footer := true }
  | .done => { run with markupDone := true }

/-- The run after a list of effects. -/
def Run.record (source : ClassSource) (run : Run) (effects : List Effect) : Run :=
  effects.foldl (Run.apply source) run

@[simp] theorem Run.record_append (source : ClassSource) (run : Run) (effects more : List Effect) :
    run.record source (effects ++ more) = (run.record source effects).record source more :=
  List.foldl_append

/-- Warnings are noted one by one. -/
theorem Run.record_warnings (source : ClassSource) (run : Run) (ws : List Warning) :
    run.record source (ws.map fun w => .note (.warning w)) = run.warned ws := by
  induction ws generalizing run with
  | nil => simp [Run.record, Run.warned]
  | cons w ws ih =>
    refine (ih (run.apply source (.note (.warning w)))).trans ?_
    unfold Run.warned
    rw [List.map_cons, List.append_cons]
    rfl

/-- **What every effect keeps is kept by all effects together.** -/
theorem Run.record_keeps {I : Run → Prop} {source : ClassSource}
    (h : ∀ run effect, I run → I (run.apply source effect)) {run : Run} (hrun : I run)
    (effects : List Effect) : I (run.record source effects) := by
  induction effects generalizing run with
  | nil => exact hrun
  | cons effect effects ih => exact ih (h run effect hrun)

/-! ## Passes that do not look at the run -/

namespace Emission

variable {α β : Type}

/-- **The pass does not look at the run**, nor at what is found when a class is looked up: its
result and its effects are fixed. -/
def Oblivious (m : ClassSource → Emission α) : Prop :=
  ∃ result effects, ∀ source run, (m source).on run = (result, run.record source effects)

namespace Oblivious

theorem pure (a : α) : Oblivious (fun _ => pure a) :=
  ⟨.ok a, [], fun _ _ => rfl⟩

theorem throw (e : GenerationError) : Oblivious (fun _ => (throw e : Emission α)) :=
  ⟨.error e, [], fun _ _ => rfl⟩

/-- A pass that consists of a single effect. -/
theorem effect (effect : Effect) : Oblivious (fun source => modify (Run.apply source · effect)) :=
  ⟨.ok (), [effect], fun _ _ => rfl⟩

/-- A pass in two parts has the effects of both, unless the first one fails. -/
theorem bind {m : ClassSource → Emission α} {f : ClassSource → α → Emission β}
    (hm : Oblivious m) (hf : ∀ a, Oblivious (fun source => f source a)) :
    Oblivious (fun source => m source >>= f source) := by
  obtain ⟨result, effects, hm⟩ := hm
  cases result with
  | error e =>
    refine ⟨.error e, effects, fun source run => ?_⟩
    rw [on_bind, hm]
  | ok a =>
    obtain ⟨result, more, hf⟩ := hf a
    refine ⟨result, effects ++ more, fun source run => ?_⟩
    rw [on_bind, hm, Run.record_append]
    exact hf source _

theorem map {m : ClassSource → Emission α} (hm : Oblivious m) (f : α → β) :
    Oblivious (fun source => f <$> m source) := by
  simp only [map_eq_pure_bind]
  exact hm.bind (fun a => Oblivious.pure (f a))

theorem mapM {f : ClassSource → α → Emission β} (h : ∀ x, Oblivious (fun source => f source x))
    (xs : List α) : Oblivious (fun source => xs.mapM (f source)) := by
  induction xs with
  | nil => exact Oblivious.pure []
  | cons x xs ih =>
    simp only [List.mapM_cons]
    exact (h x).bind (fun b => ih.bind (fun bs => Oblivious.pure (b :: bs)))

theorem forM {f : ClassSource → α → Emission Unit} (h : ∀ x, Oblivious (fun source => f source x))
    (xs : List α) : Oblivious (fun source => xs.forM (f source)) := by
  induction xs with
  | nil => exact Oblivious.pure ()
  | cons x xs ih => exact (h x).bind (fun _ => ih)

theorem mapM_option {f : ClassSource → α → Emission β}
    (h : ∀ x, Oblivious (fun source => f source x)) (x : Option α) :
    Oblivious (fun source => x.mapM (f source)) := by
  cases x with
  | none => exact Oblivious.pure none
  | some a => exact (h a).map some

/-- An evaluation has warnings for its effects. -/
theorem ofEvaluation (m : Evaluation α) : Oblivious (fun _ => ofEvaluation m) := by
  refine ⟨m.result, m.warnings.map fun w => .note (.warning w), fun source run => ?_⟩
  rw [on_ofEvaluation, Run.record_warnings]

theorem value (stack : Stack) (x : Expression) : Oblivious (fun _ => value stack x) :=
  Oblivious.ofEvaluation _

theorem shown (stack : Stack) (x : Expression) : Oblivious (fun _ => shown stack x) :=
  (Oblivious.value stack x).bind (fun _ => Oblivious.pure _)

theorem shown? (stack : Stack) (x : Option Expression) : Oblivious (fun _ => shown? stack x) := by
  cases x with
  | none => exact Oblivious.pure none
  | some x => exact (Oblivious.shown stack x).bind (fun _ => Oblivious.pure _)

/-- **The result is the same from every run**, wherever classes are looked up. -/
theorem result_eq {m : ClassSource → Emission α} (h : Oblivious m) (source source' : ClassSource)
    (run run' : Run) : ((m source).on run).1 = ((m source').on run').1 := by
  obtain ⟨result, effects, h⟩ := h
  rw [h, h]

/-- **What every effect keeps is kept by the pass**, whether or not it fails. -/
theorem keeps {m : ClassSource → Emission α} (hm : Oblivious m) {I : Run → Prop}
    {source : ClassSource} (h : ∀ run effect, I run → I (run.apply source effect)) :
    (m source).Keeps I (fun _ => I) := by
  obtain ⟨result, effects, hm⟩ := hm
  intro run hrun
  rw [hm]
  cases result with
  | error e => exact Run.record_keeps h hrun effects
  | ok a => exact Run.record_keeps h hrun effects

end Oblivious

end Emission

/-! ## Elements -/

namespace Markup

open Emission

variable {stack : Stack}

theorem attributes_oblivious (stack : Stack) (own : List String) (attrs : Attributes) :
    Oblivious (fun source => attributes source stack own attrs) := by
  have hlookups : Oblivious (fun source => attrs.classes.forM (useClass source)) :=
    Oblivious.forM (fun name => Oblivious.effect (.lookup name)) attrs.classes
  have hwritten : ∀ d : Declaration, Oblivious (fun _ => d.written stack) :=
    fun d => (Oblivious.value stack d.value).bind (fun _ => Oblivious.pure _)
  have hstyle : Oblivious (fun _ => inlineStyle stack attrs.css) :=
    (Oblivious.mapM hwritten attrs.css).bind (fun _ => Oblivious.pure _)
  exact hlookups.bind (fun _ => hstyle.bind (fun _ => Oblivious.pure _))

theorem clickCall_oblivious (stack : Stack) (click : Click) :
    Oblivious (fun _ => clickCall stack click) :=
  (Oblivious.mapM (Oblivious.value stack) click.arguments).bind (fun _ => Oblivious.pure _)

theorem entry_oblivious (stack : Stack) (target : String) (text : Option Expression) :
    Oblivious (fun _ => entry stack target text) :=
  (Oblivious.shown? stack text).bind (fun _ => Oblivious.pure _)

section Walk

variable {landmarks : List Document.Landmark}
  {expand : ClassSource → Stack → String → List Expression → Emission (List Html)}

theorem entries_oblivious (links : List NavLink) (auto : Bool) :
    Oblivious (fun source => entries ⟨source, landmarks, expand source⟩ stack links auto) := by
  cases auto with
  | true => exact Oblivious.mapM (fun l => entry_oblivious .empty l.name l.title) landmarks
  | false => exact Oblivious.mapM (fun l => entry_oblivious stack l.target l.text) links

mutual

/-- **Writing an element does not look at the run**, if expanding a component does not. -/
theorem element_oblivious
    (hexpand : ∀ name args, Oblivious (fun source => expand source stack name args)) (e : Element) :
    Oblivious (fun source => element ⟨source, landmarks, expand source⟩ stack e) := by
  match e with
  | .title text => exact (Oblivious.shown stack text).bind (fun _ => Oblivious.pure _)
  | .icon path => exact (Oblivious.shown stack path).bind (fun _ => Oblivious.pure _)
  | .div attrs content =>
    refine (attributes_oblivious stack [] attrs).bind (fun _ => ?_)
    exact (elements_oblivious hexpand content).bind (fun _ => Oblivious.pure _)
  | .sectionBlock attrs caption content =>
    refine (attributes_oblivious stack [] attrs).bind (fun _ => ?_)
    refine (Oblivious.shown? stack caption).bind (fun shown => ?_)
    cases shown with
    | none => exact (elements_oblivious hexpand content).bind (fun _ => Oblivious.pure _)
    | some s => exact (elements_oblivious hexpand content).bind (fun _ => Oblivious.pure _)
  | .paragraph attrs text =>
    refine (attributes_oblivious stack [] attrs).bind (fun _ => ?_)
    exact (Oblivious.shown stack text).bind (fun _ => Oblivious.pure _)
  | .heading attrs level text =>
    refine (attributes_oblivious stack [] attrs).bind (fun _ => ?_)
    exact (Oblivious.shown stack text).bind (fun _ => Oblivious.pure _)
  | .link attrs url text =>
    refine (attributes_oblivious stack [] attrs).bind (fun _ => ?_)
    refine (Oblivious.shown stack url).bind (fun _ => ?_)
    exact (Oblivious.shown stack (text.getD url)).bind (fun _ => Oblivious.pure _)
  | .image attrs path alt =>
    refine (attributes_oblivious stack [] attrs).bind (fun _ => ?_)
    refine (Oblivious.shown stack path).bind (fun _ => ?_)
    exact (Oblivious.shown? stack alt).bind (fun _ => Oblivious.pure _)
  | .button attrs text onclick =>
    refine (attributes_oblivious stack [] attrs).bind (fun _ => ?_)
    refine (Oblivious.mapM_option (clickCall_oblivious stack) onclick).bind (fun _ => ?_)
    exact (Oblivious.shown stack text).bind (fun _ => Oblivious.pure _)
  | .textbox attrs label placeholder labelAfter =>
    refine (Oblivious.shown? stack label).bind (fun caption => ?_)
    refine (attributes_oblivious stack [] attrs).bind (fun _ => ?_)
    refine (Oblivious.shown? stack placeholder).bind (fun _ => ?_)
    cases caption with
    | none => exact Oblivious.pure _
    | some caption => exact Oblivious.pure _
  | .linebreak => exact Oblivious.pure _
  | .topbar attrs caption home links autoNavLinks =>
    refine (Oblivious.effect .topbar).bind (fun _ => ?_)
    refine (attributes_oblivious stack [topbarClass] attrs).bind (fun _ => ?_)
    refine (Oblivious.shown stack caption).bind (fun _ => ?_)
    refine (Oblivious.shown? stack home).bind (fun _ => ?_)
    exact (entries_oblivious links autoNavLinks).bind (fun _ => Oblivious.pure _)
  | .footer attrs text =>
    refine (Oblivious.effect .footer).bind (fun _ => ?_)
    refine (attributes_oblivious stack [footerClass] attrs).bind (fun _ => ?_)
    exact (Oblivious.shown stack text).bind (fun _ => Oblivious.pure _)
  | .useComponent component arguments => exact hexpand component arguments

/-- Writing elements that follow each other does not look at the run, if expanding a component does
not. -/
theorem elements_oblivious
    (hexpand : ∀ name args, Oblivious (fun source => expand source stack name args))
    (es : List Element) :
    Oblivious (fun source => elements ⟨source, landmarks, expand source⟩ stack es) := by
  match es with
  | [] => exact Oblivious.pure []
  | e :: rest =>
    refine (element_oblivious hexpand e).bind (fun _ => ?_)
    exact (elements_oblivious hexpand rest).bind (fun _ => Oblivious.pure _)

end

end Walk

/-- **Expanding a component does not look at the run**, by induction on the levels left. -/
theorem instantiate_oblivious (doc : Document) (levels : Nat) (stack : Stack) (name : String)
    (args : List Expression) :
    Oblivious (fun source => instantiate doc source levels stack name args) := by
  induction levels generalizing stack name args with
  | zero =>
    unfold instantiate
    cases doc.component? name with
    | none => exact Oblivious.throw _
    | some component => exact Oblivious.throw _
  | succ levels ih =>
    unfold instantiate
    cases doc.component? name with
    | none => exact Oblivious.throw _
    | some component =>
      refine (Oblivious.ofEvaluation (component.bind args stack)).bind (fun frame => ?_)
      exact elements_oblivious (fun name args => ih (stack.push frame) name args) component.body

end Markup

/-! ## Passes over a document -/

namespace Document

open Emission

/-- **The markup of a document does not depend on the run.** -/
theorem markup_oblivious (doc : Document) (es : List Element) :
    Oblivious (fun source => doc.markup source es) :=
  Markup.elements_oblivious
    (fun name args => Markup.instantiate_oblivious doc _ .empty name args) es

theorem emitHead_oblivious (doc : Document) : Oblivious doc.emitHead :=
  (doc.markup_oblivious doc.head).bind (fun _ => Oblivious.pure _)

theorem emitBody_oblivious (doc : Document) : Oblivious doc.emitBody :=
  (doc.markup_oblivious doc.body).bind (fun _ =>
    (Oblivious.effect .done).bind (fun _ => Oblivious.pure _))

theorem emitPage_oblivious (doc : Document) (options : PageOptions) :
    Oblivious (fun source => doc.emitPage source options) := by
  refine (Oblivious.effect (.note (.markupPass doc.head.length doc.body.length))).bind (fun _ => ?_)
  refine (doc.markup_oblivious doc.head).bind (fun _ => ?_)
  refine (doc.markup_oblivious doc.body).bind (fun _ => ?_)
  exact (Oblivious.effect .done).bind (fun _ => Oblivious.pure _)

end Document

end Pagewright
