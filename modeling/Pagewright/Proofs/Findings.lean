import Pagewright.Proofs.Effects
import Pagewright.Proofs.Passes
import Pagewright.Proofs.Stylesheet.Collector
import Pagewright.Proofs.Walk

/-!
# What a run finds out

A run keeps a journal of everything that happens, and apart from the journal it knows a few things
only: which classes have been looked up and which rules that gave, whether a topbar or a footer has
begun, and whether the markup is done. The stylesheet depends on these findings and on nothing else.

Findings are made once. When a run knows already what an effect finds (`Run.Knows`), the effect
adds at most a note, and so the effects of a pass that is repeated find nothing new
(`Run.silenced_record_record`). Most of what a pass does finds nothing at all: expressions are
evaluated, and the journal grows (`Emission.Quiet`).
-/

namespace Pagewright

/-! ## Findings -/

namespace Run

variable {source : ClassSource} {run run' : Run} {effect : Effect}

/-- **The findings of a run**: all that it knows, without its journal. -/
def silenced (run : Run) : Run :=
  { run with journal := [] }

/-- What an effect finds does not depend on the journal. -/
theorem silenced_apply (source : ClassSource) (run : Run) (effect : Effect) :
    (run.apply source effect).silenced = (run.silenced.apply source effect).silenced := by
  cases effect <;> rfl

/-- Runs with the same findings have the same findings after the same effects. -/
theorem silenced_record (h : run.silenced = run'.silenced) (effects : List Effect) :
    (run.record source effects).silenced = (run'.record source effects).silenced := by
  induction effects generalizing run run' with
  | nil => exact h
  | cons effect effects ih =>
    refine ih ?_
    rw [silenced_apply, h, ← silenced_apply]

/-- **The run knows already what the effect finds.** -/
def Knows (run : Run) : Effect → Prop
  | .note _ => True
  | .lookup name => name ∈ run.collector.seen
  | .topbar => run.topbar = true
  | .footer => run.footer = true
  | .done => run.markupDone = true

/-- An effect finds nothing new in a run that knows already. -/
theorem silenced_apply_of_knows (h : run.Knows effect) :
    (run.apply source effect).silenced = run.silenced := by
  cases effect with
  | note entry => rfl
  | lookup name =>
    have hseen : name ∈ run.collector.seen := h
    have hresolve : run.collector.resolve source name = run.collector := by
      unfold Collector.resolve Collector.added
      rw [if_pos hseen, if_pos hseen, List.append_nil]
    show { run with collector := run.collector.resolve source name, journal := [] } = _
    rw [hresolve]
    rfl
  | topbar => exact congrArg (fun flag => { run.silenced with topbar := flag }) (Eq.symm h)
  | footer => exact congrArg (fun flag => { run.silenced with footer := flag }) (Eq.symm h)
  | done => exact congrArg (fun flag => { run.silenced with markupDone := flag }) (Eq.symm h)

/-- What an effect finds is known afterwards. -/
theorem knows_apply (source : ClassSource) (run : Run) (effect : Effect) :
    (run.apply source effect).Knows effect := by
  cases effect with
  | lookup name =>
    show name ∈ if name ∈ run.collector.seen then run.collector.seen
      else name :: run.collector.seen
    split
    · assumption
    · exact List.mem_cons_self
  | note entry => trivial
  | topbar | footer | done => rfl

/-- What is known stays known. -/
theorem Knows.apply (h : run.Knows effect) (source : ClassSource) (other : Effect) :
    (run.apply source other).Knows effect := by
  cases other with
  | lookup name =>
    cases effect with
    | lookup known =>
      show known ∈ if name ∈ run.collector.seen then run.collector.seen
        else name :: run.collector.seen
      split
      · exact h
      · exact List.mem_cons_of_mem _ h
    | note _ | topbar | footer | done => exact h
  | note _ => cases effect <;> exact h
  | topbar => cases effect <;> first | rfl | exact h
  | footer => cases effect <;> first | rfl | exact h
  | done => cases effect <;> first | rfl | exact h

theorem Knows.record (h : run.Knows effect) (source : ClassSource) (effects : List Effect) :
    (run.record source effects).Knows effect :=
  record_keeps (I := fun run => run.Knows effect) (fun _ other h => h.apply source other) h effects

/-- After effects, what each of them finds is known. -/
theorem knows_record (source : ClassSource) (run : Run) {effects : List Effect}
    (h : effect ∈ effects) : (run.record source effects).Knows effect := by
  obtain ⟨before, after, rfl⟩ := List.append_of_mem h
  rw [record_append]
  exact (knows_apply source _ effect).record source after

/-- Effects find nothing new in a run that knows what each of them finds. -/
theorem silenced_record_of_knows {effects : List Effect}
    (h : ∀ effect ∈ effects, run.Knows effect) :
    (run.record source effects).silenced = run.silenced := by
  induction effects generalizing run with
  | nil => rfl
  | cons effect effects ih =>
    have hrest : ∀ other ∈ effects, (run.apply source effect).Knows other :=
      fun other hother => (h other (List.mem_cons_of_mem _ hother)).apply source effect
    exact (ih hrest).trans (silenced_apply_of_knows (h effect List.mem_cons_self))

/-- **Effects that are repeated find nothing new.** -/
theorem silenced_record_record (source : ClassSource) (run : Run) (effects : List Effect) :
    ((run.record source effects).record source effects).silenced
      = (run.record source effects).silenced :=
  silenced_record_of_knows (fun _ h => knows_record source run h)

end Run

/-! ## Passes that find nothing -/

namespace Emission

variable {α β : Type}

/-- **The pass finds nothing**, whether or not it fails; only the journal may grow. -/
def Quiet (m : Emission α) : Prop :=
  ∀ found, m.Keeps (fun run => run.silenced = found) (fun _ run => run.silenced = found)

namespace Quiet

theorem silenced_on {m : Emission α} (h : m.Quiet) (run : Run) :
    (m.on run).2.silenced = run.silenced :=
  (h run.silenced).holds (I := fun later => later.silenced = run.silenced) rfl

theorem pure (a : α) : (pure a : Emission α).Quiet :=
  fun _ => Keeps.pure a

theorem bind {m : Emission α} {f : α → Emission β} (hm : m.Quiet) (hf : ∀ a, (f a).Quiet) :
    (m >>= f).Quiet :=
  fun found => (hm found).bind (fun a => hf a found)

theorem mapM {f : α → Emission β} (h : ∀ x, (f x).Quiet) (xs : List α) : (xs.mapM f).Quiet :=
  fun found => Keeps.mapM (fun x _ => h x found)

theorem mapM_option {f : α → Emission β} (h : ∀ x, (f x).Quiet) (x : Option α) :
    (x.mapM f).Quiet :=
  fun found => Keeps.mapM_option (fun a _ => h a found)

theorem note (entry : Note) : (note entry).Quiet :=
  fun _ _ h => h

theorem ofEvaluation (m : Evaluation α) : (ofEvaluation m).Quiet :=
  fun _ => Ensures.ofEvaluation (fun _ _ h _ => h) (fun _ _ h _ => h)

theorem value (stack : Stack) (e : Expression) : (value stack e).Quiet :=
  Quiet.ofEvaluation _

theorem shown (stack : Stack) (e : Expression) : (shown stack e).Quiet :=
  (Quiet.value stack e).bind (fun _ => Quiet.pure _)

theorem shown? (stack : Stack) (e : Option Expression) : (shown? stack e).Quiet := by
  cases e with
  | none => exact Quiet.pure none
  | some e => exact (Quiet.shown stack e).bind (fun _ => Quiet.pure _)

theorem written (stack : Stack) (d : Declaration) : (d.written stack).Quiet :=
  (Quiet.value stack d.value).bind (fun _ => Quiet.pure _)

end Quiet

end Emission

/-! ## Markup before its end -/

namespace Markup

open Emission

section Keeps

variable {I : Run → Prop} {source : ClassSource}
  (h : ∀ run effect, effect ≠ .done → I run → I (run.apply source effect))

include h

/-- An evaluation keeps what notes keep. -/
theorem ofEvaluation_keeps_of_apply {α : Type} (m : Evaluation α) :
    (ofEvaluation m).Keeps I (fun _ => I) := by
  have hwarned : ∀ (ws : List Warning) (run : Run), I run → I (run.warned ws) := by
    intro ws
    induction ws with
    | nil =>
      intro run hrun
      rw [← Run.record_warnings source]
      exact hrun
    | cons w ws ih =>
      intro run hrun
      rw [← Run.record_warnings source, List.map_cons]
      have hrest := ih _ (h run (.note (.warning w)) nofun hrun)
      rw [← Run.record_warnings source] at hrest
      exact hrest
  exact Ensures.ofEvaluation (fun run _ hrun _ => hwarned _ run hrun)
    (fun run _ hrun _ => hwarned _ run hrun)

theorem surroundings_of_apply (landmarks : List Document.Landmark)
    (expand : Stack → String → List Expression → Emission (List Html)) :
    Surroundings I (fun _ => I) ⟨source, landmarks, expand⟩ where
  lookup name run hrun := h run (.lookup name) nofun hrun
  topbar run hrun := h run .topbar nofun hrun
  footer run hrun := h run .footer nofun hrun
  titles _ _ _ _ := ofEvaluation_keeps_of_apply h _

/-- A use of a component keeps what all effects but the end of the markup keep, by induction on the
levels left. -/
theorem instantiate_keeps_of_apply (doc : Document) (levels : Nat) (stack : Stack) (name : String)
    (args : List Expression) :
    (instantiate doc source levels stack name args).Keeps I (fun _ => I) := by
  induction levels generalizing stack name args with
  | zero =>
    unfold instantiate
    cases doc.component? name <;> exact fun _ hrun => hrun
  | succ levels ih =>
    unfold instantiate
    cases doc.component? name with
    | none => exact fun _ hrun => hrun
    | some component =>
      refine Keeps.bind (ofEvaluation_keeps_of_apply h _) (fun frame => ?_)
      refine elements_keeps (surroundings_of_apply h doc.landmarks _) component.body ?_
      exact fun e _ => ⟨fun x _ => ofEvaluation_keeps_of_apply h _,
        fun name args _ => ih (stack.push frame) name args⟩

end Keeps

end Markup

/-- **What all effects but the end of the markup keep is kept by markup**, whether or not it fails:
that the markup has come to its end is for the pass to say. -/
theorem Document.markup_keeps_of_apply (doc : Document) {source : ClassSource} {I : Run → Prop}
    (h : ∀ run effect, effect ≠ .done → I run → I (run.apply source effect)) (es : List Element) :
    (doc.markup source es).Keeps I (fun _ => I) := by
  refine Markup.elements_keeps (Markup.surroundings_of_apply h doc.landmarks _) es ?_
  exact fun e _ => ⟨fun x _ => Markup.ofEvaluation_keeps_of_apply h _,
    fun name args _ => Markup.instantiate_keeps_of_apply h doc _ .empty name args⟩

/-! ## What a single element finds -/

namespace Element

/-- The classes that the element itself refers to. -/
def classes (e : Element) : List String :=
  e.attributes?.elim [] (·.classes)

/-- The element is neither a container nor a use of a component. -/
def isSingle : Element → Bool
  | div .. | sectionBlock .. | useComponent .. => false
  | _ => true

end Element

namespace Run

/-- The run in which the element has begun. -/
def begun (run : Run) : Element → Run
  | .topbar .. => { run with topbar := true }
  | .footer .. => { run with footer := true }
  | _ => run

/-- The run in which classes have been looked up. -/
def lookedUp (source : ClassSource) (run : Run) (names : List String) : Run :=
  { run with collector := run.collector.resolveAll source names }

/-- The two runs know of the same topbars and footers. -/
def Alike (run run' : Run) : Prop :=
  run.topbar = run'.topbar ∧ run.footer = run'.footer

theorem alike_of_silenced {run found : Run} (h : run.silenced = found) : run.Alike found := by
  subst h
  exact ⟨rfl, rfl⟩

end Run

namespace Emission

variable {α β : Type} {source : ClassSource} {names : List String}

/-- **The pass looks up these classes** and finds nothing else. If it fails, it has looked up some
of them. -/
def Looks (source : ClassSource) (names : List String) (m : Emission α) : Prop :=
  ∀ found, m.Ensures (fun run => run.silenced = found)
    (fun _ run => run.silenced = found.lookedUp source names) (fun _ run => run.Alike found)

namespace Looks

theorem of_quiet (source : ClassSource) {m : Emission α} (h : m.Quiet) : m.Looks source [] := by
  intro found run hrun
  have hkeeps := h found run hrun
  rcases hm : m.on run with ⟨e | a, run'⟩
  · rw [hm] at hkeeps
    exact Run.alike_of_silenced hkeeps
  · rw [hm] at hkeeps
    exact hkeeps

theorem bind {m : Emission α} {f : α → Emission β} {more : List String} (hm : m.Looks source names)
    (hf : ∀ a, (f a).Looks source more) : (m >>= f).Looks source (names ++ more) := by
  intro found
  refine Ensures.bind (hm found) (fun a => ?_)
  unfold Run.lookedUp
  rw [Collector.resolveAll_append]
  exact hf a (found.lookedUp source names)

/-- What comes after the lookups finds nothing more. -/
theorem bind_quiet {m : Emission α} {f : α → Emission β} (hm : m.Looks source names)
    (hf : ∀ a, (f a).Quiet) : (m >>= f).Looks source names := by
  have h := hm.bind (fun a => of_quiet source (hf a))
  rw [List.append_nil] at h
  exact h

theorem quiet_bind {m : Emission α} {f : α → Emission β} (hm : m.Quiet)
    (hf : ∀ a, (f a).Looks source names) : (m >>= f).Looks source names :=
  (of_quiet source hm).bind hf

theorem useClass (source : ClassSource) (name : String) :
    (useClass source name).Looks source [name] := by
  rintro found run rfl
  rfl

theorem forM (source : ClassSource) (names : List String) :
    (names.forM (Emission.useClass source)).Looks source names := by
  induction names with
  | nil => exact of_quiet source (Quiet.pure ())
  | cons name names ih => exact (useClass source name).bind (fun _ => ih)

end Looks

end Emission

namespace Markup

open Emission

variable {source : ClassSource} {stack : Stack}

/-- The attributes of an element look up its classes. -/
theorem attributes_looks (source : ClassSource) (stack : Stack) (own : List String)
    (attrs : Attributes) :
    (attributes source stack own attrs).Looks source attrs.classes := by
  have hstyle : (inlineStyle stack attrs.css).Quiet :=
    (Quiet.mapM (Quiet.written stack) attrs.css).bind (fun _ => Quiet.pure _)
  exact (Looks.forM source attrs.classes).bind_quiet
    (fun _ => hstyle.bind (fun _ => Quiet.pure _))

theorem clickCall_quiet (stack : Stack) (click : Click) : (clickCall stack click).Quiet :=
  (Quiet.mapM (Quiet.value stack) click.arguments).bind (fun _ => Quiet.pure _)

theorem entries_quiet (context : Context) (stack : Stack) (links : List NavLink) (auto : Bool) :
    (entries context stack links auto).Quiet := by
  have hentry : ∀ stack target text, (entry stack target text).Quiet :=
    fun stack target text => (Quiet.shown? stack text).bind (fun _ => Quiet.pure _)
  cases auto with
  | true => exact Quiet.mapM (fun l => hentry .empty l.name l.title) context.landmarks
  | false => exact Quiet.mapM (fun l => hentry stack l.target l.text) links

/-- **What a single element finds**: that it has begun, if it is a topbar or a footer, and its
classes. If it fails, it has begun all the same. -/
theorem element_finds {landmarks : List Document.Landmark}
    {expand : Stack → String → List Expression → Emission (List Html)} {e : Element}
    (he : e.isSingle = true) (found : Run) :
    (element ⟨source, landmarks, expand⟩ stack e).Ensures (fun run => run.silenced = found)
      (fun _ run => run.silenced = (found.begun e).lookedUp source e.classes)
      (fun _ run => run.Alike (found.begun e)) := by
  cases e with
  | div attrs content => cases he
  | sectionBlock attrs caption content => cases he
  | useComponent name args => cases he
  | title text =>
    exact Looks.of_quiet source ((Quiet.shown stack text).bind (fun _ => Quiet.pure _)) found
  | icon path =>
    exact Looks.of_quiet source ((Quiet.shown stack path).bind (fun _ => Quiet.pure _)) found
  | paragraph attrs text =>
    exact (attributes_looks source stack [] attrs).bind_quiet
      (fun _ => (Quiet.shown stack text).bind (fun _ => Quiet.pure _)) found
  | heading attrs level text =>
    exact (attributes_looks source stack [] attrs).bind_quiet
      (fun _ => (Quiet.shown stack text).bind (fun _ => Quiet.pure _)) found
  | link attrs url text =>
    refine (attributes_looks source stack [] attrs).bind_quiet (fun _ => ?_) found
    exact (Quiet.shown stack url).bind
      (fun _ => (Quiet.shown stack (text.getD url)).bind (fun _ => Quiet.pure _))
  | image attrs path alt =>
    refine (attributes_looks source stack [] attrs).bind_quiet (fun _ => ?_) found
    exact (Quiet.shown stack path).bind
      (fun _ => (Quiet.shown? stack alt).bind (fun _ => Quiet.pure _))
  | button attrs text onclick =>
    refine (attributes_looks source stack [] attrs).bind_quiet (fun _ => ?_) found
    exact (Quiet.mapM_option (clickCall_quiet stack) onclick).bind
      (fun _ => (Quiet.shown stack text).bind (fun _ => Quiet.pure _))
  | textbox attrs label placeholder labelAfter =>
    refine Looks.quiet_bind (Quiet.shown? stack label) (fun caption => ?_) found
    refine (attributes_looks source stack [] attrs).bind_quiet (fun _ => ?_)
    refine (Quiet.shown? stack placeholder).bind (fun _ => ?_)
    cases caption with
    | none => exact Quiet.pure _
    | some caption => exact Quiet.pure _
  | linebreak => exact Looks.of_quiet source (Quiet.pure _) found
  | topbar attrs caption home links autoNavLinks =>
    have hrest : ∀ as : List Html.Attribute, (do
        let caption ← shown stack caption
        let home := (← shown? stack home).getD "#"
        let listed ← entries ⟨source, landmarks, expand⟩ stack links autoNavLinks
        let homeLink :=
          Html.inline "a" [⟨"class", topbarHomeClass⟩, ⟨"href", home⟩] [.text caption]
        return [.block "header" as (homeLink :: navigation listed)] :
          Emission (List Html)).Quiet :=
      fun as => (Quiet.shown stack caption).bind (fun _ => (Quiet.shown? stack home).bind
        (fun _ => (entries_quiet _ stack links autoNavLinks).bind (fun _ => Quiet.pure _)))
    have hattrs := (attributes_looks source stack [topbarClass] attrs).bind_quiet hrest
    refine Ensures.bind (Q := fun _ run => run.silenced = { found with topbar := true }) ?_
      (fun _ => hattrs _)
    rintro run rfl
    rfl
  | footer attrs text =>
    have hattrs := (attributes_looks source stack [footerClass] attrs).bind_quiet
      (fun as => (Quiet.shown stack text).bind
        (fun s => Quiet.pure [Html.block "footer" as [.inline "p" [] [.text s]]]))
    refine Ensures.bind (Q := fun _ run => run.silenced = { found with footer := true }) ?_
      (fun _ => hattrs _)
    rintro run rfl
    rfl

end Markup

/-! ## The stylesheet depends on the findings -/

namespace Document

open Emission

/-- The rules of the document as they are laid out, or the error with which they fail. -/
def styleRules (doc : Document) : Except GenerationError (List Layout) :=
  ((doc.effectiveStyles.mapM Styles.documentRule).on .fresh).1

theorem documentRules_quiet (doc : Document) :
    (doc.effectiveStyles.mapM Styles.documentRule).Quiet := by
  have hrule : ∀ rule : StyleRule, (Styles.documentRule rule).Quiet :=
    fun rule => (Quiet.mapM (Quiet.written .empty) rule.properties).bind (fun _ => Quiet.pure _)
  exact Quiet.mapM hrule doc.effectiveStyles

/-- The rules of the document are the same in every run. -/
theorem result_documentRules (doc : Document) (run : Run) :
    ((doc.effectiveStyles.mapM Styles.documentRule).on run).1 = doc.styleRules := by
  have hwritten : ∀ d : Declaration, Oblivious (fun _ => d.written .empty) :=
    fun d => (Oblivious.value .empty d.value).bind (fun _ => Oblivious.pure _)
  have hrule : ∀ rule : StyleRule, Oblivious (fun _ => Styles.documentRule rule) :=
    fun rule => (Oblivious.mapM hwritten rule.properties).bind (fun _ => Oblivious.pure _)
  exact (Oblivious.mapM hrule doc.effectiveStyles).result_eq (fun _ => []) (fun _ => []) run .fresh

/-- Once the markup is done, the stylesheet finds nothing. -/
theorem emitRules_quiet (doc : Document) : doc.emitRules.Quiet := by
  refine fun found => Keeps.get.bind (fun run => (Quiet.note _ found).bind (fun _ => ?_))
  exact (doc.documentRules_quiet found).bind
    (fun _ => Keeps.get.bind (fun _ => Keeps.pure _))

/-- The stylesheet with these rules of the document, in a run. -/
def sheetText (rules : List Layout) (run : Run) : String :=
  Layout.render (Layout.spaced ((Styles.sheet rules run).map ([·])))

/-- **Once the markup is done, the stylesheet is put together from the rules of the document and
from the findings of the run.** -/
theorem result_emitRules (doc : Document) (run : Run) :
    (doc.emitRules.on run).1 = doc.styleRules.map fun rules => sheetText rules run.silenced := by
  let noted : Run := { run with journal := run.journal ++ [.stylesheetPass run.rules.length] }
  have hresult := doc.result_documentRules noted
  have hsilenced : _ = run.silenced := doc.documentRules_quiet.silenced_on noted
  show ((doc.effectiveStyles.mapM Styles.documentRule >>= fun rules =>
    get >>= fun later => pure (sheetText rules later)).on noted).1 = _
  rw [on_bind]
  rcases hrules : (doc.effectiveStyles.mapM Styles.documentRule).on noted with ⟨e | rules, later⟩
  · rw [hrules] at hresult
    rw [← hresult]
    rfl
  · rw [hrules] at hresult hsilenced
    rw [← hresult, ← hsilenced]
    rfl

end Document

end Pagewright
