import Pagewright.Proofs.Passes
import Pagewright.Proofs.Script

/-!
# How a checked document can fail

Check and generation go over a document independently of each other, and this module says what the
first promises of the second. Of a document without errors every part can be written, with two
exceptions. Components may be nested too deep, which is a matter of their number and not of any one
place. And a name without a value, which the check merely warns of, may stand where a number is
needed; then the run has recorded a warning for such a name before it fails.

The invariant that carries the proof through nested components is that the innermost frame provides
the parameters of the component being expanded (`Stack.Provides`). It holds at the outset, where
there is no frame and there are no parameters, and binding the arguments of a component restores it
for the component's body.

The names whose warnings are tolerated can be chosen. If they are those that the report itself
warns of, it follows that a run gives no warning that the check has not announced.
-/

namespace Pagewright

/-- All warnings of the run are about tolerated names. -/
def Run.Tolerates (loose : String → Prop) (run : Run) : Prop :=
  ∀ name, .unresolved name ∈ run.warnings → loose name

/-- **The run excuses the error**: components are nested deeper than the limit, or types do not go
together after a warning for a name without a value. -/
def Run.Excuses (run : Run) : GenerationError → Prop
  | .tooDeep _ limit => limit = depthLimit
  | .invalidOperation _ _ _ | .argumentType _ _ _ _ => run.warnings ≠ []
  | .textboxInMarkup | .argumentCount _ _ _ | .unknownComponent _ => False

/-- The error is excused, and all warnings before it are about tolerated names. -/
def Run.Pardons (loose : String → Prop) (e : GenerationError) (run : Run) : Prop :=
  run.Excuses e ∧ run.Tolerates loose

namespace Run

variable {loose : String → Prop}

theorem tolerates_fresh : Run.fresh.Tolerates loose :=
  fun _ h => nomatch h

/-- A clash of types after a warning is excused. -/
theorem excuses_of_isTypeClash {run : Run} {e : GenerationError} (he : e.IsTypeClash)
    (hw : run.warnings ≠ []) : run.Excuses e := by
  cases e <;> first | exact hw | exact he.elim

theorem Tolerates.warned {run : Run} (h : run.Tolerates loose) {ws : List Warning}
    (hws : ∀ name, .unresolved name ∈ ws → loose name) : (run.warned ws).Tolerates loose := by
  intro name hname
  rw [warnings_warned] at hname
  rcases List.mem_append.mp hname with hname | hname
  · exact h name hname
  · exact hws name hname

theorem pardons_warned {run : Run} (h : run.Tolerates loose) {ws : List Warning} (hne : ws ≠ [])
    (hws : ∀ name, .unresolved name ∈ ws → loose name) {e : GenerationError}
    (he : e.IsTypeClash) : Pardons loose e (run.warned ws) := by
  refine ⟨excuses_of_isTypeClash he ?_, h.warned hws⟩
  rw [warnings_warned]
  exact List.append_ne_nil_of_right_ne_nil _ hne

end Run

/-! ## Steps of a pass -/

namespace Emission

variable {loose : String → Prop} {stack : Stack} {params : List Parameter}

/-- A note that is no warning leaves the warnings as they are. -/
theorem note_keeps (entry : Note) (h : entry.warning? = none)
    {E : GenerationError → Run → Prop} : (note entry).Keeps (Run.Tolerates loose) E := by
  intro run hrun name hname
  refine hrun name ?_
  unfold Run.warnings at hname ⊢
  rw [List.filterMap_append, List.filterMap_cons_none h] at hname
  simpa using hname

/-- Looking up a class gives no warning. -/
theorem useClass_keeps (source : ClassSource) (name : String)
    {E : GenerationError → Run → Prop} :
    (useClass source name).Keeps (Run.Tolerates loose) E := by
  intro run hrun
  show Run.Tolerates loose { run with collector := _, journal := _ }
  split
  · exact note_keeps (.classNotFound name) rfl (E := E) run hrun
  · exact hrun

/-- **Evaluating a checked expression** warns of tolerated names only, and fails only after a
warning. -/
theorem value_keeps {x : Expression} (hx : x.Checked params loose) (hs : stack.Provides params) :
    (value stack x).Keeps (Run.Tolerates loose) (Run.Pardons loose) := by
  refine Ensures.ofEvaluation (fun run v hrun hv => ?_) (fun run e hrun he => ?_)
  · exact hrun.warned (fun name => hx.loose_of_mem_warnings hs)
  · obtain ⟨⟨op, l, r, rfl⟩, hne⟩ := hx.result_eq_error hs he
    exact Run.pardons_warned hrun hne (fun name => hx.loose_of_mem_warnings hs) trivial

/-- **Binding suitable checked arguments** warns of tolerated names only, fails only after a
warning, and leads to a scope that provides the parameters of the component. -/
theorem bind_ensures {component : Component} {args : List Expression}
    (hargs : ∀ x ∈ args, x.Checked params loose) (hsuits : component.Suits params args)
    (hs : stack.Provides params) :
    (ofEvaluation (component.bind args stack)).Ensures (Run.Tolerates loose)
      (fun frame run => run.Tolerates loose ∧ (stack.push frame).Provides component.params)
      (Run.Pardons loose) := by
  have hbind : component.bind args stack
      = bindEach component.name stack component.params args := if_pos hsuits.1
  rw [hbind]
  refine Ensures.ofEvaluation (fun run frame hrun hframe => ?_) (fun run e hrun he => ?_)
  · exact ⟨hrun.warned (fun name => loose_of_mem_warnings_bindEach hs hargs),
      provides_push_bindEach hsuits.1 hframe stack⟩
  · obtain ⟨hclash, hne⟩ := result_bindEach_eq_error hs hargs hsuits.2 he
    exact Run.pardons_warned hrun hne (fun name => loose_of_mem_warnings_bindEach hs hargs) hclash

end Emission

/-! ## Elements and components -/

namespace Markup

open Emission Element

variable {doc : Document} {known : Option (List String)} {loose : String → Prop}

/-- The steps that any walk over a checked document may take. -/
theorem surroundings_of_checked (hdoc : doc.Checked known loose) (source : ClassSource)
    (expand : Stack → String → List Expression → Emission (List Html)) :
    Surroundings (Run.Tolerates loose) (Run.Pardons loose) ⟨source, doc.landmarks, expand⟩ where
  lookup name := useClass_keeps source name
  topbar _ h := h
  footer _ h := h
  titles l hl x hx := by
    obtain ⟨e, he, hcontents⟩ := Document.mem_contents_of_landmark hl hx
    exact value_keeps ((hdoc.body he).expressions x (mem_expressions_of_contents hcontents))
      Stack.provides_empty

/-- **A use in a checked document** fails only with an excuse, with however many levels left to
go. The induction is on these levels. -/
theorem instantiate_keeps (hdoc : doc.Checked known loose) (source : ClassSource) (levels : Nat)
    {stack : Stack} {params : List Parameter} (hs : stack.Provides params) {name : String}
    {args : List Expression} (hargs : ∀ x ∈ args, x.Checked params loose)
    (huse : ∃ component, doc.component? name = some component ∧ component.Suits params args) :
    (instantiate doc source levels stack name args).Keeps (Run.Tolerates loose)
      (Run.Pardons loose) := by
  obtain ⟨component, hc, hsuits⟩ := huse
  induction levels generalizing stack params name args component with
  | zero =>
    unfold instantiate
    rw [hc]
    exact fun run hrun => ⟨rfl, hrun⟩
  | succ levels ih =>
    unfold instantiate
    rw [hc]
    refine Ensures.bind (bind_ensures hargs hsuits hs) (fun frame run hrun => ?_)
    -- The frame just bound provides the parameters with which the body has been checked.
    obtain ⟨hrun, hframe⟩ := hrun
    refine elements_keeps (surroundings_of_checked hdoc source _) component.body ?_ run hrun
    intro e he
    have hchecked := hdoc.component (Document.mem_components_of_component? hc) he
    refine ⟨fun x hx => value_keeps (hchecked.expressions x hx) hframe, ?_⟩
    rintro name' args' rfl
    obtain ⟨component', hc', hsuits'⟩ := hchecked.use name' args' rfl
    exact ih hframe (fun x hx => hchecked.expressions x (mem_expressions_of_contents hx))
      component' hc' hsuits'

end Markup

/-! ## Passes over a document -/

namespace Document

open Emission Element

variable {doc : Document} {known : Option (List String)} {loose : String → Prop}

/-- Elements outside all components are written if their expressions are checked and their uses of
components are suitable. -/
theorem markup_keeps (hdoc : doc.Checked known loose) (source : ClassSource) {es : List Element}
    (hexpressions : ∀ e ∈ subelementsOf es, ∀ x ∈ e.expressions, x.Checked [] loose)
    (huse : ∀ name args, .useComponent name args ∈ subelementsOf es →
      ∃ component, doc.component? name = some component ∧ component.Suits [] args) :
    (doc.markup source es).Keeps (Run.Tolerates loose) (Run.Pardons loose) := by
  refine Markup.elements_keeps (Markup.surroundings_of_checked hdoc source _) es ?_
  intro e he
  refine ⟨fun x hx => value_keeps (hexpressions e he x hx) Stack.provides_empty, ?_⟩
  rintro name args rfl
  exact Markup.instantiate_keeps hdoc source _ Stack.provides_empty
    (fun x hx => hexpressions _ he x (mem_expressions_of_contents hx)) (huse name args he)

/-- Titles and icons have no further elements in them. -/
theorem Checked.eq_of_mem_head (hdoc : doc.Checked known loose) {e : Element}
    (he : e ∈ subelementsOf doc.head) :
    ∃ x : Expression, (e = .title x ∨ e = .icon x) ∧ x.Checked [] loose := by
  have hhead : ∀ e ∈ doc.head, ∃ x : Expression, (e = .title x ∨ e = .icon x) ∧
    x.Checked [] loose := fun e he => hdoc.head he
  generalize doc.head = es at he hhead
  induction es with
  | nil => cases he
  | cons first rest ih =>
    rcases mem_subelementsOf_cons.mp he with he | he
    · obtain ⟨x, rfl | rfl, hx⟩ := hhead first List.mem_cons_self
      · exact ⟨x, .inl (List.mem_singleton.mp he), hx⟩
      · exact ⟨x, .inr (List.mem_singleton.mp he), hx⟩
    · exact ih he (fun e he => hhead e (List.mem_cons_of_mem _ he))

/-- The head of a checked document uses no component. -/
theorem Checked.not_use_mem_head (hdoc : doc.Checked known loose) {name : String}
    {args : List Expression} : .useComponent name args ∉ subelementsOf doc.head := by
  intro he
  obtain ⟨x, h | h, -⟩ := hdoc.eq_of_mem_head he <;> cases h

/-- **Every part of a checked document** fails only with an excuse. -/
theorem Checked.pardoned (hdoc : doc.Checked known loose) (source : ClassSource) :
    Parts (Run.Tolerates loose) (Run.Pardons loose) doc source where
  note entry h := note_keeps entry h
  done _ h := h
  head := by
    refine markup_keeps hdoc source (fun e he y hy => ?_)
      (fun name args he => absurd he hdoc.not_use_mem_head)
    obtain ⟨x, rfl | rfl, hx⟩ := hdoc.eq_of_mem_head he <;>
      exact List.mem_singleton.mp hy ▸ hx
  body := markup_keeps hdoc source (fun _ he => (hdoc.body he).expressions)
    (fun name args he => (hdoc.body he).use name args rfl)
  style _ hrule _ hd := value_keeps (hdoc.styles hrule hd) Stack.provides_empty

/-- The script of a checked document does not fail. -/
theorem Checked.emitScript_eq_ok (hdoc : doc.Checked known loose) (run : Run) :
    ∃ text run', doc.emitScript.on run = (.ok text, run') := by
  obtain ⟨text, htext⟩ := hdoc.script_eq_ok
  unfold emitScript
  rw [htext]
  exact ⟨text, _, rfl⟩

/-- A pass that keeps the tolerated warnings and fails with a pardon excuses all its errors, if
every name is tolerated. -/
theorem excuses_of_keeps {α : Type} {m : Emission α}
    (h : m.Keeps (Run.Tolerates fun _ => True) (Run.Pardons fun _ => True)) (run : Run)
    {e : GenerationError} (he : (m.on run).1 = .error e) : (m.on run).2.Excuses e :=
  (h.of_error (fun _ _ => trivial) (Prod.ext he rfl)).1

/-- **A document without errors fails only with an excuse.** Page, stylesheet and script are
written one after the other from a fresh run, each going on where the one before it ended or
failed. Neither the page nor the stylesheet fails but for components nested too deep or, after a
warning for a name without a value, for types that do not go together; the script does not fail.
The same holds of all files together. -/
theorem failures_excused (doc : Document) (known : Option (List String)) (source : ClassSource)
    (options : PageOptions) (h : hasErrors (doc.diagnostics known) = false) :
    let page := (ExceptT.run (doc.emitPage source options)).run .fresh
    let sheet := (ExceptT.run (doc.emitStylesheet source)).run page.2
    let script := (ExceptT.run doc.emitScript).run sheet.2
    let files := doc.generate source options
    (∀ e, page.1 = .error e → page.2.Excuses e) ∧
      (∀ e, sheet.1 = .error e → sheet.2.Excuses e) ∧
      (∃ text, script.1 = .ok text) ∧
      (∀ e, files.1 = .error e → files.2.Excuses e) := by
  have hdoc : doc.Checked known (fun _ => True) :=
    checked_of_not_hasErrors h (fun _ _ _ _ => trivial)
  have hparts := hdoc.pardoned source
  intro page sheet script files
  refine ⟨?_, ?_, ?_, ?_⟩
  · exact fun e => excuses_of_keeps (hparts.emitPage options) .fresh
  · exact fun e => excuses_of_keeps hparts.emitStylesheet page.2
  · obtain ⟨text, run', hscript⟩ := hdoc.emitScript_eq_ok sheet.2
    exact ⟨text, congrArg Prod.fst hscript⟩
  · exact fun e => excuses_of_keeps (hparts.emit hdoc.script_eq_ok options) .fresh

/-- A component that shows a number, used with a name that has no value. -/
def unknownPrice : Document where
  head := []
  components := [⟨"Price", [⟨"amount", .number⟩], [.paragraph .none (.symbol "amount")]⟩]
  body := [.useComponent "Price" [.symbol "total"]]
  functions := []
  statements := []
  styles := []

/-- The page of this document fails, and the failure is excused. -/
theorem failures_excused_unknownPrice :
    hasErrors (unknownPrice.diagnostics none) = false ∧
      ∃ run, (ExceptT.run (unknownPrice.emitPage (fun _ => []) {})).run .fresh
          = (.error (.argumentType "Price" "amount" .number .string), run) ∧
        run.Excuses (.argumentType "Price" "amount" .number .string) :=
  ⟨by decide, _, rfl,
    (failures_excused unknownPrice none (fun _ => []) {} (by decide)).1 _ rfl⟩

/-! ## Warnings -/

/-- A pass that keeps the tolerated warnings leaves a run with such warnings only, even if it
fails. -/
theorem tolerates_of_keeps {α : Type} {m : Emission α}
    (h : m.Keeps (Run.Tolerates loose) (Run.Pardons loose)) {run : Run}
    (hrun : run.Tolerates loose) : (m.on run).2.Tolerates loose := by
  have hm := h run hrun
  rcases heq : m.on run with ⟨e | a, run'⟩
  · rw [heq] at hm
    exact hm.2
  · rw [heq] at hm
    exact hm

/-- **Every warning of a run has been announced.** A document without errors is written from a
fresh run, page first and stylesheet after it, each whether or not the one before it failed. If the
run has warned of a name without a value, then the report on the document has a warning that this
name is not a parameter of the component around it. The same holds of all files together. -/
theorem warnings_announced (doc : Document) (known : Option (List String)) (source : ClassSource)
    (options : PageOptions) (h : hasErrors (doc.diagnostics known) = false) (name : String) :
    let page := (ExceptT.run (doc.emitPage source options)).run .fresh
    let sheet := (ExceptT.run (doc.emitStylesheet source)).run page.2
    let files := doc.generate source options
    .unresolved name ∈ page.2.warnings ++ sheet.2.warnings ++ files.2.warnings →
      ∃ d ∈ doc.diagnostics known,
        d.finding = .notAParameter name ∧ d.finding.severity = .warning := by
  -- The names that the check tolerates are those that it has reported.
  have hdoc : doc.Checked known fun name =>
      ∃ d ∈ doc.diagnostics known, d.finding = .notAParameter name :=
    checked_of_not_hasErrors h (fun d hd name hname => ⟨d, hd, hname⟩)
  have hparts := hdoc.pardoned source
  have hpage := tolerates_of_keeps (hparts.emitPage options) Run.tolerates_fresh
  have hsheet := tolerates_of_keeps hparts.emitStylesheet hpage
  have hfiles := tolerates_of_keeps (hparts.emit hdoc.script_eq_ok options) Run.tolerates_fresh
  intro page sheet files hname
  have hreported : ∃ d ∈ doc.diagnostics known, d.finding = .notAParameter name := by
    rcases List.mem_append.mp hname with hname | hname
    · rcases List.mem_append.mp hname with hname | hname
      · exact hpage name hname
      · exact hsheet name hname
    · exact hfiles name hname
  obtain ⟨d, hd, hfinding⟩ := hreported
  exact ⟨d, hd, hfinding, by rw [hfinding]; rfl⟩

/-- A component with a topbar that lists the sections of the document, one of which has a title of
the same name as the parameter of the component. -/
def shadowedTitle : Document where
  head := []
  components := [⟨"Bar", [⟨"label", .string⟩], [.topbar .none (.symbol "label") none [] true]⟩]
  body := [.useComponent "Bar" [.text "Home"],
    .sectionBlock ⟨some "news", [], []⟩ (some (.symbol "label")) []]
  functions := []
  statements := []
  styles := []

/-- The topbar shows its own label, but the title of the section has no value even there. -/
theorem warnings_announced_shadowedTitle :
    hasErrors (shadowedTitle.diagnostics none) = false ∧
      .unresolved "label" ∈ (shadowedTitle.generate (fun _ => []) {}).2.warnings ∧
      ∃ d ∈ shadowedTitle.diagnostics none,
        d.finding = .notAParameter "label" ∧ d.finding.severity = .warning := by
  have hname : .unresolved "label" ∈ (shadowedTitle.generate (fun _ => []) {}).2.warnings := by
    decide
  refine ⟨by decide, hname, ?_⟩
  exact warnings_announced shadowedTitle none (fun _ => []) {} (by decide) "label"
    (List.mem_append_right _ hname)

end Document

end Pagewright
