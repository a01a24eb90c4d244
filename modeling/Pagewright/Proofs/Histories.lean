import Pagewright.Proofs.Effects
import Pagewright.Proofs.Passes

/-!
# Histories of a run

One run may see many passes, over one document or several, and it goes on after a pass has failed.
The stylesheet is made for this: it needs what the passes before it have found. For the markup it
must make no difference. The head, the body or the page that is written after a long history is the
one that would be written first of all, and if it fails, it fails in the same way.

That is so because markup does not look at the run (`Document.markup_oblivious`). What markup does
to the run is a list of effects, and no effect takes anything back: collected rules and noted
warnings stay where they are, and what is new comes after them (`Run.extends_apply`).
-/

namespace Pagewright

/-! ## Runs only grow -/

namespace Run

/-- **The later run has grown out of the earlier one**: all that was collected or noted is still
there, in front of what has come since. -/
structure Extends (earlier later : Run) : Prop where
  rules : earlier.rules <+: later.rules
  journal : earlier.journal <+: later.journal

namespace Extends

variable {first second third : Run}

theorem refl (run : Run) : run.Extends run :=
  ⟨List.prefix_rfl, List.prefix_rfl⟩

theorem trans (h : first.Extends second) (h' : second.Extends third) : first.Extends third :=
  ⟨h.rules.trans h'.rules, h.journal.trans h'.journal⟩

/-- The warnings of a run are part of its journal. -/
theorem warnings (h : first.Extends second) : first.warnings <+: second.warnings :=
  h.journal.filterMap Note.warning?

end Extends

/-- **No effect takes anything back.** -/
theorem extends_apply (source : ClassSource) (run : Run) (effect : Effect) :
    run.Extends (run.apply source effect) := by
  cases effect with
  | note entry => exact ⟨List.prefix_rfl, List.prefix_append _ _⟩
  | lookup name =>
    refine ⟨List.prefix_append _ _, ?_⟩
    show run.journal <+: if _ then _ else _
    split
    · exact List.prefix_append _ _
    · exact List.prefix_rfl
  | topbar | footer | done => exact ⟨List.prefix_rfl, List.prefix_rfl⟩

end Run

/-! ## Passes -/

/-- A pass over a document. -/
inductive Pass where
  | head (doc : Document)
  | body (doc : Document)
  | page (doc : Document) (options : PageOptions)
  | stylesheet (doc : Document)

namespace Pass

/-- What the pass writes in the course of a run. -/
def emission (source : ClassSource) : Pass → Emission String
  | head doc => doc.emitHead source
  | body doc => doc.emitBody source
  | page doc options => doc.emitPage source options
  | stylesheet doc => doc.emitStylesheet source

/-- The pass writes markup and nothing else. -/
def writesMarkup : Pass → Bool
  | head _ | body _ | page _ _ => true
  | stylesheet _ => false

/-- A pass that writes markup does not look at the run. -/
theorem oblivious {pass : Pass} (h : pass.writesMarkup = true) :
    Emission.Oblivious (fun source => pass.emission source) := by
  cases pass with
  | head doc => exact doc.emitHead_oblivious
  | body doc => exact doc.emitBody_oblivious
  | page doc options => exact doc.emitPage_oblivious options
  | stylesheet doc => cases h

end Pass

/-- The parts of all passes keep what every effect keeps. -/
theorem Document.parts_of_apply (doc : Document) {source : ClassSource} {I : Run → Prop}
    (h : ∀ run effect, I run → I (run.apply source effect)) :
    doc.Parts I (fun _ => I) source where
  note entry _ := (Emission.Oblivious.effect (.note entry)).keeps h
  done run hrun := h run .done hrun
  head := (doc.markup_oblivious doc.head).keeps h
  body := (doc.markup_oblivious doc.body).keeps h
  style _ _ d _ := (Emission.Oblivious.value .empty d.value).keeps h

/-- **What every effect keeps is kept by every pass.** The stylesheet does look at the run, but it
has no other effects than those that markup has. -/
theorem Pass.keeps (pass : Pass) {source : ClassSource} {I : Run → Prop}
    (h : ∀ run effect, I run → I (run.apply source effect)) :
    (pass.emission source).Keeps I (fun _ => I) := by
  cases pass with
  | head doc => exact doc.emitHead_oblivious.keeps h
  | body doc => exact doc.emitBody_oblivious.keeps h
  | page doc options => exact (doc.emitPage_oblivious options).keeps h
  | stylesheet doc => exact (doc.parts_of_apply h).emitStylesheet

/-! ## Histories -/

namespace Run

/-- The run that a history of passes leaves behind, whether they have failed or not. -/
def after (source : ClassSource) (run : Run) (history : List Pass) : Run :=
  history.foldl (fun run pass => ((pass.emission source).on run).2) run

/-- **A run only grows**, whatever passes it goes through. -/
theorem extends_after (source : ClassSource) (run : Run) (history : List Pass) :
    run.Extends (run.after source history) := by
  induction history generalizing run with
  | nil => exact Extends.refl run
  | cons pass history ih =>
    have hkeeps : (pass.emission source).Keeps run.Extends (fun _ => run.Extends) :=
      pass.keeps (fun later effect hlater => hlater.trans (extends_apply source later effect))
    exact (hkeeps.holds (Extends.refl run)).trans (ih _)

/-- **Markup is written as if it were the first.** After any history of passes over any documents,
some of which may have failed, a pass that writes a head, a body or a page has the result that it
has in a fresh run, even in one that looks up classes elsewhere. And whatever passes are still to
come, the rules and the warnings there are now stay in front of those that are added. -/
theorem markup_after_eq_fresh (source source' : ClassSource) (history : List Pass) :
    (∀ pass : Pass, pass.writesMarkup = true →
        ((pass.emission source).on (fresh.after source history)).1
          = ((pass.emission source').on fresh).1) ∧
      ∀ more,
        (fresh.after source history).rules <+: (fresh.after source (history ++ more)).rules ∧
          (fresh.after source history).warnings
            <+: (fresh.after source (history ++ more)).warnings := by
  refine ⟨fun pass hpass => (Pass.oblivious hpass).result_eq source source' _ _, fun more => ?_⟩
  have happend : fresh.after source (history ++ more)
      = (fresh.after source history).after source more := List.foldl_append
  have hextends := extends_after source (fresh.after source history) more
  rw [happend]
  exact ⟨hextends.rules, hextends.warnings⟩

end Run

/-- A card with a name that has no value, and a footer that cannot be written. -/
def Document.halfway : Document where
  head := []
  components := []
  body :=
    [.div ⟨none, ["card"], []⟩ [.paragraph .none (.symbol "owner")],
     .footer .none (.textbox "note")]
  functions := []
  statements := []
  styles := []

/-- A card with nothing wrong about it. -/
def Document.notice : Document where
  head := []
  components := []
  body := [.paragraph ⟨none, ["card"], []⟩ (.text "Closed")]
  functions := []
  statements := []
  styles := []

/-- A rule that sets nothing, for every class. -/
def blankRules : ClassSource := fun name => ["." ++ name ++ " \x7b\x7d"]

/-- The first body has left a rule and a warning behind when it fails. The second one is written as
if there had been nothing before it, and the rule and the warning are there still. -/
theorem Run.markup_after_eq_fresh_halfway :
    (fresh.after blankRules [.body .halfway]).rules = [".card \x7b\x7d"] ∧
      (fresh.after blankRules [.body .halfway]).warnings = [.unresolved "owner"] ∧
      (((Pass.body .notice).emission blankRules).on (fresh.after blankRules [.body .halfway])).1
        = (((Pass.body .notice).emission (fun _ => [])).on fresh).1 ∧
      [".card \x7b\x7d"] <+: (fresh.after blankRules [.body .halfway, .body .notice]).rules ∧
      [.unresolved "owner"] <+:
        (fresh.after blankRules [.body .halfway, .body .notice]).warnings := by
  have hnotice := markup_after_eq_fresh blankRules (fun _ => []) [.body .halfway]
  exact ⟨rfl, rfl, hnotice.1 (.body .notice) rfl, hnotice.2 [.body .notice]⟩

end Pagewright
