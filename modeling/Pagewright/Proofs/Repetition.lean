import Pagewright.Proofs.Findings
import Pagewright.Proofs.Histories

/-!
# One document has one stylesheet

The stylesheet does look at the run, and a run may have gone through a lot before: pages, bodies and
other stylesheets of the document, some of which have failed halfway. If all of these were passes
over the one document, none of it shows. The reason is that there are two states only in which the
findings of such a run can be. Either nothing has been found yet, or what has been found is what
writing the body once finds, since writing it again finds nothing new (`Document.Stands`).

The head must not find anything of its own for this, and it does not if it holds titles and icons
only. A body that cannot be written does find something before it fails. But the markup is not done
then, so the stylesheet writes the body once more and fails in the same way.
-/

namespace Pagewright

/-- The document that a pass is over. -/
def Pass.document : Pass → Document
  | head doc | body doc | page doc _ | stylesheet doc => doc

namespace Document

open Emission

variable {doc : Document} {source : ClassSource} {run : Run}

/-! ## Parts of the passes -/

/-- Titles and icons find nothing. -/
theorem markup_quiet_of_inHead (doc : Document) (source : ClassSource) {es : List Element}
    (h : ∀ e ∈ es, e.inHead = true) : (doc.markup source es).Quiet := by
  induction es with
  | nil => exact Quiet.pure []
  | cons e rest ih =>
    have hfirst : (Markup.element (Markup.context doc source .empty) .empty e).Quiet := by
      have he := h e List.mem_cons_self
      cases e with
      | title text => exact (Quiet.shown .empty text).bind (fun _ => Quiet.pure _)
      | icon path => exact (Quiet.shown .empty path).bind (fun _ => Quiet.pure _)
      | _ => cases he
    have hrest := ih (fun other hother => h other (List.mem_cons_of_mem _ hother))
    exact hfirst.bind (fun _ => hrest.bind (fun _ => Quiet.pure _))

/-- What the end of a page does to the run is what the body by itself does. -/
theorem on_body_snd (doc : Document) (source : ClassSource) (text : List Html → String)
    (run : Run) :
    ((doc.markup source doc.body >>= fun nodes =>
        modify ({ · with markupDone := true }) >>= fun _ => pure (text nodes)).on run).2
      = ((doc.emitBody source).on run).2 := by
  unfold emitBody
  rw [on_bind, on_bind]
  rcases (doc.markup source doc.body).on run with ⟨e | nodes, run'⟩ <;> rfl

/-- A body that cannot be written does not end the markup. -/
theorem markupDone_of_emitBody_error {e : GenerationError}
    (h : ((doc.emitBody source).on run).1 = .error e) :
    ((doc.emitBody source).on run).2.markupDone = run.markupDone := by
  have hmarkup : (doc.markup source doc.body).Keeps
      (fun later => later.markupDone = run.markupDone)
      (fun _ later => later.markupDone = run.markupDone) := by
    refine doc.markup_keeps_of_apply (fun later effect hne hlater => ?_) doc.body
    cases effect with
    | done => exact absurd rfl hne
    | note _ | lookup _ | topbar | footer => exact hlater
  unfold emitBody at h ⊢
  rw [on_bind] at h ⊢
  rcases hresult : (doc.markup source doc.body).on run with ⟨e' | nodes, run'⟩
  · exact hmarkup.of_error rfl hresult
  · rw [hresult] at h
    cases h

/-! ## The two states of a run -/

/-- The findings of a run that has written the body, or has failed to. -/
def bodyFindings (doc : Document) (source : ClassSource) : Run :=
  ((doc.emitBody source).on .fresh).2.silenced

/-- **Where a run over one document stands**: it has found nothing, or what the body finds. -/
def Stands (doc : Document) (source : ClassSource) (run : Run) : Prop :=
  run.silenced = .fresh ∨ run.silenced = doc.bodyFindings source

/-- A quiet pass leaves a run where it stands. -/
theorem stands_of_quiet {α : Type} {m : Emission α} (h : m.Quiet) :
    m.Keeps (doc.Stands source) (fun _ => doc.Stands source) := by
  refine Keeps.of_holds (fun run hrun => ?_)
  unfold Stands
  rw [h.silenced_on]
  exact hrun

/-- **After the body, a run has found what the body finds**, whether it had found that before or
nothing. -/
theorem Stands.silenced_emitBody (h : doc.Stands source run) :
    ((doc.emitBody source).on run).2.silenced = doc.bodyFindings source := by
  unfold Stands bodyFindings at h
  unfold bodyFindings
  obtain ⟨result, effects, hbody⟩ := doc.emitBody_oblivious
  rw [hbody] at h ⊢
  rw [hbody]
  rcases h with h | h
  · have hfresh : run.silenced = Run.fresh.silenced := h
    exact Run.silenced_record hfresh effects
  · calc (run.record source effects).silenced
        = ((Run.fresh.record source effects).record source effects).silenced :=
          Run.silenced_record h effects
      _ = (Run.fresh.record source effects).silenced :=
          Run.silenced_record_record source .fresh effects

/-- **Every pass over the document leaves the run in one of the two states.** -/
theorem stands_of_pass (hhead : ∀ e ∈ doc.head, e.inHead = true) {pass : Pass}
    (hpass : pass.document = doc) :
    (pass.emission source).Keeps (doc.Stands source) (fun _ => doc.Stands source) := by
  have hquiet := doc.markup_quiet_of_inHead source hhead
  have hbody : (doc.emitBody source).Keeps (doc.Stands source) (fun _ => doc.Stands source) :=
    Keeps.of_holds (fun run hrun => .inr hrun.silenced_emitBody)
  subst hpass
  cases pass with
  | head doc => exact stands_of_quiet (hquiet.bind (fun _ => Quiet.pure _))
  | body doc => exact hbody
  | page doc options =>
    refine (stands_of_quiet (Quiet.note _)).bind (fun _ => ?_)
    refine (stands_of_quiet hquiet).bind (fun head => Keeps.of_holds (fun run hrun => ?_))
    rw [on_body_snd doc source (fun body => Layout.render (Page.shell options head body))]
    exact .inr (Stands.silenced_emitBody hrun)
  | stylesheet doc =>
    show (doc.emitStylesheet source).Keeps _ _
    rw [emitStylesheet_eq]
    refine Keeps.get.bind (fun run => ?_)
    split
    · exact stands_of_quiet doc.emitRules_quiet
    · exact (hbody.map _).bind (fun _ => stands_of_quiet doc.emitRules_quiet)

/-- A history of passes over the document leaves the run in one of the two states. -/
theorem stands_after (hhead : ∀ e ∈ doc.head, e.inHead = true) {history : List Pass}
    (hhistory : ∀ pass ∈ history, pass.document = doc) (hrun : doc.Stands source run) :
    doc.Stands source (run.after source history) := by
  induction history generalizing run with
  | nil => exact hrun
  | cons pass history ih =>
    have hpass : doc.Stands source ((pass.emission source).on run).2 :=
      (stands_of_pass hhead (hhistory pass List.mem_cons_self)).holds hrun
    exact ih (fun other hother => hhistory other (List.mem_cons_of_mem _ hother)) hpass

/-! ## The stylesheet -/

/-- **The stylesheet is the same from both states**: the body must be one that can be written, and
then the rules are put together from what the body finds. -/
theorem Stands.result_emitStylesheet (h : doc.Stands source run) :
    ((doc.emitStylesheet source).on run).1
      = ((doc.emitBody source).on .fresh).1 >>= fun _ =>
          doc.styleRules.map (sheetText · (doc.bodyFindings source)) := by
  have hfound := h.silenced_emitBody
  rw [on_emitStylesheet]
  by_cases hdone : run.markupDone = true
  · -- The markup is done, so the body has been written before, and it was written to its end.
    have hstate : run.silenced = doc.bodyFindings source := by
      refine h.resolve_left (fun hfresh => ?_)
      have hnot : run.markupDone = false := congrArg Run.markupDone hfresh
      rw [hdone] at hnot
      cases hnot
    have hbodyDone : ((doc.emitBody source).on .fresh).2.markupDone = true :=
      (congrArg Run.markupDone hstate).symm.trans hdone
    rw [if_pos hdone, result_emitRules, hstate]
    cases hbody : ((doc.emitBody source).on .fresh).1 with
    | error e =>
      rw [markupDone_of_emitBody_error hbody] at hbodyDone
      cases hbodyDone
    | ok text => rfl
  · have hbody := doc.emitBody_oblivious.result_eq source source .fresh run
    rw [if_neg hdone, hbody, on_bind]
    rcases hresult : (doc.emitBody source).on run with ⟨e | text, run'⟩
    · rfl
    · rw [hresult] at hfound
      show (doc.emitRules.on run').1 = doc.styleRules.map _
      rw [result_emitRules, hfound]

end Document

/-- **The stylesheet of a document does not depend on what its run has seen of the document
before.** The head holds titles and icons only. After any history of passes over the document, in
any order and whether or not they have failed, the stylesheet has the result that it has in a fresh
run, be it a text or an error. So the stylesheet that is generated with a page is the one of a run
that has written no markup. -/
theorem Run.stylesheet_after_eq_fresh (doc : Document) (source : ClassSource)
    (hhead : ∀ e ∈ doc.head, e.inHead = true) :
    (∀ history : List Pass, (∀ pass ∈ history, pass.document = doc) →
        ((doc.emitStylesheet source).on (fresh.after source history)).1
          = ((doc.emitStylesheet source).on fresh).1) ∧
      ∀ options artifacts run, doc.generate source options = (.ok artifacts, run) →
        ((doc.emitStylesheet source).on fresh).1 = .ok artifacts.css := by
  have hfresh : doc.Stands source fresh := .inl rfl
  have hafter : ∀ history : List Pass, (∀ pass ∈ history, pass.document = doc) →
      ((doc.emitStylesheet source).on (fresh.after source history)).1
        = ((doc.emitStylesheet source).on fresh).1 := by
    intro history hhistory
    rw [(Document.stands_after hhead hhistory hfresh).result_emitStylesheet,
      hfresh.result_emitStylesheet]
  refine ⟨hafter, fun options artifacts run hgenerate => ?_⟩
  rw [← hafter [.page doc options] (List.forall_mem_singleton.mpr rfl)]
  obtain ⟨html, run₁, hpage, hgenerate⟩ := Emission.exists_of_on_bind hgenerate
  obtain ⟨css, run₂, hsheet, hgenerate⟩ := Emission.exists_of_on_bind hgenerate
  obtain ⟨js, run₃, -, hgenerate⟩ := Emission.exists_of_on_bind hgenerate
  cases hgenerate
  show ((doc.emitStylesheet source).on ((doc.emitPage source options).on fresh).2).1 = .ok css
  rw [hpage, hsheet]

/-- A page whose title cannot be written, while its body can. -/
def Document.untitled : Document where
  head := [.title (.textbox "heading")]
  components := []
  body := [.paragraph ⟨none, ["card"], []⟩ (.text "Closed"), .footer .none (.text "Bye")]
  functions := []
  statements := []
  styles := []

/-- The page fails before its body, the body finds the card and the footer, and then the page fails
again. The stylesheet is that of a fresh run all the same. The notice has no title that could fail,
and it is generated with the stylesheet of a fresh run. -/
theorem Run.stylesheet_after_eq_fresh_untitled :
    let history : List Pass :=
      [.page .untitled {}, .body .untitled, .stylesheet .untitled, .page .untitled {}]
    (∀ e ∈ Document.untitled.head, e.inHead = true) ∧
      (∃ e, ((Document.untitled.emitPage blankRules {}).on fresh).1 = .error e) ∧
      (∃ text, ((Document.untitled.emitBody blankRules).on fresh).1 = .ok text) ∧
      ((Document.untitled.emitStylesheet blankRules).on (fresh.after blankRules history)).1
        = ((Document.untitled.emitStylesheet blankRules).on fresh).1 ∧
      ∃ artifacts run, Document.notice.generate blankRules {} = (.ok artifacts, run) ∧
        ((Document.notice.emitStylesheet blankRules).on fresh).1 = .ok artifacts.css := by
  have huntitled : ∀ e ∈ Document.untitled.head, e.inHead = true :=
    List.forall_mem_singleton.mpr rfl
  refine ⟨huntitled, ⟨_, rfl⟩, ⟨_, rfl⟩, ?_, ⟨_, _, rfl, ?_⟩⟩
  · refine (stylesheet_after_eq_fresh .untitled blankRules huntitled).1 _ (fun pass hpass => ?_)
    simp only [List.mem_cons, List.not_mem_nil, or_false] at hpass
    rcases hpass with rfl | rfl | rfl | rfl <;> rfl
  · exact (stylesheet_after_eq_fresh .notice blankRules (List.forall_mem_nil _)).2 {} _ _ rfl

end Pagewright
