import Pagewright.Generation
import Pagewright.Proofs.Emission

/-!
# The passes of a run

The page, the stylesheet and the script of a document are written one after the other, and each of
them is put together from a few parts: the markup of the head, the markup of the body, the rules of
the document, and notes in the journal between them. The body may be written twice, once for the
page and once because a stylesheet is asked for before there was any markup.

A property of runs that the parts keep is kept by every pass. The parts are named in
`Document.Parts`, so a proof about passes is a proof about those.
-/

namespace Pagewright

namespace Document

open Emission

/-- What is left of the stylesheet once the markup has been written. -/
def emitRules (doc : Document) : Emission String := do
  Emission.note (.stylesheetPass (← get).rules.length)
  let documentRules ← doc.effectiveStyles.mapM Styles.documentRule
  return Layout.render (Layout.spaced ((Styles.sheet documentRules (← get)).map ([·])))

/-- The stylesheet is the body, if that is still to be done, and what is left then. -/
theorem emitStylesheet_eq (doc : Document) (source : ClassSource) :
    doc.emitStylesheet source
      = get >>= fun run =>
          if run.markupDone then doc.emitRules
          else discard (doc.emitBody source) >>= fun _ => doc.emitRules :=
  rfl

/-- What the stylesheet does to a run. -/
theorem on_emitStylesheet (doc : Document) (source : ClassSource) (run : Run) :
    (doc.emitStylesheet source).on run
      = if run.markupDone then doc.emitRules.on run
        else (doc.emitBody source >>= fun _ => doc.emitRules).on run := by
  have hdiscard : discard (doc.emitBody source) = doc.emitBody source >>= fun _ => pure () :=
    map_eq_pure_bind (fun _ => ()) (doc.emitBody source)
  rw [emitStylesheet_eq, on_bind, on_get, hdiscard, bind_assoc]
  exact apply_ite (Emission.on · run) _ _ _

/-- **The parts of all passes** keep the property `I` and fail with errors `E`. -/
structure Parts (I : Run → Prop) (E : GenerationError → Run → Prop) (doc : Document)
    (source : ClassSource) : Prop where
  /-- A note goes into the journal. -/
  note : ∀ entry, entry.warning? = none → (note entry).Keeps I E
  /-- The markup is done. -/
  done : ∀ run, I run → I { run with markupDone := true }
  head : (doc.markup source doc.head).Keeps I E
  body : (doc.markup source doc.body).Keeps I E
  /-- A style property of the document is evaluated. -/
  style : ∀ rule ∈ doc.styles, ∀ d ∈ rule.properties, (value .empty d.value).Keeps I E

namespace Parts

variable {I : Run → Prop} {E : GenerationError → Run → Prop} {doc : Document}
  {source : ClassSource}

theorem emitPage (h : Parts I E doc source) (options : PageOptions) :
    (doc.emitPage source options).Keeps I E := by
  refine (h.note _ rfl).bind (fun _ => h.head.bind (fun _ => h.body.bind (fun _ => ?_)))
  exact Keeps.bind (Keeps.modify h.done) (fun _ => Keeps.pure _)

theorem emitBody (h : Parts I E doc source) : (doc.emitBody source).Keeps I E := by
  refine h.body.bind (fun _ => ?_)
  exact Keeps.bind (Keeps.modify h.done) (fun _ => Keeps.pure _)

theorem emitRules (h : Parts I E doc source) : doc.emitRules.Keeps I E := by
  have hrule : ∀ rule ∈ doc.effectiveStyles, (Styles.documentRule rule).Keeps I E := by
    intro rule hrule
    have hwritten : ∀ d ∈ rule.properties, (d.written .empty).Keeps I E :=
      fun d hd => (h.style rule (List.mem_filter.mp hrule).1 d hd).bind (fun _ => Keeps.pure _)
    exact (Keeps.mapM hwritten).bind (fun _ => Keeps.pure _)
  refine Keeps.get.bind (fun run => (h.note _ rfl).bind (fun _ => ?_))
  exact (Keeps.mapM hrule).bind (fun _ => Keeps.get.bind (fun _ => Keeps.pure _))

theorem emitStylesheet (h : Parts I E doc source) : (doc.emitStylesheet source).Keeps I E := by
  rw [emitStylesheet_eq]
  refine Keeps.get.bind (fun run => ?_)
  split
  · exact h.emitRules
  · exact (h.emitBody.map _).bind (fun _ => h.emitRules)

/-- **All files together**, given that the script can be written. -/
theorem emit (h : Parts I E doc source) (hscript : ∃ text, doc.script = .ok text)
    (options : PageOptions) : (doc.emit source options).Keeps I E := by
  have hemit : doc.emitScript.Keeps I E := by
    obtain ⟨text, htext⟩ := hscript
    unfold emitScript
    rw [htext]
    exact (h.note _ rfl).bind (fun _ => Keeps.pure text)
  refine (h.emitPage options).bind (fun _ => h.emitStylesheet.bind (fun _ => ?_))
  exact hemit.bind (fun _ => Keeps.get.bind (fun _ => (h.note _ rfl).bind (fun _ => Keeps.pure _)))

end Parts

/-! ## Passes that fail -/

section Failures

variable {doc : Document} {source : ClassSource}

/-- Writing all files fails if the head cannot be written. -/
theorem emit_fails_of_head (options : PageOptions) (h : (doc.markup source doc.head).Fails) :
    (doc.emit source options).Fails := by
  have hpage : (doc.emitPage source options).Fails := Fails.bind_right _ (fun _ => h.bind _)
  exact hpage.bind _

/-- Writing all files fails if the body cannot be written. -/
theorem emit_fails (options : PageOptions) (h : (doc.markup source doc.body).Fails) :
    (doc.emit source options).Fails := by
  have hpage : (doc.emitPage source options).Fails :=
    Fails.bind_right _ (fun _ => Fails.bind_right _ (fun _ => h.bind _))
  exact hpage.bind _

/-- Writing all files fails if a style property of the document has no value. -/
theorem emit_fails_of_style (options : PageOptions) {rule : StyleRule} (hrule : rule ∈ doc.styles)
    {d : Declaration} (hd : d ∈ rule.properties) (h : (value .empty d.value).Fails) :
    (doc.emit source options).Fails := by
  have heffective : rule ∈ doc.effectiveStyles := by
    refine List.mem_filter.mpr ⟨hrule, ?_⟩
    cases hproperties : rule.properties with
    | nil => rw [hproperties] at hd; cases hd
    | cons _ _ => rfl
  have hwritten : (Styles.documentRule rule).Fails :=
    (Fails.mapM (f := Declaration.written .empty) hd (h.bind _)).bind _
  have hrules : doc.emitRules.Fails :=
    Fails.bind_right _ (fun _ => Fails.bind_right _ (fun _ =>
      (Fails.mapM heffective hwritten).bind _))
  have hsheet : (doc.emitStylesheet source).Fails := by
    rw [emitStylesheet_eq]
    refine Fails.bind_right _ (fun run => ?_)
    split
    · exact hrules
    · exact Fails.bind_right _ (fun _ => hrules)
  exact Fails.bind_right _ (fun _ => hsheet.bind _)

end Failures

end Document

end Pagewright
