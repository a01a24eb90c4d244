import Pagewright.Watch

/-!
# What a burst of events settles on

Editors save a file in several steps, and only the last of them tells how the file is left. So a
burst should settle on the last news of the file. An error is no news of the file; it should count
only where there is none, and then the first error counts (`Watch.news?`).

Events are settled one after the other, and all that is left of those before is the event settled on
so far. An error gives way to a change and to an earlier error, but it takes the place of a removal.
Any news of the file that comes later sets this right again. So a burst settles on the news of it
unless its last news is a removal and errors follow; then it settles on the first of these errors.
-/

namespace Pagewright.Watch

/-- The event is news of the file, and not an error. -/
def Event.isNews : Event → Bool
  | .changed | .removed => true
  | .error _ => false

/-- **What a burst should settle on**: the last news of the file, or the first error where there is
no news. -/
def news? (burst : List Event) : Option Event :=
  (burst.filter Event.isNews).getLast?.or (burst.find? (!·.isNews))

/-- None of the events is news of the file. -/
def OnlyErrors (events : List Event) : Prop :=
  ∀ e ∈ events, e.isNews = false

variable {current next e : Event} {before errors burst : List Event}

/-! ## Where the last news stands -/

/-- A burst has a last news of the file, or it has errors only. -/
theorem onlyErrors_or_exists_last (burst : List Event) :
    OnlyErrors burst ∨
      ∃ before e errors, burst = before ++ e :: errors ∧ e.isNews = true ∧ OnlyErrors errors := by
  induction burst with
  | nil => exact .inl (fun _ h => nomatch h)
  | cons first rest ih =>
    rcases ih with h | ⟨before, e, errors, rfl, he, herrors⟩
    · cases hfirst : first.isNews with
      | true => exact .inr ⟨[], first, rest, rfl, hfirst, h⟩
      | false => exact .inl (List.forall_mem_cons.mpr ⟨hfirst, h⟩)
    · exact .inr ⟨first :: before, e, errors, rfl, he, herrors⟩

/-- The last news is what a burst should settle on. -/
theorem news?_append_cons (he : e.isNews = true) (herrors : OnlyErrors errors) :
    news? (before ++ e :: errors) = some e := by
  have hnone : errors.filter Event.isNews = [] :=
    List.filter_eq_nil_iff.mpr (fun x hx => by simp [herrors x hx])
  simp [news?, List.filter_cons_of_pos he, hnone]

/-- Where there is no news, the burst should settle on its first error. -/
theorem news?_of_onlyErrors {first : Event} {rest : List Event}
    (h : OnlyErrors (first :: rest)) : news? (first :: rest) = some first := by
  have hnone : (first :: rest).filter Event.isNews = [] :=
    List.filter_eq_nil_iff.mpr (fun x hx => by simp [h x hx])
  have hfirst := h first List.mem_cons_self
  simp [news?, hnone, hfirst]

/-! ## Settling -/

/-- News of the file takes the place of whatever was before. -/
theorem settle_of_isNews (current : Event) (h : next.isNews = true) :
    settle current next = next := by
  cases next with
  | changed => rfl
  | removed => rfl
  | error message => cases h

/-- An error gives way to everything but a removal. -/
theorem settle_error (h : current ≠ .removed) (message : String) :
    settle current (.error message) = current :=
  if_neg h

/-- **Errors leave what has been settled on**, if it is not a removal. -/
theorem foldl_settle_of_onlyErrors (h : current ≠ .removed) (herrors : OnlyErrors errors) :
    errors.foldl settle current = current := by
  induction errors with
  | nil => rfl
  | cons first rest ih =>
    obtain ⟨hfirst, hrest⟩ := List.forall_mem_cons.mp herrors
    cases first with
    | changed => cases hfirst
    | removed => cases hfirst
    | error message =>
      rw [List.foldl_cons, settle_error h]
      exact ih hrest

/-- **A burst forgets what was before a news of the file.** -/
theorem outcome?_append_cons (before : List Event) (he : e.isNews = true) (rest : List Event) :
    outcome? (before ++ e :: rest) = some (rest.foldl settle e) := by
  cases before with
  | nil => rfl
  | cons first before =>
    show some ((before ++ e :: rest).foldl settle first) = _
    rw [List.foldl_append, List.foldl_cons, settle_of_isNews _ he]

/-- A removal with errors behind it settles on the first of them. -/
theorem outcome?_removed_error (before : List Event) (message : String)
    (herrors : OnlyErrors errors) :
    outcome? (before ++ .removed :: .error message :: errors) = some (.error message) := by
  have hother : Event.error message ≠ .removed := nofun
  rw [outcome?_append_cons before rfl]
  exact congrArg some (foldl_settle_of_onlyErrors hother herrors)

/-- **The errors of the burst mask a removal**: its last news is that the file was removed, and
errors follow, the first of them with this message. -/
def Masks (message : String) (burst : List Event) : Prop :=
  ∃ before errors, burst = before ++ .removed :: .error message :: errors ∧ OnlyErrors errors

/-- A burst settles on the news of it unless errors mask a removal. -/
theorem outcome?_eq_news? (hburst : burst ≠ []) (h : ∀ message, ¬ Masks message burst) :
    outcome? burst = news? burst := by
  rcases onlyErrors_or_exists_last burst with herrors | ⟨before, e, errors, rfl, he, herrors⟩
  · cases burst with
    | nil => exact absurd rfl hburst
    | cons first rest =>
      obtain ⟨hfirst, hrest⟩ := List.forall_mem_cons.mp herrors
      have hremoved : first ≠ .removed := by
        rintro rfl
        cases hfirst
      rw [news?_of_onlyErrors herrors]
      exact congrArg some (foldl_settle_of_onlyErrors hremoved hrest)
  · rw [news?_append_cons he herrors, outcome?_append_cons before he]
    refine congrArg some ?_
    by_cases hremoved : e = .removed
    · subst hremoved
      cases errors with
      | nil => rfl
      | cons first rest =>
        obtain ⟨hfirst, hrest⟩ := List.forall_mem_cons.mp herrors
        cases first with
        | changed => cases hfirst
        | removed => cases hfirst
        | error message => exact absurd ⟨before, rest, rfl, hrest⟩ (h message)
    · exact foldl_settle_of_onlyErrors hremoved herrors

/-- **A burst settles on the last news of the file, or else on its first error, exactly if no errors
mask a removal.** Wherever else errors fall in the burst, they do not count. Where they do mask a
removal, which is then the last news, the burst settles on the first error after it. Whether the
file was changed is told rightly for every burst. -/
theorem outcome_eq_news_iff (first : Event) (rest : List Event) :
    (outcome? (first :: rest) = news? (first :: rest) ↔
        ∀ message, ¬ Masks message (first :: rest)) ∧
      (∀ message, Masks message (first :: rest) →
        news? (first :: rest) = some .removed ∧
          outcome? (first :: rest) = some (.error message)) ∧
      (outcome? (first :: rest) = some .changed ↔ news? (first :: rest) = some .changed) := by
  have hmasked : ∀ message, Masks message (first :: rest) →
      news? (first :: rest) = some .removed ∧ outcome? (first :: rest) = some (.error message) := by
    rintro message ⟨before, errors, heq, herrors⟩
    rw [heq]
    refine ⟨news?_append_cons rfl ?_, outcome?_removed_error before message herrors⟩
    exact List.forall_mem_cons.mpr ⟨rfl, herrors⟩
  refine ⟨⟨fun h message hmasks => ?_, outcome?_eq_news? (List.cons_ne_nil _ _)⟩, hmasked, ?_⟩
  · obtain ⟨hnews, houtcome⟩ := hmasked message hmasks
    rw [hnews, houtcome] at h
    cases h
  · by_cases hmasks : ∃ message, Masks message (first :: rest)
    · obtain ⟨message, hmasks⟩ := hmasks
      obtain ⟨hnews, houtcome⟩ := hmasked message hmasks
      rw [hnews, houtcome]
      exact ⟨nofun, nofun⟩
    · rw [outcome?_eq_news? (List.cons_ne_nil _ _) (not_exists.mp hmasks)]

/-- The file is saved by renaming, with an error on the way that takes the place of the removal and
one at the end. Both are forgotten over the change. If the file is removed afterwards, the next
error is settled on. -/
theorem outcome_eq_news_iff_saving :
    outcome? [.removed, .error "moved", .changed, .error "late"] = some .changed ∧
      Masks "gone" [.changed, .removed, .error "gone", .error "late"] ∧
      outcome? [.changed, .removed, .error "gone", .error "late"] = some (.error "gone") := by
  have hmasks : Masks "gone" [.changed, .removed, .error "gone", .error "late"] :=
    ⟨[.changed], [.error "late"], rfl, List.forall_mem_singleton.mpr rfl⟩
  refine ⟨(outcome_eq_news_iff _ _).2.2.mpr rfl, hmasks, ?_⟩
  exact ((outcome_eq_news_iff _ _).2.1 _ hmasks).2

/-- The file is removed, and then the watch fails: of the two events, the error is settled on. -/
theorem outcome_ne_news_removed :
    news? [.removed, .error "queue overflow"] = some .removed ∧
      outcome? [.removed, .error "queue overflow"] ≠ some .removed := by
  decide

end Pagewright.Watch
