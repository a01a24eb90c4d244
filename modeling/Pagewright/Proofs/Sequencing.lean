/-!
# Computations that may stop early

Expressions are evaluated, pages and scripts are written, values are decoded and files are put in
place, and each of these stops at its first error. What two parts come to, one after the other, is
the same for all of them and is said here once.

There are two kinds. Some computations have a result and nothing else. The others share a state,
such as the warnings so far or the files of a disk, and the state outlives the error: what the first
part has done is still done when the second part is not reached.
-/

namespace Pagewright

/-! ## With a result only -/

section Results

variable {ε α β : Type} {x : Except ε α}

theorem toOption_eq_some_iff {a : α} : x.toOption = some a ↔ x = .ok a := by
  cases x <;> simp [Except.toOption]

/-- Both parts have to succeed. -/
theorem bind_eq_ok_iff {f : α → Except ε β} {b : β} :
    (x >>= f) = .ok b ↔ ∃ a, x = .ok a ∧ f a = .ok b := by
  cases x with
  | error e => exact ⟨(fun h => nomatch h), fun ⟨_, h, _⟩ => nomatch h⟩
  | ok a => exact ⟨fun h => ⟨a, rfl, h⟩, fun ⟨_, h, hf⟩ => by cases h; exact hf⟩

end Results

/-! ## With a state -/

section Runs

variable {ε σ α β : Type} {x : ExceptT ε (StateM σ) α} {f : α → ExceptT ε (StateM σ) β}
  {s s₁ s' : σ}

/-- If the first part succeeds, the second one goes on from there. -/
theorem run_bind_ok {a : α} (h : x.run.run s = (.ok a, s₁)) :
    (x >>= f).run.run s = (f a).run.run s₁ := by
  rw [ExceptT.run_bind, StateT.run_bind, h]
  rfl

/-- If the first part fails, the second one is not reached. -/
theorem run_bind_error {e : ε} (h : x.run.run s = (.error e, s₁)) :
    (x >>= f).run.run s = (.error e, s₁) := by
  rw [ExceptT.run_bind, StateT.run_bind, h]
  rfl

/-- **A run of two parts**: the second starts where the first has ended, or the first has failed. -/
theorem exists_of_run_bind {r : Except ε β} (h : (x >>= f).run.run s = (r, s')) :
    (∃ a s₁, x.run.run s = (.ok a, s₁) ∧ (f a).run.run s₁ = (r, s')) ∨
      ∃ e, x.run.run s = (.error e, s') ∧ r = .error e := by
  rcases hx : x.run.run s with ⟨e | a, s₁⟩
  · rw [run_bind_error hx] at h
    cases h
    exact .inr ⟨e, rfl, rfl⟩
  · rw [run_bind_ok hx] at h
    exact .inl ⟨a, s₁, rfl, h⟩

/-- If the whole succeeds, both parts do. -/
theorem exists_of_run_bind_ok {b : β} (h : (x >>= f).run.run s = (.ok b, s')) :
    ∃ a s₁, x.run.run s = (.ok a, s₁) ∧ (f a).run.run s₁ = (.ok b, s') := by
  obtain hparts | ⟨e, -, he⟩ := exists_of_run_bind h
  · exact hparts
  · cases he

/-- A step that cannot fail. -/
theorem run_lift {y : StateM σ α} {a : α} (h : y.run s = (a, s₁)) :
    (ExceptT.lift y : ExceptT ε (StateM σ) α).run.run s = (.ok a, s₁) := by
  show (Except.ok (y.run s).1, (y.run s).2) = _
  rw [h]

end Runs

end Pagewright
