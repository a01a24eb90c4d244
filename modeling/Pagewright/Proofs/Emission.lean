import Pagewright.Generation.Run
import Pagewright.Proofs.Evaluation

/-!
# What a pass ensures

A pass over a document is a long sequence of small effects: a class is looked up, an expression is
evaluated, a flag is set, and the first failure ends it all. What can be said of the whole is
nearly always said of every small effect first, so the rules by which such statements are put
together are collected here once.

`Emission.Ensures` is a statement about a pass with three parts: what must hold of the run before,
what then holds of the value and the run after, and what holds of the error and the run it was
raised in. The last part matters as much as the others, since a run outlives the failure of a pass
and what was noted before the failure can still be asked for. `Emission.Keeps` is the case in which
nothing is said of the value: the pass preserves a property of runs, and all its errors are of a
given kind. `Emission.Fails` is the opposite case: the pass never comes to its end.
-/

namespace Pagewright

/-- The run with warnings added to its journal. -/
def Run.warned (run : Run) (ws : List Warning) : Run :=
  { run with journal := run.journal ++ ws.map .warning }

/-- Warnings added to the journal are warnings of the run. -/
@[simp] theorem Run.warnings_warned (run : Run) (ws : List Warning) :
    (run.warned ws).warnings = run.warnings ++ ws := by
  unfold Run.warnings Run.warned
  rw [List.filterMap_append, List.filterMap_map]
  refine congrArg _ ?_
  rw [show (Note.warning? ∘ Note.warning) = some from rfl]
  exact List.filterMap_some

namespace Emission

variable {α β : Type}

/-! ## Running a pass -/

/-- The result of a pass that starts from a run, and the run it leaves. -/
def on (m : Emission α) (run : Run) : Except GenerationError α × Run :=
  (ExceptT.run m).run run

@[simp] theorem on_pure (a : α) (run : Run) :
    (pure a : Emission α).on run = (.ok a, run) := rfl

@[simp] theorem on_throw (e : GenerationError) (run : Run) :
    (throw e : Emission α).on run = (.error e, run) := rfl

@[simp] theorem on_modify (f : Run → Run) (run : Run) :
    (modify f : Emission Unit).on run = (.ok (), f run) := rfl

@[simp] theorem on_get (run : Run) : (get : Emission Run).on run = (.ok run, run) := rfl

/-- **A pass in two parts**: the second starts from the run the first leaves, unless the first
fails. -/
theorem on_bind (m : Emission α) (f : α → Emission β) (run : Run) :
    (m >>= f).on run
      = match m.on run with
        | (.ok a, run') => (f a).on run'
        | (.error e, run') => (.error e, run') := by
  rcases h : m.on run with ⟨e | a, run'⟩
  · exact run_bind_error h
  · exact run_bind_ok h

/-- If a pass in two parts comes to its end, both parts do. -/
theorem exists_of_on_bind {m : Emission α} {f : α → Emission β} {run run' : Run} {b : β}
    (h : (m >>= f).on run = (.ok b, run')) :
    ∃ a between, m.on run = (.ok a, between) ∧ (f a).on between = (.ok b, run') :=
  exists_of_run_bind_ok h

/-- An evaluation has the same result in every run, and its warnings go into the journal. -/
@[simp] theorem on_ofEvaluation (m : Evaluation α) (run : Run) :
    (ofEvaluation m).on run = (m.result, run.warned m.warnings) := by
  unfold ofEvaluation Evaluation.result Evaluation.warnings
  rcases (ExceptT.run m).run [] with ⟨_ | a, ws⟩ <;> rfl

/-! ## Statements about a pass -/

/-- **What a pass ensures** when it starts from a run with the property `P`: `Q` of its value and
the run it leaves, or `E` of its error and the run in which it fails. -/
def Ensures (P : Run → Prop) (m : Emission α) (Q : α → Run → Prop)
    (E : GenerationError → Run → Prop) : Prop :=
  ∀ run, P run → match m.on run with
    | (.ok a, run') => Q a run'
    | (.error e, run') => E e run'

variable {P I : Run → Prop} {E : GenerationError → Run → Prop}

theorem Ensures.of_ok {m : Emission α} {Q : α → Run → Prop} (h : m.Ensures P Q E) {run run' : Run}
    {a : α} (hP : P run) (hm : m.on run = (.ok a, run')) : Q a run' := by
  have hrun := h run hP
  rw [hm] at hrun
  exact hrun

theorem Ensures.of_error {m : Emission α} {Q : α → Run → Prop} (h : m.Ensures P Q E)
    {run run' : Run} {e : GenerationError} (hP : P run) (hm : m.on run = (.error e, run')) :
    E e run' := by
  have hrun := h run hP
  rw [hm] at hrun
  exact hrun

theorem Ensures.ofEvaluation {m : Evaluation α} {Q : α → Run → Prop}
    (hok : ∀ run a, P run → m.result = .ok a → Q a (run.warned m.warnings))
    (herror : ∀ run e, P run → m.result = .error e → E e (run.warned m.warnings)) :
    (ofEvaluation m).Ensures P Q E := by
  intro run hP
  rw [on_ofEvaluation]
  cases hm : m.result with
  | ok a => exact hok run a hP hm
  | error e => exact herror run e hP hm

/-- **A pass in two parts** ensures what its second part ensures, given what the first part
ensures of its value and its run. -/
theorem Ensures.bind {m : Emission α} {f : α → Emission β} {Q : α → Run → Prop}
    {R : β → Run → Prop} (hm : m.Ensures P Q E) (hf : ∀ a, (f a).Ensures (Q a) R E) :
    (m >>= f).Ensures P R E := by
  intro run hP
  have hrun := hm run hP
  rw [on_bind]
  rcases h : m.on run with ⟨e | a, run'⟩
  · rw [h] at hrun
    exact hrun
  · rw [h] at hrun
    exact hf a run' hrun

theorem Ensures.imp {m : Emission α} {Q R : α → Run → Prop} (hm : m.Ensures P Q E)
    (h : ∀ a run, Q a run → R a run) : m.Ensures P R E := by
  intro run hP
  have hrun := hm run hP
  rcases heq : m.on run with ⟨e | a, run'⟩
  · rw [heq] at hrun
    exact hrun
  · rw [heq] at hrun
    exact h a run' hrun

/-! ## Properties of runs that a pass keeps -/

/-- **The pass keeps the property `I`** of runs, and its errors are of the kind `E`. -/
def Keeps (I : Run → Prop) (E : GenerationError → Run → Prop) (m : Emission α) : Prop :=
  m.Ensures I (fun _ => I) E

theorem Keeps.pure (a : α) : (pure a : Emission α).Keeps I E := fun _ h => h

theorem Keeps.bind {m : Emission α} {f : α → Emission β} (hm : m.Keeps I E)
    (hf : ∀ a, (f a).Keeps I E) : (m >>= f).Keeps I E :=
  Ensures.bind hm hf

theorem Keeps.get : (get : Emission Run).Keeps I E := fun _ h => h

theorem Keeps.modify {f : Run → Run} (h : ∀ run, I run → I (f run)) :
    (modify f : Emission Unit).Keeps I E := h

theorem Keeps.map {m : Emission α} (hm : m.Keeps I E) (f : α → β) : (f <$> m).Keeps I E := by
  rw [map_eq_pure_bind]
  exact hm.bind (fun a => Keeps.pure (f a))

theorem Keeps.mapM {f : α → Emission β} {xs : List α} (h : ∀ x ∈ xs, (f x).Keeps I E) :
    (xs.mapM f).Keeps I E := by
  induction xs with
  | nil => exact Keeps.pure []
  | cons x xs ih =>
    rw [List.mapM_cons]
    refine (h x List.mem_cons_self).bind (fun b => ?_)
    refine (ih (fun y hy => h y (List.mem_cons_of_mem _ hy))).bind (fun bs => ?_)
    exact Keeps.pure (b :: bs)

theorem Keeps.forM {f : α → Emission Unit} {xs : List α} (h : ∀ x ∈ xs, (f x).Keeps I E) :
    (xs.forM f).Keeps I E := by
  induction xs with
  | nil => exact Keeps.pure ()
  | cons x xs ih =>
    exact (h x List.mem_cons_self).bind
      (fun _ => ih (fun y hy => h y (List.mem_cons_of_mem _ hy)))

theorem Keeps.mapM_option {f : α → Emission β} {x : Option α} (h : ∀ a ∈ x, (f a).Keeps I E) :
    (x.mapM f).Keeps I E := by
  cases x with
  | none => exact Keeps.pure none
  | some a => exact (h a rfl).map some

theorem Keeps.shown {stack : Stack} {e : Expression} (h : (value stack e).Keeps I E) :
    (shown stack e).Keeps I E :=
  h.bind (fun v => Keeps.pure v.display)

theorem Keeps.shown? {stack : Stack} {e : Option Expression}
    (h : ∀ x ∈ e, (value stack x).Keeps I E) : (shown? stack e).Keeps I E := by
  cases e with
  | none => exact Keeps.pure none
  | some x => exact (Keeps.shown (h x rfl)).bind (fun s => Keeps.pure (some s))

/-- A property that is kept also by a failure holds of the run that the pass leaves. -/
theorem Keeps.holds {m : Emission α} (h : m.Keeps I (fun _ => I)) {run : Run} (hrun : I run) :
    I (m.on run).2 := by
  cases hresult : (m.on run).1 with
  | error e => exact h.of_error hrun (Prod.ext hresult rfl)
  | ok a => exact h.of_ok hrun (Prod.ext hresult rfl)

/-- Conversely, a property of the run that the pass leaves is kept also by a failure. -/
theorem Keeps.of_holds {m : Emission α} (h : ∀ run, I run → I (m.on run).2) :
    m.Keeps I (fun _ => I) := by
  intro run hrun
  have hleft := h run hrun
  rcases hm : m.on run with ⟨e | a, run'⟩
  · rw [hm] at hleft
    exact hleft
  · rw [hm] at hleft
    exact hleft

/-! ## What a pass yields -/

/-- **The value the pass yields** has the property `Q`, if the pass comes to its end. -/
def Yields (m : Emission α) (Q : α → Prop) : Prop :=
  m.Ensures (fun _ => True) (fun a _ => Q a) (fun _ _ => True)

theorem Yields.pure {Q : α → Prop} {a : α} (h : Q a) : (pure a : Emission α).Yields Q :=
  fun _ _ => h

theorem Yields.trivial (m : Emission α) : m.Yields (fun _ => True) := by
  intro run _
  rcases m.on run with ⟨e | a, run'⟩ <;> exact True.intro

theorem Yields.bind {m : Emission α} {f : α → Emission β} {Q : α → Prop} {R : β → Prop}
    (hm : m.Yields Q) (hf : ∀ a, Q a → (f a).Yields R) : (m >>= f).Yields R :=
  Ensures.bind hm (fun a run hQ => hf a hQ run True.intro)

/-- A list is gone through as a pure function would go through it, up to what becomes of each
value later. -/
theorem Yields.mapM {γ : Type} {f : α → Emission β} {g : α → Option γ} {k : β → γ}
    (h : ∀ x, (f x).Yields (fun y => g x = some (k y))) (xs : List α) :
    (xs.mapM f).Yields (fun ys => xs.mapM g = some (ys.map k)) := by
  induction xs with
  | nil => exact Yields.pure rfl
  | cons x xs ih =>
    rw [List.mapM_cons]
    refine (h x).bind (fun y hy => ih.bind (fun ys hys => Yields.pure ?_))
    rw [List.mapM_cons, hy, hys]
    rfl

theorem Yields.mapM_option {f : α → Emission β} {g : α → Option β}
    (h : ∀ x, (f x).Yields (fun y => g x = some y)) (x : Option α) :
    (x.mapM f).Yields (fun y => x.mapM g = some y) := by
  cases x with
  | none => exact Yields.pure rfl
  | some a =>
    show (some <$> f a).Yields _
    rw [map_eq_pure_bind]
    refine (h a).bind (fun y hy => Yields.pure ?_)
    show (some <$> g a) = _
    rw [hy]
    rfl

theorem Yields.ofEvaluation (m : Evaluation α) :
    (ofEvaluation m).Yields (fun a => m.result = .ok a) :=
  Ensures.ofEvaluation (fun _ _ _ h => h) (fun _ _ _ _ => True.intro)

/-! ## Passes that never come to their end -/

/-- **The pass fails** from whatever run it starts. -/
def Fails (m : Emission α) : Prop :=
  m.Ensures (fun _ => True) (fun _ _ => False) (fun _ _ => True)

/-- A pass whose first part fails. -/
theorem Fails.bind {m : Emission α} (hm : m.Fails) (f : α → Emission β) : (m >>= f).Fails :=
  Ensures.bind hm (fun _ _ h => h.elim)

/-- A pass whose second part fails, unless the first one does. -/
theorem Fails.bind_right (m : Emission α) {f : α → Emission β} (hf : ∀ a, (f a).Fails) :
    (m >>= f).Fails := by
  refine Ensures.bind (Q := fun _ _ => True) ?_ hf
  intro run _
  rcases m.on run with ⟨e | a, run'⟩ <;> trivial

theorem Fails.ofEvaluation {m : Evaluation α} {e : GenerationError} (h : m.result = .error e) :
    (ofEvaluation m).Fails :=
  Ensures.ofEvaluation (fun _ _ _ hok => nomatch h.symm.trans hok) (fun _ _ _ _ => True.intro)

/-- Going through a list fails if it fails at one of its items. -/
theorem Fails.mapM {f : α → Emission β} {xs : List α} {x : α} (hx : x ∈ xs) (h : (f x).Fails) :
    (xs.mapM f).Fails := by
  induction xs with
  | nil => cases hx
  | cons y ys ih =>
    rw [List.mapM_cons]
    rcases List.mem_cons.mp hx with rfl | hx
    · exact h.bind _
    · exact Fails.bind_right _ (fun _ => (ih hx).bind _)

theorem Fails.mapM_option {f : α → Emission β} {x : Option α} {a : α} (ha : a ∈ x)
    (h : (f a).Fails) : (x.mapM f).Fails := by
  cases ha
  show (some <$> f a).Fails
  rw [map_eq_pure_bind]
  exact h.bind _

theorem Fails.shown {stack : Stack} {e : Expression} (h : (value stack e).Fails) :
    (shown stack e).Fails :=
  h.bind _

theorem Fails.shown? {stack : Stack} {e : Option Expression} {x : Expression} (hx : x ∈ e)
    (h : (value stack x).Fails) : (shown? stack e).Fails := by
  cases hx
  exact (Fails.shown h).bind _

/-- A pass that fails has an error for its result. -/
theorem Fails.exists_error {m : Emission α} (h : m.Fails) (run : Run) :
    ∃ e, (m.on run).1 = .error e := by
  cases hresult : (m.on run).1 with
  | error e => exact ⟨e, rfl⟩
  | ok a => exact (h.of_ok trivial (Prod.ext hresult rfl)).elim

end Emission

end Pagewright
