import Pagewright.Proofs.Refusal

/-!
# Expressions that pass the check have a value

For a language with types there are two things to be said of its check. What has a type has no value
of another type, and what passes the check has a value. Here the check knows less than a type
checker does: a name that is not a parameter is no error, and its type is unknown, and so is that of
a sum with it. So three cases are told apart.

* Where the check sees a type, a value is of that type, whatever else the check found.
* Where the check reports an error, there is no value. The error may be deep inside an expression
  whose type is plain to see, since every operation but a sum is taken for a number.
* Where the check reports no error and every name is that of a parameter, there is a value, the
  check sees its type, and nothing is worth a warning.

All this is about an expression inside the frames in which it is evaluated (`Stack.Inside`). The
innermost frame has been made by binding arguments to the parameters that the check goes by.
-/

namespace Pagewright

open Evaluation

/-- **Where an expression stands** that may refer to these parameters: outside all components, or in
the body of a component. Then the innermost frame binds the parameters to the arguments of a use.
These may have been evaluated anywhere, and any frames may be below. -/
inductive Stack.Inside : Stack → List Parameter → Prop where
  | page : Inside .empty []
  | body {component : Component} {args : List Expression} {caller below : Stack} {frame : Frame}
      {ws ws' : List Warning}
      (h : (ExceptT.run (component.bind args caller)).run ws = (.ok frame, ws')) :
      Inside (below.push frame) component.params

/-! ## Running an evaluation -/

/-- Binding the arguments of a use adds its warnings behind those that are there. -/
theorem Component.appends_bind (component : Component) (args : List Expression) (caller : Stack) :
    (component.bind args caller).Appends := by
  unfold Component.bind
  split
  · exact appends_bindEach _ _ _ _
  · exact appends_throw _

/-- **The frame of a component provides its parameters.** -/
theorem Component.provides_push_bind {component : Component} {args : List Expression}
    {caller : Stack} {frame : Frame} (h : (component.bind args caller).result = .ok frame)
    (below : Stack) : (below.push frame).Provides component.params := by
  unfold Component.bind at h
  split at h
  · rename_i hlength
    exact provides_push_bindEach hlength h below
  · cases h

/-- **Where an expression stands, the parameters it may refer to have values** of their types, and
nothing else has. -/
theorem Stack.Inside.provides {stack : Stack} {params : List Parameter}
    (h : stack.Inside params) : stack.Provides params := by
  cases h with
  | page => exact provides_empty
  | @body component args caller below frame ws ws' h =>
    rw [component.appends_bind args caller ws] at h
    exact Component.provides_push_bind (congrArg Prod.fst h) below

/-! ## Names that are all parameters -/

/-- Findings hold an error if one of them is grave. -/
theorem Path.hasErrors_found {path : Path} {fs : List Finding} :
    hasErrors (path.found fs) = true ↔ ∃ f ∈ fs, f.severity = .error := by
  simp [hasErrors, Path.found, Diagnostic.isError]

namespace Expression

variable {stack : Stack} {params : List Parameter} {e : Expression}

/-- The name, if the expression is nothing but a name. -/
def symbol? : Expression → Option String
  | symbol name => some name
  | _ => none

/-- **Every name in the expression is that of a parameter.** -/
def Closed (params : List Parameter) (e : Expression) : Prop :=
  ∀ name ∈ e.parts.filterMap symbol?, name ∈ params.map (·.name)

instance : Decidable (e.Closed params) :=
  inferInstanceAs (Decidable (∀ name ∈ e.parts.filterMap symbol?, name ∈ params.map (·.name)))

/-- The check finds no name without a value in an expression all of whose names are parameters. -/
theorem Closed.notAParameter_notMem (h : e.Closed params) (name : String) :
    .notAParameter name ∉ e.markupFindings params := by
  intro hf
  rcases List.mem_append.mp hf with hf | hf
  · obtain ⟨p, hp, hname⟩ := List.mem_filterMap.mp hf
    cases p with
    | symbol s =>
      obtain ⟨param, hparam, rfl⟩ :=
        List.mem_map.mp (h s (List.mem_filterMap.mpr ⟨symbol s, hp, rfl⟩))
      have hany : params.any (·.name = param.name) = true :=
        List.any_eq_true.mpr ⟨param, hparam, decide_eq_true rfl⟩
      rw [nameFinding?, if_pos hany] at hname
      cases hname
    | textbox s => cases hname
    | text value => cases hname
    | number value => cases hname
    | operation left op right => cases hname
  · obtain ⟨p, -, hoperator⟩ := List.mem_filterMap.mp hf
    cases severity_of_operatorFinding? hoperator

/-- **If its names are parameters, an expression without errors is checked** and there is nothing to
tolerate. -/
theorem Closed.checked (h : e.Closed params)
    (herrors : ∀ f ∈ e.markupFindings params, f.severity ≠ .error) :
    e.Checked params (fun _ => False) := by
  intro f hf
  refine ⟨?_, fun name hname => h.notAParameter_notMem name (hname ▸ hf)⟩
  cases hseverity : f.severity with
  | warning => rfl
  | error => exact absurd hseverity (herrors f hf)

/-- **Where nothing is tolerated, nothing is worth a warning.** -/
theorem Checked.warnings_eq_nil (h : e.Checked params (fun _ => False))
    (hs : stack.Provides params) : (e.evaluate stack).warnings = [] := by
  refine List.eq_nil_iff_forall_not_mem.mpr (fun w hw => ?_)
  cases w with
  | unresolved name => exact h.loose_of_mem_warnings hs hw

/-- **An expression has a value if nothing has to be tolerated in it**, since it could only fail
after a warning. -/
theorem Checked.exists_result (h : e.Checked params (fun _ => False))
    (hs : stack.Provides params) : ∃ v, (e.evaluate stack).result = .ok v := by
  cases hresult : (e.evaluate stack).result with
  | ok v => exact ⟨v, rfl⟩
  | error err => exact absurd (h.warnings_eq_nil hs) (h.result_eq_error hs hresult).2

/-- **The check sees the type of an expression in which nothing has to be tolerated.** -/
theorem Checked.exists_staticType (h : e.Checked params (fun _ => False))
    (hs : stack.Provides params) : ∃ t, e.staticType params = some t := by
  obtain ⟨v, hv⟩ := h.exists_result hs
  refine Option.ne_none_iff_exists'.mp (fun hnone => ?_)
  exact h.warnings_ne_nil hs hnone hv (h.warnings_eq_nil hs)

/-! ## Types, errors and values -/

/-- **The check of an expression is sound.** Let an expression be evaluated where the parameters it
is checked against have been bound. If the check sees its type, its value is of that type. If the
check reports an error, it has no value. And if the check reports no error and its names are all
parameters, then it has a value, of a type which the check sees, and there is no warning. -/
theorem evaluate_sound (e : Expression) (params : List Parameter) (stack : Stack)
    (hstack : stack.Inside params) (path : Path) (ws : List Warning) :
    (∀ t v ws', e.staticType params = some t →
        (ExceptT.run (e.evaluate stack)).run ws = (.ok v, ws') → v.type = t) ∧
      (hasErrors (path.found (e.markupFindings params)) = true →
        ∃ error ws', (ExceptT.run (e.evaluate stack)).run ws = (.error error, ws')) ∧
      (e.Closed params → hasErrors (path.found (e.markupFindings params)) = false →
        ∃ v t, (ExceptT.run (e.evaluate stack)).run ws = (.ok v, ws) ∧
          e.staticType params = some t ∧ v.type = t) := by
  have hs := hstack.provides
  rw [appends_evaluate stack e ws]
  refine ⟨fun t v ws' ht hv => ?_, fun herrors => ?_, fun hclosed herrors => ?_⟩
  · exact type_eq_of_staticType hs ht (congrArg Prod.fst hv)
  · obtain ⟨f, hf, herror⟩ := Path.hasErrors_found.mp herrors
    cases hresult : (e.evaluate stack).result with
    | ok v => exact absurd hresult (valueless_of_finding hs hf herror v)
    | error err => exact ⟨err, _, rfl⟩
  · have hnone : ∀ f ∈ e.markupFindings params, f.severity ≠ .error := by
      intro f hf herror
      have hreported : hasErrors (path.found (e.markupFindings params)) = true :=
        Path.hasErrors_found.mpr ⟨f, hf, herror⟩
      rw [herrors] at hreported
      cases hreported
    have hchecked := hclosed.checked hnone
    obtain ⟨v, hv⟩ := hchecked.exists_result hs
    obtain ⟨t, ht⟩ := hchecked.exists_staticType hs
    refine ⟨v, t, ?_, ht, type_eq_of_staticType hs ht hv⟩
    rw [hv, hchecked.warnings_eq_nil hs, List.append_nil]

end Expression

/-- The ware, and behind it twice the price. -/
def twicePrice : Expression :=
  .operation (.symbol "ware") .add (.operation (.symbol "price") .multiply (.number 2))

/-- A text, and behind it twice the ware. -/
def twiceWare : Expression :=
  .operation (.text "Two of ") .add (.operation (.symbol "ware") .multiply (.number 2))

/-- A label on which two parameters have the same name. -/
def priceLabel : Component where
  name := "Label"
  params := [⟨"price", .number⟩, ⟨"ware", .string⟩, ⟨"price", .string⟩]
  body := [.paragraph .none twicePrice]

/-- On a label, the first of the two prices counts, for the check as for the value. Twice the price
passes the check and has a value. Twice the ware is an error, though the text in front of it leaves
no doubt about the type of the whole. -/
theorem Expression.evaluate_sound_priceLabel :
    ∃ stack : Stack, stack.Inside priceLabel.params ∧
      (∃ v, (ExceptT.run (twicePrice.evaluate stack)).run [] = (.ok v, []) ∧ v.type = .string) ∧
      ∃ error ws, (ExceptT.run (twiceWare.evaluate stack)).run [] = (.error error, ws) := by
  have hbind : (ExceptT.run (priceLabel.bind [number 3, text "Tea", text "three"] .empty)).run []
      = (.ok [⟨"price", .number, .number 3⟩, ⟨"ware", .string, .text "Tea"⟩,
          ⟨"price", .string, .text "three"⟩], []) := rfl
  have hstack := @Stack.Inside.body _ _ _ .empty _ _ _ hbind
  refine ⟨_, hstack, ?_, ?_⟩
  · obtain ⟨v, t, hrun, ht, hv⟩ :=
      (evaluate_sound twicePrice _ _ hstack [.body 0] []).2.2 (by decide) (by decide)
    cases ht
    exact ⟨v, hrun, hv⟩
  · exact (evaluate_sound twiceWare _ _ hstack [.body 0] []).2.1 (by decide)

end Pagewright
