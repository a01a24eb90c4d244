import Pagewright.Proofs.Evaluation
import Pagewright.Validation.Markup

/-!
# The types a check sees are the types of the values

The check of a document judges an expression by its static type, which it reads off the parameters
of the enclosing component. Evaluation knows nothing of parameters: it looks names up in a frame.
The two meet in `Stack.Provides`, which says that the frame holds, for every name, a value exactly
if there is a parameter of that name, and a value of its type. The frame of a component provides
its parameters because arguments of the wrong type are refused when they are bound
(`provides_push_bindEach`), whatever the check said of them.

In such a scope a static type is never wrong (`Expression.type_eq_of_staticType`), and it is
missing only for an expression that gives a warning (`Expression.Checked.warnings_ne_nil`). So an
expression without findings of its own can go wrong in one way: a name without a value stands for
the empty text where a number is needed, and then there is a warning for that name. A check may
tolerate some names without a value and not others; `loose` holds of those that it tolerates.
-/

namespace Pagewright

open Evaluation

/-! ## Types of sums and operations -/

namespace ValueType

/-- More knowledge about the summands does not change the type of a sum that is already known. -/
theorem sum_refine {a b : Option ValueType} {l r t : ValueType} (hl : ∀ u, a = some u → l = u)
    (hr : ∀ u, b = some u → r = u) (h : sum a b = some t) : sum (some l) (some r) = some t := by
  cases a with
  | none =>
    cases b with
    | none => cases h
    | some b =>
      cases hr b rfl
      cases r <;> cases l <;> first | exact h | cases h
  | some a =>
    cases hl a rfl
    cases b with
    | none => cases l <;> cases r <;> first | exact h | cases h
    | some b =>
      cases hr b rfl
      exact h

/-- The type of a sum is unknown only if that of a summand is. -/
theorem sum_eq_none {a b : Option ValueType} (h : sum a b = none) : a = none ∨ b = none := by
  rcases a with _ | _ | _ <;> rcases b with _ | _ | _ <;> simp_all [sum]

end ValueType

namespace Operator

/-- A sum of values has the type of the sum of their types. -/
theorem type_of_apply_add {l r v : Value} (h : Operator.add.apply l r = .ok v) :
    ValueType.sum (some l.type) (some r.type) = some v.type := by
  cases l <;> cases r <;> cases h <;> rfl

/-- Every other operation yields a number. -/
theorem type_of_apply {op : Operator} {l r v : Value} (hop : op ≠ .add)
    (h : op.apply l r = .ok v) : v.type = .number := by
  cases op <;> cases l <;> cases r <;> cases h <;> first | rfl | exact absurd rfl hop

/-- Every other operation needs numbers. -/
theorem operands_of_apply {op : Operator} {l r v : Value} (hop : op ≠ .add)
    (h : op.apply l r = .ok v) : l.type = .number ∧ r.type = .number := by
  cases op <;> cases l <;> cases r <;> cases h <;> first | exact ⟨rfl, rfl⟩ | exact absurd rfl hop

/-- **An operator refuses its operands** only if it is not a plus sign and one of them is a text. -/
theorem apply_eq_error {op : Operator} {l r : Value} {e : GenerationError}
    (h : op.apply l r = .error e) :
    op ≠ .add ∧ (l.type = .string ∨ r.type = .string) ∧
      e = .invalidOperation op (some l.type) (some r.type) := by
  cases op <;> cases l <;> cases r <;> cases h <;>
    exact ⟨(fun h => nomatch h), by simp [Value.type], rfl⟩

end Operator

/-! ## Scopes -/

/-- **The scope provides the parameters**: a name has a value exactly if it is the name of a
parameter, and then a value of the type of the first parameter of that name. -/
def Stack.Provides (stack : Stack) (params : List Parameter) : Prop :=
  ∀ name, (stack.lookup? name).map Value.type = (params.find? (·.name = name)).map (·.type)

namespace Stack

/-- Outside all components there are no parameters and no values. -/
theorem provides_empty : empty.Provides [] := fun _ => rfl

theorem Provides.lookup?_eq_none_iff {stack : Stack} {params : List Parameter}
    (h : stack.Provides params) (name : String) :
    stack.lookup? name = none ↔ params.any (·.name = name) = false := by
  have hname := congrArg Option.isSome (h name)
  rw [Option.isSome_map, Option.isSome_map, List.isSome_find?] at hname
  rw [← hname]
  cases stack.lookup? name <;> simp

end Stack

namespace Expression

/-- An operation has a value if its operands have and the operator applies to them. -/
theorem result_operation_eq_ok {stack : Stack} {left right : Expression} {op : Operator}
    {v : Value} (h : ((operation left op right).evaluate stack).result = .ok v) :
    ∃ l r, (left.evaluate stack).result = .ok l ∧ (right.evaluate stack).result = .ok r ∧
      op.apply l r = .ok v := by
  rw [result_operation] at h
  cases hl : (left.evaluate stack).result with
  | error e => rw [hl] at h; cases h
  | ok l =>
    cases hr : (right.evaluate stack).result with
    | error e => rw [hl, hr] at h; cases h
    | ok r => exact ⟨l, r, rfl, rfl, by rw [hl, hr] at h; exact h⟩

/-- **A static type is never wrong**: an expression that has one and has a value has a value of
that type. -/
theorem type_eq_of_staticType {stack : Stack} {params : List Parameter}
    (hs : stack.Provides params) {e : Expression} {t : ValueType} {v : Value}
    (ht : e.staticType params = some t) (hv : (e.evaluate stack).result = .ok v) :
    v.type = t := by
  induction e generalizing t v with
  | text value => cases hv; cases ht; rfl
  | number value => cases hv; cases ht; rfl
  | textbox name => cases ht
  | symbol name =>
    have hname := (hs name).trans ht
    rw [result_symbol] at hv
    cases hl : stack.lookup? name with
    | none => rw [hl] at hname; cases hname
    | some w =>
      rw [hl] at hv hname
      cases hv
      exact Option.some.inj hname
  | operation left op right ihl ihr =>
    obtain ⟨l, r, hl, hr, hop⟩ := result_operation_eq_ok hv
    by_cases hadd : op = .add
    · subst hadd
      have hsum := ValueType.sum_refine (fun u hu => ihl hu hl) (fun u hu => ihr hu hr) ht
      exact Option.some.inj ((Operator.type_of_apply_add hop).symm.trans hsum)
    · have hnum : (operation left op right).staticType params = some .number := by
        cases op <;> first | rfl | exact absurd rfl hadd
      rw [Operator.type_of_apply hadd hop]
      exact Option.some.inj (hnum.symm.trans ht)

end Expression

/-! ## Checked expressions -/

/-- The finding is no error, and if it is about a name without a value, the name is tolerated. -/
def Finding.Admitted (loose : String → Prop) (f : Finding) : Prop :=
  f.severity = .warning ∧ ∀ name, f = .notAParameter name → loose name

namespace Expression

/-- **The check has nothing against the expression** but names without a value that are
tolerated. -/
def Checked (params : List Parameter) (loose : String → Prop) (e : Expression) : Prop :=
  ∀ f ∈ e.markupFindings params, f.Admitted loose

variable {stack : Stack} {params : List Parameter} {loose : String → Prop}

/-- An operator on a text is an error. -/
theorem severity_of_operatorFinding? {p : Expression} {f : Finding}
    (h : operatorFinding? params p = some f) : f.severity = .error := by
  unfold operatorFinding? at h
  split at h
  · cases h
  · split at h <;> cases h
    rfl
  · cases h

/-- An operator on a text is never tolerated. -/
theorem operatorFindings_eq_nil {e : Expression}
    (h : ∀ f ∈ e.operatorFindings params, f.Admitted loose) : e.operatorFindings params = [] := by
  refine List.eq_nil_iff_forall_not_mem.mpr (fun f hf => ?_)
  obtain ⟨p, -, hp⟩ := List.mem_filterMap.mp hf
  exact nomatch (severity_of_operatorFinding? hp).symm.trans (h f hf).1

/-- A checked expression, part by part: the names are in order and no operator is applied to a
text. -/
theorem checked_iff {e : Expression} :
    e.Checked params loose ↔ ∀ p ∈ e.parts,
      (∀ f, nameFinding? params p = some f → f.Admitted loose) ∧
        operatorFinding? params p = none := by
  unfold Checked markupFindings operatorFindings
  constructor
  · intro h p hp
    refine ⟨fun f hf => h f (List.mem_append_left _ (List.mem_filterMap.mpr ⟨p, hp, hf⟩)), ?_⟩
    exact List.filterMap_eq_nil_iff.mp
      (operatorFindings_eq_nil (fun f hf => h f (List.mem_append_right _ hf))) p hp
  · intro h f hf
    rcases List.mem_append.mp hf with hf | hf
    · obtain ⟨p, hp, hpf⟩ := List.mem_filterMap.mp hf
      exact (h p hp).1 f hpf
    · obtain ⟨p, hp, hpf⟩ := List.mem_filterMap.mp hf
      exact nomatch (h p hp).2.symm.trans hpf

theorem Checked.left {left right : Expression} {op : Operator}
    (h : (operation left op right).Checked params loose) : left.Checked params loose :=
  checked_iff.mpr fun p hp => checked_iff.mp h p (by simp [parts, hp])

theorem Checked.right {left right : Expression} {op : Operator}
    (h : (operation left op right).Checked params loose) : right.Checked params loose :=
  checked_iff.mpr fun p hp => checked_iff.mp h p (by simp [parts, hp])

/-- The operands of a checked operation are not seen to be texts, unless it is a sum. -/
theorem Checked.staticType_ne {left right : Expression} {op : Operator}
    (h : (operation left op right).Checked params loose) (hop : op ≠ .add) :
    left.staticType params ≠ some .string ∧ right.staticType params ≠ some .string := by
  have hself := (checked_iff.mp h (operation left op right) (by simp [parts])).2
  unfold operatorFinding? at hself
  split at hself
  · rename_i heq
    cases heq
    exact absurd rfl hop
  · rename_i heq
    cases heq
    split at hself
    · cases hself
    · rename_i hstring
      exact not_or.mp hstring
  · rename_i h₁ h₂
    exact absurd rfl (h₂ left op right)

/-- A name of a checked expression is that of a parameter, or tolerated. -/
theorem Checked.loose_of_not_parameter {name : String}
    (h : (symbol name).Checked params loose) (hname : params.any (·.name = name) = false) :
    loose name := by
  have hself := (checked_iff.mp h (symbol name) (by simp [parts])).1 (.notAParameter name)
    (by simp [nameFinding?, hname])
  exact hself.2 name rfl

theorem not_checked_textbox {name : String} : ¬ (textbox name).Checked params loose := by
  intro h
  have hself := (checked_iff.mp h (textbox name) (by simp [parts])).1 (.textboxInMarkup name) rfl
  exact nomatch hself.1

/-- **Where the static type of a checked expression is missing, there is a warning**: only a name
without a value hides a type. -/
theorem Checked.warnings_ne_nil {e : Expression} (h : e.Checked params loose)
    (hs : stack.Provides params) (ht : e.staticType params = none) {v : Value}
    (hv : (e.evaluate stack).result = .ok v) : (e.evaluate stack).warnings ≠ [] := by
  induction e generalizing v with
  | text value => cases ht
  | number value => cases ht
  | textbox name => exact absurd h not_checked_textbox
  | symbol name =>
    have hlookup : stack.lookup? name = none := Option.map_eq_none_iff.mp ((hs name).trans ht)
    rw [warnings_symbol, hlookup]
    exact List.cons_ne_nil _ _
  | operation left op right ihl ihr =>
    obtain ⟨l, r, hl, hr, -⟩ := result_operation_eq_ok hv
    have hsum : ValueType.sum (left.staticType params) (right.staticType params) = none := by
      cases op <;> first | exact ht | cases ht
    rw [warnings_operation, hl]
    rcases ValueType.sum_eq_none hsum with hnone | hnone
    · exact List.append_ne_nil_of_left_ne_nil (ihl h.left hnone hl) _
    · exact List.append_ne_nil_of_right_ne_nil _ (ihr h.right hnone hr)

/-- A checked expression whose value is not of its supposed type gives a warning. -/
theorem Checked.warnings_ne_nil_of_type {e : Expression} (h : e.Checked params loose)
    (hs : stack.Provides params) {t : ValueType} (ht : ∀ u, e.staticType params = some u → u = t)
    {v : Value} (hv : (e.evaluate stack).result = .ok v) (hvt : v.type ≠ t) :
    (e.evaluate stack).warnings ≠ [] := by
  cases hu : e.staticType params with
  | none => exact h.warnings_ne_nil hs hu hv
  | some u => exact absurd ((type_eq_of_staticType hs hu hv).trans (ht u hu)) hvt

/-- **A checked expression fails only after a warning**, and only because an operator was applied
to a text. -/
theorem Checked.result_eq_error {e : Expression} (h : e.Checked params loose)
    (hs : stack.Provides params) {err : GenerationError}
    (herr : (e.evaluate stack).result = .error err) :
    (∃ op l r, err = .invalidOperation op l r) ∧ (e.evaluate stack).warnings ≠ [] := by
  induction e generalizing err with
  | text value => cases herr
  | number value => cases herr
  | textbox name => exact absurd h not_checked_textbox
  | symbol name => rw [result_symbol] at herr; cases herr
  | operation left op right ihl ihr =>
    rw [result_operation] at herr
    rw [warnings_operation]
    cases hl : (left.evaluate stack).result with
    | error e =>
      rw [hl] at herr
      cases herr
      exact ⟨(ihl h.left hl).1, List.append_ne_nil_of_left_ne_nil (ihl h.left hl).2 _⟩
    | ok l =>
      cases hr : (right.evaluate stack).result with
      | error e =>
        rw [hl, hr] at herr
        cases herr
        exact ⟨(ihr h.right hr).1, List.append_ne_nil_of_right_ne_nil _ (ihr h.right hr).2⟩
      | ok r =>
        rw [hl, hr] at herr
        obtain ⟨hop, htext, rfl⟩ := Operator.apply_eq_error herr
        have hne := h.staticType_ne hop
        -- an operand that is a text was not seen to be one, so its type was missing
        have hnumber : ∀ {x : Expression}, x.staticType params ≠ some .string →
            ∀ u, x.staticType params = some u → u = .number := by
          intro x hx u hu
          cases u with
          | number => rfl
          | string => exact absurd hu hx
        refine ⟨⟨op, _, _, rfl⟩, ?_⟩
        rcases htext with hstring | hstring
        · exact List.append_ne_nil_of_left_ne_nil
            (h.left.warnings_ne_nil_of_type hs (hnumber hne.1) hl (by simp [hstring])) _
        · exact List.append_ne_nil_of_right_ne_nil _
            (h.right.warnings_ne_nil_of_type hs (hnumber hne.2) hr (by simp [hstring]))

/-- **The warnings of a checked expression** are about tolerated names. -/
theorem Checked.loose_of_mem_warnings {e : Expression} (h : e.Checked params loose)
    (hs : stack.Provides params) {name : String}
    (hw : .unresolved name ∈ (e.evaluate stack).warnings) : loose name := by
  induction e with
  | text value => cases hw
  | number value => cases hw
  | textbox name => cases hw
  | symbol s =>
    rw [warnings_symbol] at hw
    cases hlookup : stack.lookup? s with
    | some v => rw [hlookup] at hw; cases hw
    | none =>
      rw [hlookup] at hw
      cases List.mem_singleton.mp hw
      exact h.loose_of_not_parameter ((hs.lookup?_eq_none_iff _).mp hlookup)
  | operation left op right ihl ihr =>
    rw [warnings_operation] at hw
    rcases List.mem_append.mp hw with hw | hw
    · exact ihl h.left hw
    · split at hw
      · exact ihr h.right hw
      · cases hw

end Expression

/-! ## Arguments -/

/-- The error says that types do not go together. -/
def GenerationError.IsTypeClash : GenerationError → Prop
  | invalidOperation _ _ _ | argumentType _ _ _ _ => True
  | _ => False

/-- **The arguments suit the parameters** as far as the check can see: there are as many of them,
and none is seen to be of another type. -/
def Component.Suits (component : Component) (params : List Parameter) (args : List Expression) :
    Prop :=
  component.params.length = args.length ∧
    ∀ pair ∈ component.params.zip args, ∀ t, pair.2.staticType params = some t → t = pair.1.type

/-- **A use without errors is a use of a component whose parameters its arguments suit.** -/
theorem Document.suits_of_useFindings {doc : Document} {params : List Parameter} {name : String}
    {args : List Expression}
    (h : ∀ f ∈ doc.useFindings params name args, f.severity = .warning) :
    ∃ component, doc.component? name = some component ∧ component.Suits params args := by
  unfold Document.useFindings at h
  cases hc : doc.component? name with
  | none =>
    rw [hc] at h
    exact nomatch h _ (List.mem_singleton.mpr rfl)
  | some component =>
    rw [hc] at h
    refine ⟨component, rfl, ?_⟩
    by_cases hlen : component.params.length = args.length
    · refine ⟨hlen, fun pair hpair t ht => ?_⟩
      refine Decidable.byContradiction (fun hne => ?_)
      refine nomatch h (.argumentType pair.1.name name pair.1.type t) ?_
      simp only [ne_eq, hlen, not_true_eq_false, if_false]
      exact List.mem_filterMap.mpr ⟨pair, hpair, by simp only [ht, if_neg hne]⟩
    · simp only [ne_eq, hlen, not_false_eq_true, if_true] at h
      exact nomatch h _ (List.mem_singleton.mpr rfl)

section Binding

variable {stack : Stack} {params : List Parameter} {loose : String → Prop}
  {component : String} {ps : List Parameter} {args : List Expression}

/-- **The frame of a component provides its parameters**, since values of other types are refused
when they are bound. -/
theorem provides_push_bindEach {frame : Frame} (hlen : ps.length = args.length)
    (h : (bindEach component stack ps args).result = .ok frame) (outer : Stack) :
    (outer.push frame).Provides ps := by
  intro name
  show (frame.get? name).map Value.type = _
  unfold Frame.get?
  induction ps generalizing args frame with
  | nil => cases h; rfl
  | cons p ps ih =>
    cases args with
    | nil => cases hlen
    | cons arg args =>
      rw [result_bindEach_cons] at h
      cases hv : (arg.evaluate stack).result with
      | error e => rw [hv] at h; cases h
      | ok v =>
        rw [hv] at h
        change (if v.type = p.type then _ else _) = _ at h
        by_cases ht : v.type = p.type
        · rw [if_pos ht] at h
          cases hrest : (bindEach component stack ps args).result with
          | error e => rw [hrest] at h; cases h
          | ok rest =>
            rw [hrest] at h
            cases h
            have hrec := ih (Nat.succ.inj hlen) hrest
            by_cases hn : p.name = name
            · simp [hn, ht]
            · simpa [hn] using hrec
        · rw [if_neg ht] at h
          cases h

/-- **Binding suitable checked arguments fails only after a warning**, and only because types do
not go together. -/
theorem result_bindEach_eq_error (hs : stack.Provides params)
    (hargs : ∀ x ∈ args, x.Checked params loose)
    (htypes : ∀ pair ∈ ps.zip args, ∀ t, pair.2.staticType params = some t → t = pair.1.type)
    {err : GenerationError} (herr : (bindEach component stack ps args).result = .error err) :
    err.IsTypeClash ∧ (bindEach component stack ps args).warnings ≠ [] := by
  induction ps generalizing args err with
  | nil => cases herr
  | cons p ps ih =>
    cases args with
    | nil => cases herr
    | cons arg args =>
      have harg := hargs arg List.mem_cons_self
      rw [result_bindEach_cons] at herr
      rw [warnings_bindEach_cons]
      cases hv : (arg.evaluate stack).result with
      | error e =>
        rw [hv] at herr
        cases herr
        obtain ⟨⟨op, l, r, rfl⟩, hw⟩ := harg.result_eq_error hs hv
        exact ⟨trivial, List.append_ne_nil_of_left_ne_nil hw _⟩
      | ok v =>
        rw [hv] at herr
        change (if v.type = p.type then _ else _) = _ at herr
        by_cases ht : v.type = p.type
        · rw [if_pos ht] at herr
          cases hrest : (bindEach component stack ps args).result with
          | ok rest => rw [hrest] at herr; cases herr
          | error e =>
            rw [hrest] at herr
            cases herr
            have hrec := ih (fun x hx => hargs x (List.mem_cons_of_mem _ hx))
              (fun pair hpair => htypes pair (List.mem_cons_of_mem _ hpair)) hrest
            refine ⟨hrec.1, List.append_ne_nil_of_right_ne_nil _ ?_⟩
            simpa only [if_pos ht] using hrec.2
        · rw [if_neg ht] at herr
          cases herr
          exact ⟨trivial, List.append_ne_nil_of_left_ne_nil
            (harg.warnings_ne_nil_of_type hs (htypes (p, arg) List.mem_cons_self) hv ht) _⟩

/-- The warnings of binding checked arguments are about tolerated names. -/
theorem loose_of_mem_warnings_bindEach (hs : stack.Provides params)
    (hargs : ∀ x ∈ args, x.Checked params loose) {name : String}
    (hw : .unresolved name ∈ (bindEach component stack ps args).warnings) : loose name := by
  induction ps generalizing args with
  | nil => cases hw
  | cons p ps ih =>
    cases args with
    | nil => cases hw
    | cons arg args =>
      rw [warnings_bindEach_cons] at hw
      rcases List.mem_append.mp hw with hw | hw
      · exact (hargs arg List.mem_cons_self).loose_of_mem_warnings hs hw
      · split at hw
        · split at hw
          · exact ih (fun x hx => hargs x (List.mem_cons_of_mem _ hx)) hw
          · cases hw
        · cases hw

end Binding

end Pagewright
