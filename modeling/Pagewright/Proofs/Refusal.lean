import Pagewright.Proofs.Passes
import Pagewright.Proofs.Report

/-!
# What the check refuses cannot be generated

A check may err in two directions. This module is about false alarms: an error of the check is none
if the generation fails as well. For an error about an expression or about the use of a component
this is so wherever the document stands outside all components, in its head, its body and its
styles, whatever else is in it. What is checked there is evaluated and what is used there is
expanded, unless the generation has failed before.

Two things have to come together. A static type is never wrong, so where the check sees a text the
evaluation has a text, if it has anything (`Expression.valueless_of_finding`,
`Document.bind_ne_ok_of_useFinding`). And no place that the check goes to is left out when the
document is written, but for the links of a topbar that lists the sections of the document instead
of them.

Inside a component nothing of the kind can be said. It may never be used.
-/

namespace Pagewright

/-! ## Expressions -/

/-- **The expression has no value** inside the frames of the stack. -/
def Expression.Valueless (stack : Stack) (x : Expression) : Prop :=
  ∀ v, (x.evaluate stack).result ≠ .ok v

namespace Expression

variable {stack : Stack} {params : List Parameter} {x : Expression}

/-- An expression has no value if one of its parts has none. -/
theorem valueless_of_part {p : Expression} (hp : p ∈ x.parts) (h : p.Valueless stack) :
    x.Valueless stack := by
  induction x with
  | text value => exact List.mem_singleton.mp hp ▸ h
  | number value => exact List.mem_singleton.mp hp ▸ h
  | symbol name => exact List.mem_singleton.mp hp ▸ h
  | textbox name => exact List.mem_singleton.mp hp ▸ h
  | operation left op right ihl ihr =>
    rw [parts] at hp
    rcases List.mem_cons.mp hp with rfl | hp
    · exact h
    · intro v hv
      obtain ⟨l, r, hl, hr, -⟩ := result_operation_eq_ok hv
      rcases List.mem_append.mp hp with hp | hp
      · exact ihl hp l hl
      · exact ihr hp r hr

/-- **An operation in which the check sees a text where a number is needed has no value**: the
operand has none, or it is a text. -/
theorem valueless_of_operatorFinding? (hs : stack.Provides params) {p : Expression} {f : Finding}
    (h : operatorFinding? params p = some f) : p.Valueless stack := by
  unfold operatorFinding? at h
  split at h
  · cases h
  · rename_i left op right hop
    split at h
    · rename_i hstring
      intro v hv
      obtain ⟨l, r, hl, hr, happly⟩ := result_operation_eq_ok hv
      have hnumbers := Operator.operands_of_apply hop happly
      rcases hstring with hstring | hstring
      · cases (type_eq_of_staticType hs hstring hl).symm.trans hnumbers.1
      · cases (type_eq_of_staticType hs hstring hr).symm.trans hnumbers.2
    · cases h
  · cases h

/-- **An expression of which the check reports an error has no value.** -/
theorem valueless_of_finding (hs : stack.Provides params) {f : Finding}
    (hf : f ∈ x.markupFindings params) (herror : f.severity = .error) : x.Valueless stack := by
  rcases List.mem_append.mp hf with hf | hf
  · obtain ⟨p, hp, hname⟩ := List.mem_filterMap.mp hf
    refine valueless_of_part hp ?_
    cases p with
    | textbox name => exact fun v hv => nomatch hv
    | symbol name =>
      -- That a name has no value is no error.
      rw [nameFinding?] at hname
      split at hname
      · cases hname
      · cases hname
        cases herror
    | text value => cases hname
    | number value => cases hname
    | operation left op right => cases hname
  · obtain ⟨p, hp, hoperator⟩ := List.mem_filterMap.mp hf
    exact valueless_of_part hp (valueless_of_operatorFinding? hs hoperator)

end Expression

/-! ## Uses of components -/

section Binding

variable {stack : Stack} {params ps : List Parameter} {args : List Expression}

/-- Arguments cannot be bound if one of them has no value of the type of its parameter. -/
theorem bindEach_ne_ok {component : String} {pair : Parameter × Expression}
    (hpair : pair ∈ ps.zip args)
    (h : ∀ v, (pair.2.evaluate stack).result = .ok v → v.type ≠ pair.1.type) (frame : Frame) :
    (bindEach component stack ps args).result ≠ .ok frame := by
  induction ps generalizing args frame with
  | nil => cases hpair
  | cons p ps ih =>
    cases args with
    | nil => cases hpair
    | cons arg args =>
      rw [result_bindEach_cons]
      cases hv : (arg.evaluate stack).result with
      | error e => exact fun herror => nomatch herror
      | ok v =>
        show (if v.type = p.type then _ else _) ≠ _
        split
        · rename_i htype
          rcases List.mem_cons.mp hpair with rfl | hpair
          · exact absurd htype (h v hv)
          · cases hrest : (bindEach component stack ps args).result with
            | error e => exact fun herror => nomatch herror
            | ok rest => exact absurd hrest (ih hpair rest)
        · exact fun herror => nomatch herror

/-- The arguments of a use cannot be bound if one of them has no value. -/
theorem Component.bind_ne_ok_of_valueless {c : Component} {x : Expression} (hx : x ∈ args)
    (h : x.Valueless stack) (frame : Frame) : (c.bind args stack).result ≠ .ok frame := by
  unfold Component.bind
  split
  · rename_i hlength
    obtain ⟨i, hi, rfl⟩ := List.mem_iff_getElem.mp hx
    have hpair : (c.params[i], args[i]) ∈ c.params.zip args := by
      rw [← List.getElem_zip (h := by rw [List.length_zip]; omega)]
      exact List.getElem_mem _
    exact bindEach_ne_ok hpair (fun v hv => absurd hv (h v)) frame
  · exact fun herror => nomatch herror

/-- **The arguments of a use of which the check reports an error cannot be bound.** -/
theorem Document.bind_ne_ok_of_useFinding {doc : Document} (hs : stack.Provides params)
    {name : String} {f : Finding} (hf : f ∈ doc.useFindings params name args) {c : Component}
    (hc : doc.component? name = some c) (frame : Frame) :
    (c.bind args stack).result ≠ .ok frame := by
  unfold Document.useFindings at hf
  rw [hc] at hf
  unfold Component.bind
  by_cases hlength : c.params.length = args.length
  · rw [if_pos hlength]
    simp only [ne_eq, hlength, not_true_eq_false, if_false] at hf
    obtain ⟨pair, hpair, hfinding⟩ := List.mem_filterMap.mp hf
    refine bindEach_ne_ok hpair (fun v hv htype => ?_) frame
    cases hstatic : pair.2.staticType params with
    | none => simp [hstatic] at hfinding
    | some t =>
      -- The value is of the type that the check saw, which is not that of the parameter.
      have ht : t = pair.1.type := (Expression.type_eq_of_staticType hs hstatic hv).symm.trans htype
      simp [hstatic, ht] at hfinding
  · rw [if_neg hlength]
    exact fun herror => nomatch herror

end Binding

/-! ## Elements -/

namespace Markup

open Emission Element

variable {doc : Document} {source : ClassSource} {stack : Stack} {params : List Parameter}

theorem value_fails {x : Expression} (h : x.Valueless stack) : (value stack x).Fails := by
  cases hresult : (x.evaluate stack).result with
  | ok v => exact absurd hresult (h v)
  | error e => exact Fails.ofEvaluation hresult

/-- A use cannot be expanded if its arguments cannot be bound. -/
theorem instantiate_fails {levels : Nat} {name : String} {args : List Expression}
    (h : ∀ c, doc.component? name = some c → ∀ frame, (c.bind args stack).result ≠ .ok frame) :
    (instantiate doc source levels stack name args).Fails := by
  unfold instantiate
  cases hc : doc.component? name with
  | none => exact fun _ _ => trivial
  | some c =>
    cases levels with
    | zero => exact fun _ _ => trivial
    | succ levels =>
      cases hbind : (c.bind args stack).result with
      | ok frame => exact absurd hbind (h c hc frame)
      | error e => exact (Fails.ofEvaluation hbind).bind _

/-- **An element that incurs an error cannot be written**, unless it is a topbar that ignores its
links. -/
theorem element_fails_of_incurs {levels : Nat} (hs : stack.Provides params) {e : Element}
    {f : Finding} (h : e.Incurs doc params f) (herror : f.severity = .error)
    (hlinks : e.ignoresLinks = false) :
    (element ⟨source, doc.landmarks, instantiate doc source levels⟩ stack e).Fails := by
  rcases h with ⟨x, hx, hf⟩ | ⟨name, args, rfl, hf⟩
  · have hvalueless := Expression.valueless_of_finding hs hf herror
    by_cases huse : ∃ name args, e = .useComponent name args
    · obtain ⟨name, args, rfl⟩ := huse
      have hinstantiate : (instantiate doc source levels stack name args).Fails :=
        instantiate_fails (fun _ _ => Component.bind_ne_ok_of_valueless hx hvalueless)
      exact hinstantiate
    · exact element_fails_of_expression (value_fails hvalueless) hx hlinks
        (fun name args he => huse ⟨name, args, he⟩)
  · have hinstantiate : (instantiate doc source levels stack name args).Fails :=
      instantiate_fails (fun _ hc => Document.bind_ne_ok_of_useFinding hs hf hc)
    exact hinstantiate

end Markup

/-! ## Documents -/

namespace Document

open Emission

/-- An element outside the head that incurs an error keeps the list it stands in from being
written. -/
theorem markup_fails {doc : Document} (source : ClassSource) {es : List Element} {e : Element}
    (he : e ∈ Element.subelementsOf es) {f : Finding} (h : e.Incurs doc [] f)
    (herror : f.severity = .error) (hlinks : e.ignoresLinks = false) :
    (doc.markup source es).Fails :=
  Markup.elements_fails
    (Markup.element_fails_of_incurs Stack.provides_empty h herror hlinks) es he

/-- **An error outside all components is no false alarm.** If the check reports an error about an
expression or about the use of a component in the head, the body or the styles of a document, then
the files of the document cannot be generated, wherever classes are looked up and whatever the files
are called, provided that no topbar of the body ignores links of its own. -/
theorem generate_fails_of_error (doc : Document) (known : Option (List String)) (d : Diagnostic)
    (hd : d ∈ doc.diagnostics known)
    (hpart : d.path.part? = some .head ∨ d.path.part? = some .body ∨ d.path.part? = some .styles)
    (hkind : d.finding.aboutExpression = true ∨ d.finding.aboutUse = true)
    (hlinks : ∀ e ∈ Element.subelementsOf doc.body, e.ignoresLinks = false) :
    ∀ source options, ∃ error, (doc.generate source options).1 = .error error := by
  intro source options
  have herror := Finding.severity_of_about hkind
  suffices hemit : (doc.emit source options).Fails from hemit.exists_error .fresh
  rcases hpart with hpart | hpart | hpart
  · obtain ⟨e, he, hplace, hincurs⟩ :=
      exists_of_mem_headDiagnostics (mem_diagnosticsOf hd hpart) hkind
    have hquiet : e.ignoresLinks = false := by
      cases e with
      | topbar attrs caption home links autoNavLinks => cases hplace
      | _ => rfl
    exact emit_fails_of_head options
      (markup_fails source (Element.mem_subelementsOf he) hincurs herror hquiet)
  · obtain ⟨e, he, hincurs⟩ := exists_of_mem_bodyDiagnostics (mem_diagnosticsOf hd hpart) hkind
    exact emit_fails options (markup_fails source he hincurs herror (hlinks e he))
  · obtain ⟨rule, hrule, declaration, hdeclaration, hf⟩ :=
      exists_of_mem_styleDiagnostics (mem_diagnosticsOf hd hpart) hkind
    have hvalueless := Expression.valueless_of_finding Stack.provides_empty hf herror
    exact emit_fails_of_style options hrule hdeclaration (Markup.value_fails hvalueless)

/-- A section with a component that takes a number and is given a sum with a text in it. -/
def wrongPrice : Document where
  head := [.title (.text "Prices")]
  components := [⟨"Price", [⟨"amount", .number⟩], [.paragraph .none (.symbol "amount")]⟩]
  body :=
    [.topbar .none (.text "Shop") none [] true,
     .sectionBlock .none none
      [.useComponent "Price" [.operation (.symbol "total") .add (.text " euro")]]]
  functions := []
  statements := []
  styles := []

/-- The check sees that the sum is a text, though it does not know the value of the name in it, and
the document cannot be generated. -/
theorem generate_fails_of_error_wrongPrice :
    ⟨[.body 1, .content 0], .argumentType "amount" "Price" .number .string⟩
        ∈ wrongPrice.diagnostics none ∧
      ∀ source options, ∃ error, (wrongPrice.generate source options).1 = .error error := by
  have hreported : ⟨[.body 1, .content 0], .argumentType "amount" "Price" .number .string⟩
      ∈ wrongPrice.diagnostics none := by decide
  exact ⟨hreported, generate_fails_of_error wrongPrice none _ hreported (.inr (.inl rfl))
    (.inr rfl) (by decide)⟩

end Document

end Pagewright
