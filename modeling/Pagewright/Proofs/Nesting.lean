import Pagewright.Proofs.Safety

/-!
# How deep components may be nested

A use of a component stands for the component's body, in which other components may be used, and so
on. A chain of uses names the components on one way down. Since every step of a chain takes one of
the levels there are, elements can be written with a number of levels only if no chain from them is
longer, and then no failure is for want of a level.

For a checked document whose names all have values, nothing else can go wrong. So the files of such
a document can be generated exactly if no chain from its body is longer than the limit.
-/

namespace Pagewright

/-- **A chain of uses** from a list of elements: each component is used by the elements or by the
body of the component before it, and it is the first of its name that counts. -/
inductive Document.Chain (doc : Document) : List Element → List String → Prop where
  | nil (es : List Element) : Chain doc es []
  | cons {es : List Element} {name : String} {component : Component} {chain : List String}
      (huse : name ∈ Element.uses es) (hc : doc.component? name = some component)
      (hchain : Chain doc component.body chain) : Chain doc es (name :: chain)

/-- The name of a component is among the uses of elements if one of them, however deep in
containers, uses the component. -/
theorem Element.mem_uses {name : String} {es : List Element} :
    name ∈ Element.uses es ↔ ∃ args, .useComponent name args ∈ Element.subelementsOf es := by
  unfold Element.uses
  rw [List.mem_filterMap]
  constructor
  · rintro ⟨e, he, hname⟩
    cases e <;> cases hname
    exact ⟨_, he⟩
  · rintro ⟨args, hargs⟩
    exact ⟨_, hargs, rfl⟩

/-- A list of elements without uses has no chain but the empty one. -/
theorem Document.Chain.eq_nil {doc : Document} {es : List Element} {chain : List String}
    (h : doc.Chain es chain)
    (hes : ∀ name args, .useComponent name args ∉ Element.subelementsOf es) : chain = [] := by
  cases h with
  | nil => rfl
  | cons huse =>
    obtain ⟨args, hargs⟩ := Element.mem_uses.mp huse
    exact absurd hargs (hes _ args)

/-! ## Too few levels -/

namespace Markup

open Emission

variable {doc : Document}

/-- **A chain longer than the levels there are cannot be written**, whatever the arguments on the
way down. -/
theorem elements_fails_of_chain (source : ClassSource) {es : List Element} {chain : List String}
    (h : doc.Chain es chain) {levels : Nat} (hlong : levels < chain.length) (stack : Stack) :
    (elements ⟨source, doc.landmarks, instantiate doc source levels⟩ stack es).Fails := by
  induction h generalizing levels stack with
  | nil => exact absurd hlong (Nat.not_lt_zero _)
  | @cons es name component chain huse hc hchain ih =>
    -- The first use of the chain takes a level, if there is one, and the rest is still too long.
    obtain ⟨args, hargs⟩ := Element.mem_uses.mp huse
    refine elements_fails ?_ es hargs
    show (instantiate doc source levels stack name args).Fails
    unfold instantiate
    rw [hc]
    cases levels with
    | zero => exact fun _ _ => trivial
    | succ levels =>
      exact Fails.bind_right _ (fun frame => ih (Nat.lt_of_succ_lt_succ hlong) (stack.push frame))

end Markup

/-! ## Enough levels -/

/-- The error is that components are nested too deep. -/
def GenerationError.IsTooDeep : GenerationError → Prop
  | tooDeep _ _ => True
  | _ => False

theorem Expression.not_isTooDeep_of_evaluate {stack : Stack} {x : Expression}
    {e : GenerationError} (h : (x.evaluate stack).result = .error e) : ¬ e.IsTooDeep := by
  induction x generalizing e with
  | text value => cases h
  | number value => cases h
  | symbol name => rw [result_symbol] at h; cases h
  | textbox name => cases h; exact id
  | operation left op right ihl ihr =>
    rw [result_operation] at h
    cases hl : (left.evaluate stack).result with
    | error e' => rw [hl] at h; cases h; exact ihl hl
    | ok l =>
      cases hr : (right.evaluate stack).result with
      | error e' => rw [hl, hr] at h; cases h; exact ihr hr
      | ok r =>
        rw [hl, hr] at h
        obtain ⟨-, -, rfl⟩ := Operator.apply_eq_error h
        exact id

theorem not_isTooDeep_of_bindEach {component : String} {stack : Stack} {params : List Parameter}
    {args : List Expression} {e : GenerationError}
    (h : (bindEach component stack params args).result = .error e) : ¬ e.IsTooDeep := by
  induction params generalizing args e with
  | nil => cases h
  | cons param params ih =>
    cases args with
    | nil => cases h
    | cons arg args =>
      rw [result_bindEach_cons] at h
      cases harg : (arg.evaluate stack).result with
      | error e' =>
        rw [harg] at h
        cases h
        exact Expression.not_isTooDeep_of_evaluate harg
      | ok value =>
        rw [harg, Except.bind] at h
        split at h
        · cases hrest : (bindEach component stack params args).result with
          | error e' => rw [hrest] at h; cases h; exact ih hrest
          | ok frame => rw [hrest] at h; cases h
        · cases h
          exact id

theorem Component.not_isTooDeep_of_bind {component : Component} {args : List Expression}
    {stack : Stack} {e : GenerationError} (h : (component.bind args stack).result = .error e) :
    ¬ e.IsTooDeep := by
  unfold Component.bind at h
  split at h
  · exact not_isTooDeep_of_bindEach h
  · cases h
    exact id

/-- The pass may fail, but not because components are nested too deep. -/
def Emission.NotTooDeep {α : Type} (m : Emission α) : Prop :=
  m.Keeps (fun _ => True) (fun e _ => ¬ e.IsTooDeep)

theorem Emission.value_notTooDeep (stack : Stack) (x : Expression) :
    (Emission.value stack x).NotTooDeep :=
  Emission.Ensures.ofEvaluation (fun _ _ _ _ => trivial)
    (fun _ _ _ h => Expression.not_isTooDeep_of_evaluate h)

namespace Markup

open Emission

variable {doc : Document}

/-- Elements are written without going too deep if the uses of components in them are. -/
theorem elements_notTooDeep_of_uses {context : Context} {stack : Stack} (es : List Element)
    (h : ∀ name args, .useComponent name args ∈ Element.subelementsOf es →
      (context.expand stack name args).NotTooDeep) : (elements context stack es).NotTooDeep := by
  have hctx : Surroundings (fun _ => True) (fun e _ => ¬ e.IsTooDeep) context :=
    ⟨fun _ _ _ => trivial, fun _ _ => trivial, fun _ _ => trivial,
      fun _ _ _ _ => value_notTooDeep _ _⟩
  refine elements_keeps hctx es (fun e he => ⟨fun _ _ => value_notTooDeep _ _, ?_⟩)
  rintro name args rfl
  exact h name args he

/-- **Where no chain is longer than the levels there are**, no failure is for want of a level. The
induction is on the levels: those left for the body of a component used are enough for the rest of
each chain. -/
theorem elements_notTooDeep (source : ClassSource) {levels : Nat} {es : List Element}
    (h : ∀ chain, doc.Chain es chain → chain.length ≤ levels) (stack : Stack) :
    (elements ⟨source, doc.landmarks, instantiate doc source levels⟩ stack es).NotTooDeep := by
  induction levels generalizing es stack with
  | zero =>
    refine elements_notTooDeep_of_uses es (fun name args he => ?_)
    show (instantiate doc source 0 stack name args).NotTooDeep
    unfold instantiate
    cases hc : doc.component? name with
    | none => exact fun _ _ => id
    | some component =>
      have hchain := h [name] (.cons (Element.mem_uses.mpr ⟨args, he⟩) hc (.nil _))
      exact absurd hchain (Nat.not_succ_le_zero 0)
  | succ levels ih =>
    refine elements_notTooDeep_of_uses es (fun name args he => ?_)
    show (instantiate doc source (levels + 1) stack name args).NotTooDeep
    unfold instantiate
    cases hc : doc.component? name with
    | none => exact fun _ _ => id
    | some component =>
      refine Keeps.bind (Ensures.ofEvaluation (fun _ _ _ _ => trivial)
        (fun _ _ _ he => Component.not_isTooDeep_of_bind he)) (fun frame => ih ?_ _)
      intro chain hchain
      have hlong := h (name :: chain) (.cons (Element.mem_uses.mpr ⟨args, he⟩) hc hchain)
      exact Nat.le_of_succ_le_succ hlong

end Markup

/-! ## Documents -/

namespace Document

open Emission

variable {doc : Document} {known : Option (List String)} {loose : String → Prop}

/-- All parts of a checked document are written without going too deep, if no chain from its body
is longer than the limit. -/
theorem Checked.parts_notTooDeep (hdoc : doc.Checked known loose) (source : ClassSource)
    (h : ∀ chain, doc.Chain doc.body chain → chain.length ≤ depthLimit) :
    Parts (fun _ => True) (fun e _ => ¬ e.IsTooDeep) doc source where
  note _ _ := fun _ _ => trivial
  done _ _ := trivial
  head := by
    refine Markup.elements_notTooDeep source (fun chain hchain => ?_) _
    rw [hchain.eq_nil (fun _ _ => hdoc.not_use_mem_head)]
    exact Nat.zero_le _
  body := Markup.elements_notTooDeep source h _
  style _ _ _ _ := value_notTooDeep _ _

/-- **A checked document whose names all have values fails only for want of a level.** -/
theorem Checked.eq_tooDeep (hdoc : doc.Checked known (fun _ => False)) (source : ClassSource)
    (options : PageOptions) {e : GenerationError}
    (he : (doc.generate source options).1 = .error e) :
    ∃ component, e = .tooDeep component depthLimit := by
  have hpardon : Run.Pardons (fun _ => False) e (doc.generate source options).2 :=
    ((hdoc.pardoned source).emit hdoc.script_eq_ok options).of_error Run.tolerates_fresh
      (Prod.ext he rfl)
  -- No name is tolerated, so there are no warnings, and without them only one excuse is left.
  obtain ⟨hexcuse, hnames⟩ := hpardon
  have hquiet : (doc.generate source options).2.warnings = [] :=
    List.eq_nil_iff_forall_not_mem.mpr (fun ⟨name⟩ hname => hnames name hname)
  cases e with
  | tooDeep component limit => exact ⟨component, congrArg _ hexcuse⟩
  | invalidOperation op l r => exact absurd hquiet hexcuse
  | argumentType component parameter expected got => exact absurd hquiet hexcuse
  | textboxInMarkup => exact hexcuse.elim
  | argumentCount component expected got => exact hexcuse.elim
  | unknownComponent name => exact hexcuse.elim

/-- **Generation succeeds exactly if no chain of uses is longer than 64.** For a document without
errors in which every name is a parameter, the files can be generated if and only if every chain of
uses from the body has at most 64 components on it; otherwise generation ends with the error that
components are nested deeper than 64 levels. -/
theorem generate_ok_iff_chains (doc : Document) (known : Option (List String))
    (source : ClassSource) (options : PageOptions)
    (herrors : hasErrors (doc.diagnostics known) = false)
    (hnames : ∀ d ∈ doc.diagnostics known, ∀ name, d.finding ≠ .notAParameter name) :
    ((∃ files, (doc.generate source options).1 = .ok files) ↔
        ∀ chain, doc.Chain doc.body chain → chain.length ≤ 64) ∧
      ((¬ ∀ chain, doc.Chain doc.body chain → chain.length ≤ 64) →
        ∃ component, (doc.generate source options).1 = .error (.tooDeep component 64)) := by
  have hdoc : doc.Checked known (fun _ => False) :=
    checked_of_not_hasErrors herrors (fun d hd name h => hnames d hd name h)
  have hlimit : ∀ files, (doc.generate source options).1 = .ok files →
      ∀ chain, doc.Chain doc.body chain → chain.length ≤ depthLimit := by
    intro files hfiles chain hchain
    refine Nat.le_of_not_lt (fun hlong => ?_)
    have hbody : (doc.markup source doc.body).Fails :=
      Markup.elements_fails_of_chain source hchain hlong .empty
    exact (emit_fails options hbody).of_ok trivial (Prod.ext hfiles rfl)
  have henough : (∀ chain, doc.Chain doc.body chain → chain.length ≤ depthLimit) →
      ∃ files, (doc.generate source options).1 = .ok files := by
    intro h
    cases hresult : (doc.generate source options).1 with
    | ok files => exact ⟨files, rfl⟩
    | error e =>
      obtain ⟨component, rfl⟩ := hdoc.eq_tooDeep source options hresult
      have hnot : ¬ (GenerationError.tooDeep component depthLimit).IsTooDeep :=
        ((hdoc.parts_notTooDeep source h).emit hdoc.script_eq_ok options).of_error trivial
          (Prod.ext hresult rfl)
      exact absurd trivial hnot
  refine ⟨⟨fun ⟨files, hfiles⟩ => hlimit files hfiles, henough⟩, fun h => ?_⟩
  cases hresult : (doc.generate source options).1 with
  | ok files => exact absurd (hlimit files hresult) h
  | error e =>
    obtain ⟨component, rfl⟩ := hdoc.eq_tooDeep source options hresult
    exact ⟨component, rfl⟩

/-- A board with a card on it. -/
def board : Document where
  head := []
  components :=
    [⟨"Board", [], [.div .none [.useComponent "Card" [.text "Milk"]]]⟩,
     ⟨"Card", [⟨"task", .string⟩], [.paragraph .none (.symbol "task")]⟩]
  body := [.useComponent "Board" []]
  functions := []
  statements := []
  styles := []

/-- The card is the end of a chain of two uses, and since the board can be generated, no chain is
longer than the limit. -/
theorem generate_ok_iff_chains_board :
    board.diagnostics none = [] ∧ board.Chain board.body ["Board", "Card"] ∧
      ∀ chain, board.Chain board.body chain → chain.length ≤ 64 := by
  have hreport : board.diagnostics none = [] := rfl
  refine ⟨hreport, ?_, ?_⟩
  · exact .cons (by decide) rfl (.cons (by decide) rfl (.nil _))
  · refine (generate_ok_iff_chains board none (fun _ => []) {} (by rw [hreport]; rfl) ?_).1.mp
      ⟨_, rfl⟩
    rw [hreport]
    exact fun _ h => nomatch h

end Document

end Pagewright
