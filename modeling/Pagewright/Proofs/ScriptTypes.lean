import Pagewright.Proofs.Report
import Pagewright.Proofs.Script

/-!
# The writer of scripts and the check have the same types

The rules for the types of a script are written down twice. The check reads the static types off an
expression, without any parameters, and goes through all parts of it. The writer finds the types
while it writes and stops where it finds a text that an operator cannot take. That a script without
findings is written has been shown already (`Script.blocks_succeeds`). Here is the other direction,
so that the check is exact for scripts: what the writer gets through has no findings, however deep
in an expression they would be (`Script.expression_yields`), and the type that it found is the
static type.

This does not hold for the markup, where a name stands for a value and an error in a component shows
only if the component is used.
-/

namespace Pagewright

namespace Script

variable {α β : Type}

/-- **If the writing succeeds**, it is with a value that has the property `Q`. -/
def Yields (m : Writing α) (Q : α → Prop) : Prop :=
  ∀ b a b', (ExceptT.run m).run b = (.ok a, b') → Q a

theorem Yields.pure {a : α} {Q : α → Prop} (h : Q a) : Yields (pure a) Q := by
  intro b a' b' hrun
  cases hrun
  exact h

theorem Yields.throw {e : GenerationError} {Q : α → Prop} : Yields (throw e) Q :=
  fun _ _ _ hrun => nomatch hrun

theorem Yields.bind {m : Writing α} {f : α → Writing β} {Q : α → Prop} {R : β → Prop}
    (hm : Yields m Q) (hf : ∀ a, Q a → Yields (f a) R) : Yields (m >>= f) R := by
  intro b c b'' hrun
  obtain ⟨a, b', hfirst, hsecond⟩ := exists_of_run_bind_ok hrun
  exact hf a (hm b a b' hfirst) b' c b'' hsecond

/-- If a list is written item by item, all of its items have been written. -/
theorem Yields.mapM {f : α → Writing β} {Q : α → Prop} {xs : List α}
    (h : ∀ x ∈ xs, Yields (f x) (fun _ => Q x)) : Yields (xs.mapM f) (fun _ => ∀ x ∈ xs, Q x) := by
  induction xs with
  | nil => exact Yields.pure (List.forall_mem_nil _)
  | cons x xs ih =>
    rw [List.mapM_cons]
    refine (h x List.mem_cons_self).bind (fun b hx => ?_)
    refine (ih (fun y hy => h y (List.mem_cons_of_mem _ hy))).bind (fun bs hxs => ?_)
    exact Yields.pure (List.forall_mem_cons.mpr ⟨hx, hxs⟩)

/-! ## What has been written has no findings -/

/-- Where the check finds an operator on a text, the writer refuses the operation. -/
theorem operationType_eq_error {left right : Expression} {op : Operator} {f : Finding}
    (h : Expression.operatorFinding? [] (.operation left op right) = some f) :
    ∃ e, operationType op (left.staticType []) (right.staticType []) = .error e := by
  cases op with
  | add => cases h
  | subtract | multiply | divide =>
    have hstring := (Option.ite_none_right_eq_some.mp h).1
    exact ⟨_, if_pos hstring⟩

/-- **An expression that is written has no operator on a text**, and the type found for it is its
static type. -/
theorem expression_yields (x : Expression) :
    Yields (expression x) (fun f => x.operatorFindings [] = [] ∧ f.type = x.staticType []) := by
  induction x with
  | text value => exact Yields.pure ⟨rfl, rfl⟩
  | number value => exact Yields.pure ⟨rfl, rfl⟩
  | symbol name => exact Yields.pure ⟨rfl, rfl⟩
  | textbox name =>
    intro b f b' hrun
    cases hrun
    exact ⟨rfl, rfl⟩
  | operation left op right ihl ihr =>
    refine ihl.bind (fun l hl => ihr.bind (fun r hr => ?_))
    rw [hl.2, hr.2]
    cases hself : Expression.operatorFinding? [] (.operation left op right) with
    | some f =>
      -- The operation itself is refused, whatever its operands were written as.
      obtain ⟨e, he⟩ := operationType_eq_error hself
      rw [he]
      exact Yields.throw
    | none =>
      rw [operationType_eq_staticType hself]
      refine Yields.pure ⟨?_, rfl⟩
      rw [operatorFindings_operation, hself, hl.1, hr.1]
      rfl

theorem statement_yields (s : Statement) :
    Yields (statement s) (fun _ => s.value.operatorFindings [] = []) := by
  cases s with
  | alert value => exact (expression_yields value).bind (fun _ h => Yields.pure h.1)
  | const name value => exact (expression_yields value).bind (fun _ h => Yields.pure h.1)

theorem statements_yields (body : List Statement) :
    Yields (statements body) (fun _ => ∀ s ∈ body, s.value.operatorFindings [] = []) :=
  Yields.mapM fun s _ => (statement_yields s).bind (fun _ h => Yields.pure h)

theorem blocks_yields (doc : Document) :
    Yields (blocks doc) (fun _ =>
      (∀ f ∈ doc.functions, ∀ s ∈ f.body, s.value.operatorFindings [] = []) ∧
        ∀ s ∈ doc.statements, s.value.operatorFindings [] = []) := by
  have heach : ∀ f ∈ doc.functions, Yields (do return [← function f])
      (fun _ => ∀ s ∈ f.body, s.value.operatorFindings [] = []) := by
    intro f _
    have hfunction : Yields (function f)
        (fun _ => ∀ s ∈ f.body, s.value.operatorFindings [] = []) :=
      (statements_yields f.body).bind (fun _ h => Yields.pure h)
    exact hfunction.bind (fun _ h => Yields.pure h)
  exact (Yields.mapM heach).bind (fun _ hfunctions =>
    (statements_yields doc.statements).bind (fun _ hstatements =>
      Yields.pure ⟨hfunctions, hstatements⟩))

end Script

/-! ## The findings of a script -/

/-- All that can be found of an operator is that it is applied to a text. -/
theorem Expression.exists_of_mem_operatorFindings {params : List Parameter} {x : Expression}
    {f : Finding} (h : f ∈ x.operatorFindings params) : ∃ op, f = .operatorOnString op := by
  obtain ⟨p, -, hp⟩ := List.mem_filterMap.mp h
  unfold operatorFinding? at hp
  split at hp
  · cases hp
  · cases (Option.ite_none_right_eq_some.mp hp).2
    exact ⟨_, rfl⟩
  · cases hp

/-- Of the findings about a statement, those about operators are the ones found in its expression.
The others are about names. -/
theorem Statement.operatorOnString_mem_findings {textboxes known : List String} {s : Statement}
    {op : Operator} :
    .operatorOnString op ∈ s.findings textboxes known ↔
      .operatorOnString op ∈ s.value.operatorFindings [] := by
  unfold Statement.findings
  refine ⟨fun h => (List.mem_append.mp h).resolve_left (fun hname => ?_),
    fun h => List.mem_append_right _ h⟩
  obtain ⟨p, -, hp⟩ := List.mem_filterMap.mp hname
  unfold Expression.scriptFinding? at hp
  split at hp
  · cases (Option.ite_none_left_eq_some.mp hp).2
  · cases (Option.ite_none_left_eq_some.mp hp).2
  · cases hp

/-- **An operator on a text is reported of a list of statements if it is in one of them**, wherever
the statement stands and whatever is known there. -/
theorem Statement.exists_mem_inOrder {textboxes known : List String} {path : Nat → Path} {i : Nat}
    {body : List Statement} {op : Operator} :
    (∃ d ∈ Statement.inOrder textboxes path i known body, d.finding = .operatorOnString op) ↔
      ∃ s ∈ body, .operatorOnString op ∈ s.value.operatorFindings [] := by
  induction body generalizing i known with
  | nil => simp [Statement.inOrder]
  | cons first rest ih =>
    constructor
    · rintro ⟨d, hd, hfinding⟩
      rcases List.mem_append.mp hd with hd | hd
      · obtain ⟨f, hf, rfl⟩ := List.mem_map.mp hd
        cases hfinding
        exact ⟨first, List.mem_cons_self, Statement.operatorOnString_mem_findings.mp hf⟩
      · obtain ⟨s, hs, hf⟩ := ih.mp ⟨d, hd, hfinding⟩
        exact ⟨s, List.mem_cons_of_mem _ hs, hf⟩
    · rintro ⟨s, hs, hf⟩
      rcases List.mem_cons.mp hs with rfl | hs
      · have hfound : .operatorOnString op ∈ s.findings textboxes known :=
          Statement.operatorOnString_mem_findings.mpr hf
        exact ⟨_, List.mem_append_left _ (List.mem_map.mpr ⟨_, hfound, rfl⟩), rfl⟩
      · obtain ⟨d, hd, hfinding⟩ := ih.mpr ⟨s, hs, hf⟩
        exact ⟨d, List.mem_append_right _ hd, hfinding⟩

namespace Document

variable {doc : Document} {known : Option (List String)}

/-- The statements that the script of a document is written from. -/
def scripted (doc : Document) : List Statement :=
  doc.functions.flatMap (·.body) ++ doc.statements

theorem forall_mem_scripted {Q : Statement → Prop} :
    (∀ s ∈ doc.scripted, Q s) ↔
      (∀ f ∈ doc.functions, ∀ s ∈ f.body, Q s) ∧ ∀ s ∈ doc.statements, Q s := by
  unfold scripted
  rw [List.forall_mem_append, List.forall_mem_flatMap]

/-- An operator on a text is reported of the functions if it is in one of them. -/
theorem exists_mem_functionDiagnostics {op : Operator} :
    (∃ d ∈ doc.functionDiagnostics, d.finding = .operatorOnString op) ↔
      ∃ f ∈ doc.functions, ∃ s ∈ f.body, .operatorOnString op ∈ s.value.operatorFindings [] := by
  constructor
  · rintro ⟨d, hd, hfinding⟩
    obtain ⟨⟨f, i⟩, hi, hd⟩ := List.mem_flatMap.mp hd
    exact ⟨f, List.fst_mem_of_mem_zipIdx hi, Statement.exists_mem_inOrder.mp ⟨d, hd, hfinding⟩⟩
  · rintro ⟨f, hf, hs⟩
    obtain ⟨i, hi⟩ := exists_mem_zipIdx_of_mem hf
    obtain ⟨d, hd, hfinding⟩ := Statement.exists_mem_inOrder.mpr hs
    exact ⟨d, List.mem_flatMap.mpr ⟨(f, i), hi, hd⟩, hfinding⟩

/-- That two functions have one name says nothing of an operator. -/
theorem not_operatorOnString_of_mem_duplicateFunctions {d : Diagnostic}
    (h : d ∈ doc.duplicateFunctions) (op : Operator) : d.finding ≠ .operatorOnString op := by
  obtain ⟨⟨f, i⟩, -, h⟩ := List.mem_flatMap.mp h
  dsimp only at h
  split at h
  · cases List.mem_singleton.mp h
    exact nofun
  · cases h

/-- **The report has an operator on a text in the script exactly if a statement has one.** -/
theorem exists_reported_iff :
    (∃ d ∈ doc.diagnostics known,
        (d.path.part? = some .functions ∨ d.path.part? = some .statements) ∧
          ∃ op, d.finding = .operatorOnString op) ↔
      ∃ s ∈ doc.scripted, ∃ op, .operatorOnString op ∈ s.value.operatorFindings [] := by
  constructor
  · rintro ⟨d, hd, hpart | hpart, op, hfinding⟩
    · rcases List.mem_append.mp (mem_diagnosticsOf hd hpart) with hd | hd
      · exact absurd hfinding (not_operatorOnString_of_mem_duplicateFunctions hd op)
      · obtain ⟨f, hf, s, hs, hop⟩ := exists_mem_functionDiagnostics.mp ⟨d, hd, hfinding⟩
        exact ⟨s, List.mem_append_left _ (List.mem_flatMap.mpr ⟨f, hf, hs⟩), op, hop⟩
    · have hd : d ∈ doc.statementDiagnostics := mem_diagnosticsOf hd hpart
      obtain ⟨s, hs, hop⟩ := Statement.exists_mem_inOrder.mp ⟨d, hd, hfinding⟩
      exact ⟨s, List.mem_append_right _ hs, op, hop⟩
  · rintro ⟨s, hs, op, hop⟩
    have hreport : ∀ part, (∃ d ∈ doc.diagnosticsOf known part, d.finding = .operatorOnString op) →
        ∃ d ∈ doc.diagnostics known, d.path.part? = some part ∧ d.finding = .operatorOnString op :=
      fun part ⟨d, hd, hfinding⟩ => ⟨d, mem_diagnostics_iff.mpr ⟨part, hd⟩,
        allWithin_diagnosticsOf doc known part d hd, hfinding⟩
    rcases List.mem_append.mp hs with hs | hs
    · obtain ⟨f, hf, hs⟩ := List.mem_flatMap.mp hs
      obtain ⟨d, hd, hfinding⟩ := exists_mem_functionDiagnostics.mpr ⟨f, hf, s, hs, hop⟩
      obtain ⟨d, hd, hpart, hfinding⟩ :=
        hreport .functions ⟨d, List.mem_append_right _ hd, hfinding⟩
      exact ⟨d, hd, .inl hpart, op, hfinding⟩
    · obtain ⟨d, hd, hpart, hfinding⟩ :=
        hreport .statements (Statement.exists_mem_inOrder.mpr ⟨s, hs, hop⟩)
      exact ⟨d, hd, .inr hpart, op, hfinding⟩

/-! ## The check of a script is exact -/

/-- **A script is written exactly if no statement has an operator on a text.** -/
theorem script_eq_ok_iff :
    (∃ text, doc.script = .ok text) ↔ ∀ s ∈ doc.scripted, s.value.operatorFindings [] = [] := by
  rw [forall_mem_scripted]
  unfold script
  constructor
  · rintro ⟨text, htext⟩
    cases hrun : (ExceptT.run (Script.blocks doc)).run false with
    | mk result readsTextbox =>
      rw [hrun] at htext
      cases result with
      | error e => cases htext
      | ok blocks => exact Script.blocks_yields doc false blocks readsTextbox hrun
  · rintro ⟨hfunctions, hstatements⟩
    obtain ⟨blocks, readsTextbox, hrun, -⟩ := Script.blocks_succeeds hfunctions hstatements false
    rw [hrun]
    exact ⟨_, rfl⟩

/-- **The check of a script is exact, and it has the types of the writer.** The script of a document
cannot be written if and only if the report has an operator that is applied to a text, in a function
or in a statement outside all functions. And the type that the writer finds for an expression is the
static type of the expression, whenever it gets through. -/
theorem script_error_iff_reported (doc : Document) (known : Option (List String)) :
    ((∃ e, doc.script = .error e) ↔
        ∃ d ∈ doc.diagnostics known,
          (d.path.part? = some .functions ∨ d.path.part? = some .statements) ∧
            ∃ op, d.finding = .operatorOnString op) ∧
      ∀ x readsTextbox fragment readsTextbox',
        (ExceptT.run (Script.expression x)).run readsTextbox = (.ok fragment, readsTextbox') →
          fragment.type = x.staticType [] := by
  refine ⟨?_, fun x b fragment b' hrun => (Script.expression_yields x b fragment b' hrun).2⟩
  rw [exists_reported_iff]
  constructor
  · rintro ⟨e, he⟩
    have hfound : ¬ ∀ s ∈ doc.scripted, s.value.operatorFindings [] = [] := by
      intro hnone
      obtain ⟨text, htext⟩ := script_eq_ok_iff.mpr hnone
      cases he.symm.trans htext
    simp only [Classical.not_forall] at hfound
    obtain ⟨s, hs, hne⟩ := hfound
    obtain ⟨f, hf⟩ := List.exists_mem_of_ne_nil _ hne
    obtain ⟨op, rfl⟩ := Expression.exists_of_mem_operatorFindings hf
    exact ⟨s, hs, op, hf⟩
  · rintro ⟨s, hs, op, hop⟩
    cases hscript : doc.script with
    | error e => exact ⟨e, rfl⟩
    | ok text =>
      rw [script_eq_ok_iff.mp ⟨text, hscript⟩ s hs] at hop
      cases hop

/-- A function in which a text is multiplied, inside a sum that is a text anyway, and a statement
with nothing wrong about it. -/
def shout : Document where
  head := []
  components := []
  body := []
  functions :=
    [⟨"shout", ["times"],
      [.alert (.operation (.operation (.text "ha") .multiply (.symbol "times")) .add (.text "!"))]⟩]
  statements := [.alert (.operation (.textbox "name") .add (.text "?"))]
  styles := []

/-- The product is reported and the script is not written, and the sum of a textbox and a text is
written as a text. -/
theorem script_error_iff_reported_shout :
    ⟨[.function 0, .body 0], .operatorOnString .multiply⟩ ∈ shout.diagnostics none ∧
      (∃ e, shout.script = .error e) ∧
      ∃ fragment, (ExceptT.run (Script.expression (.operation (.textbox "name") .add
          (.text "?")))).run false = (.ok fragment, true) ∧ fragment.type = some .string := by
  have hreported : ⟨[.function 0, .body 0], .operatorOnString .multiply⟩
      ∈ shout.diagnostics none := by decide
  have hshout := script_error_iff_reported shout none
  refine ⟨hreported, hshout.1.mpr ⟨_, hreported, .inl rfl, .multiply, rfl⟩, _, rfl, ?_⟩
  exact hshout.2 (.operation (.textbox "name") .add (.text "?")) false _ true rfl

end Document

end Pagewright
