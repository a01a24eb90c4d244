import Pagewright.Proofs.Sequencing
import Pagewright.Proofs.Validation
import Pagewright.Script.Program

/-!
# A checked script can be written

Writing a script fails for one reason only: an operator other than the plus sign is applied to an
operand that is known to be a text. The check looks for the same thing, but on another way. It goes
through all parts of an expression and asks each operation for the static types of its operands,
while the writer finds the types on its way up and stops at the first refusal.

The two agree because the type the writer finds is the static type, read without any parameters
(`Script.expression_succeeds`). So a script without such a finding is written to its end.
-/

namespace Pagewright

namespace Script

variable {α β : Type}

/-- **The writing succeeds** with a value that has the property `Q`, whether or not a textbox has
been read before. -/
def Succeeds (m : Writing α) (Q : α → Prop) : Prop :=
  ∀ b, ∃ a b', (ExceptT.run m).run b = (.ok a, b') ∧ Q a

theorem Succeeds.pure {a : α} {Q : α → Prop} (h : Q a) : Succeeds (pure a) Q :=
  fun b => ⟨a, b, rfl, h⟩

theorem Succeeds.bind {m : Writing α} {f : α → Writing β} {Q : α → Prop} {R : β → Prop}
    (hm : Succeeds m Q) (hf : ∀ a, Q a → Succeeds (f a) R) : Succeeds (m >>= f) R := by
  intro b
  obtain ⟨a, b', ha, hQ⟩ := hm b
  obtain ⟨c, b'', hc, hR⟩ := hf a hQ b'
  exact ⟨c, b'', (run_bind_ok ha).trans hc, hR⟩

theorem Succeeds.mapM {f : α → Writing β} {xs : List α}
    (h : ∀ x ∈ xs, Succeeds (f x) (fun _ => True)) : Succeeds (xs.mapM f) (fun _ => True) := by
  induction xs with
  | nil => exact Succeeds.pure trivial
  | cons x xs ih =>
    rw [List.mapM_cons]
    refine (h x List.mem_cons_self).bind (fun b _ => ?_)
    refine (ih (fun y hy => h y (List.mem_cons_of_mem _ hy))).bind (fun bs _ => ?_)
    exact Succeeds.pure trivial

/-! ## Expressions -/

/-- The operators on texts in an operation are those in its operands, and perhaps its own. -/
theorem operatorFindings_operation (params : List Parameter) (left right : Expression)
    (op : Operator) :
    (Expression.operation left op right).operatorFindings params
      = (Expression.operatorFinding? params (.operation left op right)).toList ++
        (left.operatorFindings params ++ right.operatorFindings params) := by
  unfold Expression.operatorFindings
  rw [Expression.parts, List.filterMap_cons, List.filterMap_append]
  cases Expression.operatorFinding? params (.operation left op right) <;> rfl

/-- **Writer and check judge an operation alike**: where the check finds nothing, the writer finds
the static type. -/
theorem operationType_eq_staticType {left right : Expression} {op : Operator}
    (h : Expression.operatorFinding? [] (.operation left op right) = none) :
    operationType op (left.staticType []) (right.staticType [])
      = .ok ((Expression.operation left op right).staticType []) := by
  have hrefused : op ≠ .add →
      ¬ (left.staticType [] = some .string ∨ right.staticType [] = some .string) := by
    intro hop hstring
    cases op <;>
      first | exact absurd rfl hop | simp [Expression.operatorFinding?, hstring] at h
  cases op with
  | add => rfl
  | subtract => exact if_neg (hrefused (fun h => nomatch h))
  | multiply => exact if_neg (hrefused (fun h => nomatch h))
  | divide => exact if_neg (hrefused (fun h => nomatch h))

/-- **An expression without an operator on a text is written**, and the type found for it is its
static type. -/
theorem expression_succeeds {e : Expression} (h : e.operatorFindings [] = []) :
    Succeeds (expression e) (fun f => f.type = e.staticType []) := by
  induction e with
  | text value => exact Succeeds.pure rfl
  | number value => exact Succeeds.pure rfl
  | symbol name => exact Succeeds.pure rfl
  | textbox name => exact fun b => ⟨_, true, rfl, rfl⟩
  | operation left op right ihl ihr =>
    rw [operatorFindings_operation, List.append_eq_nil_iff, List.append_eq_nil_iff,
      Option.toList_eq_nil_iff] at h
    obtain ⟨hself, hleft, hright⟩ := h
    refine (ihl hleft).bind (fun l hl => (ihr hright).bind (fun r hr => ?_))
    rw [hl, hr, operationType_eq_staticType hself]
    exact Succeeds.pure rfl

/-! ## Statements and functions -/

theorem statement_succeeds {s : Statement} (h : s.value.operatorFindings [] = []) :
    Succeeds (statement s) (fun _ => True) := by
  cases s with
  | alert value => exact (expression_succeeds h).bind (fun _ _ => Succeeds.pure trivial)
  | const name value => exact (expression_succeeds h).bind (fun _ _ => Succeeds.pure trivial)

theorem statements_succeeds {body : List Statement}
    (h : ∀ s ∈ body, s.value.operatorFindings [] = []) :
    Succeeds (statements body) (fun _ => True) :=
  Succeeds.mapM fun s hs => (statement_succeeds (h s hs)).bind (fun _ _ => Succeeds.pure trivial)

theorem function_succeeds {f : Function} (h : ∀ s ∈ f.body, s.value.operatorFindings [] = []) :
    Succeeds (function f) (fun _ => True) :=
  (statements_succeeds h).bind (fun _ _ => Succeeds.pure trivial)

theorem blocks_succeeds {doc : Document}
    (hfunctions : ∀ f ∈ doc.functions, ∀ s ∈ f.body, s.value.operatorFindings [] = [])
    (hstatements : ∀ s ∈ doc.statements, s.value.operatorFindings [] = []) :
    Succeeds (blocks doc) (fun _ => True) := by
  have heach : ∀ f ∈ doc.functions, Succeeds (do return [← function f]) (fun _ => True) :=
    fun f hf => (function_succeeds (hfunctions f hf)).bind (fun _ _ => Succeeds.pure trivial)
  exact (Succeeds.mapM heach).bind (fun _ _ =>
    (statements_succeeds hstatements).bind (fun _ _ => Succeeds.pure trivial))

end Script

/-! ## The script of a checked document -/

/-- Every statement of a list is looked at, with the constants defined before it. -/
theorem Statement.operatorFindings_of_inOrder {loose : String → Prop} {textboxes : List String}
    {path : Nat → Path} {body : List Statement} {i : Nat} {known : List String}
    (h : AllAdmitted loose (Statement.inOrder textboxes path i known body)) {s : Statement}
    (hs : s ∈ body) : s.value.operatorFindings [] = [] := by
  induction body generalizing i known with
  | nil => cases hs
  | cons first rest ih =>
    obtain ⟨hfirst, hrest⟩ := allAdmitted_append.mp h
    rcases List.mem_cons.mp hs with rfl | hs
    · exact Expression.operatorFindings_eq_nil
        (fun f hf => allAdmitted_found.mp hfirst f (List.mem_append_right _ hf))
    · exact ih hrest hs

namespace Document

/-- **The script of a checked document is written to its end.** -/
theorem Checked.script_eq_ok {doc : Document} {known : Option (List String)}
    {loose : String → Prop} (h : doc.Checked known loose) : ∃ text, doc.script = .ok text := by
  obtain ⟨hstatements, hfunctions⟩ := allAdmitted_append.mp h.parts.2.2.2.1
  have hblocks : Script.Succeeds (Script.blocks doc) (fun _ => True) := by
    refine Script.blocks_succeeds (fun f hf s hs => ?_) (fun s hs => ?_)
    · obtain ⟨i, hi⟩ := allAdmitted_zipIdx hfunctions hf
      exact Statement.operatorFindings_of_inOrder hi hs
    · exact Statement.operatorFindings_of_inOrder hstatements hs
  obtain ⟨blocks, readsTextbox, hrun, -⟩ := hblocks false
  unfold script
  rw [hrun]
  exact ⟨_, rfl⟩

end Document

end Pagewright
