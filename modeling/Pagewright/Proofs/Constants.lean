import Pagewright.Proofs.Evaluation
import Pagewright.Script.Fragment

/-!
# Constants are the same in the markup and in the script

An expression has two lives. In the markup it is folded to a value, and the operators look at the
values of their operands. In the script it is written out, and all that is known of an operand is
the type that was found for its code. If the expression has no names and no textboxes, both know the
types of all operands, and so both come to the same end.

What this end is can be said without either of them. There is a table of what each operator makes of
two types (`Operator.type?`), and an expression has a type by this table (`Expression.HasType`) or
else there is a first operation that the table has nothing for (`Expression.Faults`). First is
meant in the order of evaluation: operands come before their operation, and the left one before the
right one. So the fault of an operand hides that of the operation around it.
-/

namespace Pagewright

open Evaluation

/-! ## The table of operators -/

/-- **What an operator makes of two types.** Numbers are computed with, and a plus sign with a text
on either side joins texts. There is nothing else. -/
def Operator.type? : Operator → ValueType → ValueType → Option ValueType
  | _, .number, .number => some .number
  | .add, _, _ => some .string
  | _, _, _ => none

namespace Operator

variable {op : Operator}

/-- Values of types that the table has an entry for give a value of the type it says. -/
theorem exists_apply_eq_ok {l r : Value} {t : ValueType} (h : op.type? l.type r.type = some t) :
    ∃ v, op.apply l r = .ok v ∧ v.type = t := by
  cases op <;> cases l <;> cases r <;> cases h <;> exact ⟨_, rfl, rfl⟩

/-- Values of types that the table has no entry for are refused, with their types in the error. -/
theorem apply_eq_invalidOperation {l r : Value} (h : op.type? l.type r.type = none) :
    op.apply l r = .error (.invalidOperation op (some l.type) (some r.type)) := by
  cases op <;> cases l <;> cases r <;> cases h <;> rfl

/-- The writer of scripts goes by the same table if it knows both types. -/
theorem operationType_eq_ok {l r t : ValueType} (h : op.type? l r = some t) :
    Script.operationType op (some l) (some r) = .ok (some t) := by
  cases op <;> cases l <;> cases r <;> cases h <;> rfl

theorem operationType_eq_invalidOperation {l r : ValueType} (h : op.type? l r = none) :
    Script.operationType op (some l) (some r)
      = .error (.invalidOperation op (some l) (some r)) := by
  cases op <;> cases l <;> cases r <;> cases h <;> rfl

end Operator

namespace Expression

/-! ## Types and faults -/

/-- The expression has no names and no textboxes. -/
def isConstant : Expression → Bool
  | text _ | number _ => true
  | symbol _ | textbox _ => false
  | operation left _ right => left.isConstant && right.isConstant

/-- **The expression has a type** by the table. -/
inductive HasType : Expression → ValueType → Prop where
  | text (value : String) : HasType (.text value) .string
  | number (value : Float) : HasType (.number value) .number
  | operation {left right : Expression} {op : Operator} {l r t : ValueType}
      (hleft : HasType left l) (hright : HasType right r) (ht : op.type? l r = some t) :
      HasType (.operation left op right) t

/-- **The first operation that the table has nothing for**, by its operator and the types of its
operands. -/
inductive Faults : Expression → Operator → ValueType → ValueType → Prop where
  | left {left right : Expression} {op op' : Operator} {l r : ValueType}
      (h : Faults left op l r) : Faults (.operation left op' right) op l r
  | right {left right : Expression} {op op' : Operator} {l r t : ValueType}
      (hleft : HasType left t) (h : Faults right op l r) : Faults (.operation left op' right) op l r
  | here {left right : Expression} {op : Operator} {l r : ValueType} (hleft : HasType left l)
      (hright : HasType right r) (hnone : op.type? l r = none) :
      Faults (.operation left op right) op l r

variable {e left right : Expression} {op : Operator} {l r t : ValueType}

/-- **A constant has a type or a first fault.** -/
theorem hasType_or_faults (h : e.isConstant = true) :
    (∃ t, e.HasType t) ∨ ∃ op l r, e.Faults op l r := by
  induction e with
  | text value => exact .inl ⟨_, .text value⟩
  | number value => exact .inl ⟨_, .number value⟩
  | symbol name => cases h
  | textbox name => cases h
  | operation left op right ihl ihr =>
    obtain ⟨hl, hr⟩ := Bool.and_eq_true_iff.mp h
    rcases ihl hl with ⟨l, hleft⟩ | ⟨op', l, r, hleft⟩
    · rcases ihr hr with ⟨r, hright⟩ | ⟨op', l, r, hright⟩
      · cases ht : op.type? l r with
        | some t => exact .inl ⟨t, .operation hleft hright ht⟩
        | none => exact .inr ⟨op, l, r, .here hleft hright ht⟩
      · exact .inr ⟨op', l, r, .right hleft hright⟩
    · exact .inr ⟨op', l, r, .left hleft⟩

/-! ## In the markup -/

/-- **An expression with a type is folded to a value of the type.** -/
theorem HasType.exists_result (h : e.HasType t) (stack : Stack) :
    ∃ v, (e.evaluate stack).result = .ok v ∧ v.type = t := by
  induction h with
  | text value => exact ⟨_, rfl, rfl⟩
  | number value => exact ⟨_, rfl, rfl⟩
  | operation _ _ ht ihl ihr =>
    obtain ⟨l, hl, rfl⟩ := ihl
    obtain ⟨r, hr, rfl⟩ := ihr
    obtain ⟨v, hv, hvt⟩ := Operator.exists_apply_eq_ok ht
    refine ⟨v, ?_, hvt⟩
    rw [result_operation, hl, hr]
    exact hv

/-- **Folding fails at the first fault.** -/
theorem Faults.result_eq (h : e.Faults op l r) (stack : Stack) :
    (e.evaluate stack).result = .error (.invalidOperation op (some l) (some r)) := by
  induction h with
  | left _ ih =>
    rw [result_operation, ih]
    rfl
  | right hleft _ ih =>
    obtain ⟨l, hl, -⟩ := hleft.exists_result stack
    rw [result_operation, hl, ih]
    rfl
  | here hleft hright hnone =>
    obtain ⟨l, hl, rfl⟩ := hleft.exists_result stack
    obtain ⟨r, hr, rfl⟩ := hright.exists_result stack
    rw [result_operation, hl, hr]
    exact Operator.apply_eq_invalidOperation hnone

/-- A constant gives no warnings, whether or not it fails. -/
theorem warnings_of_isConstant (h : e.isConstant = true) (stack : Stack) :
    (e.evaluate stack).warnings = [] := by
  induction e with
  | text value => rfl
  | number value => rfl
  | symbol name => cases h
  | textbox name => cases h
  | operation left op right ihl ihr =>
    obtain ⟨hl, hr⟩ := Bool.and_eq_true_iff.mp h
    rw [warnings_operation, ihl hl, ihr hr]
    cases (left.evaluate stack).result <;> rfl

/-! ## In the script -/

/-- **An expression with a type is written**, the type is found, and no textbox is read. -/
theorem HasType.exists_fragment (h : e.HasType t) (b : Bool) :
    ∃ f, (ExceptT.run (Script.expression e)).run b = (.ok f, b) ∧ f.type = some t := by
  induction h with
  | text value => exact ⟨_, rfl, rfl⟩
  | number value => exact ⟨_, rfl, rfl⟩
  | @operation left right op l r t _ _ ht ihl ihr =>
    obtain ⟨f, hf, hft⟩ := ihl
    obtain ⟨g, hg, hgt⟩ := ihr
    refine ⟨⟨s!"{f.operand} {op.symbol} {g.operand}", some t, true⟩, ?_, rfl⟩
    rw [Script.expression, run_bind_ok hf, run_bind_ok hg, hft, hgt,
      Operator.operationType_eq_ok ht]
    rfl

/-- **Writing fails at the first fault.** -/
theorem Faults.run_expression_eq (h : e.Faults op l r) (b : Bool) :
    (ExceptT.run (Script.expression e)).run b
      = (.error (.invalidOperation op (some l) (some r)), b) := by
  induction h with
  | left _ ih =>
    rw [Script.expression]
    exact run_bind_error ih
  | right hleft _ ih =>
    obtain ⟨f, hf, -⟩ := hleft.exists_fragment b
    rw [Script.expression, run_bind_ok hf]
    exact run_bind_error ih
  | here hleft hright hnone =>
    obtain ⟨f, hf, hft⟩ := hleft.exists_fragment b
    obtain ⟨g, hg, hgt⟩ := hright.exists_fragment b
    rw [Script.expression, run_bind_ok hf, run_bind_ok hg, hft, hgt,
      Operator.operationType_eq_invalidOperation hnone]
    rfl

/-! ## Both -/

/-- **Constants come to the same end in the markup and in the script**, in every scope. If a
constant has a type, it is folded to a value of this type and the same type is found for its code.
If not, both fail at the first fault with the same error, which has the operator and the types of
its operands. In either case there are no warnings, and no textbox is read. -/
theorem constant_agrees (e : Expression) (h : e.isConstant = true) (stack : Stack)
    (ws : List Warning) (b : Bool) :
    (∃ t v f, e.HasType t ∧ (ExceptT.run (e.evaluate stack)).run ws = (.ok v, ws) ∧
        (ExceptT.run (Script.expression e)).run b = (.ok f, b) ∧ v.type = t ∧ f.type = some t) ∨
      ∃ op l r, e.Faults op l r ∧
        (ExceptT.run (e.evaluate stack)).run ws
          = (.error (.invalidOperation op (some l) (some r)), ws) ∧
        (ExceptT.run (Script.expression e)).run b
          = (.error (.invalidOperation op (some l) (some r)), b) := by
  rw [appends_evaluate stack e ws, warnings_of_isConstant h stack, List.append_nil]
  rcases hasType_or_faults h with ⟨t, ht⟩ | ⟨op, l, r, hfault⟩
  · obtain ⟨v, hv, hvt⟩ := ht.exists_result stack
    obtain ⟨f, hf, hft⟩ := ht.exists_fragment b
    exact .inl ⟨t, v, f, ht, by rw [hv], hf, hvt, hft⟩
  · exact .inr ⟨op, l, r, hfault, by rw [hfault.result_eq stack], hfault.run_expression_eq b⟩

/-- A number and a text, which are joined. -/
def tenths : Expression :=
  .operation (.number 1) .add (.text "0")

/-- The text is divided, and the quotient multiplied with a difference that is a fault too. -/
def twoFaults : Expression :=
  .operation (.operation tenths .divide (.number 2)) .multiply
    (.operation (.number 3) .subtract (.text "4"))

/-- What is joined is a text in the markup and in the script. The division of it comes before the
difference, and both lives of the larger expression end there. -/
theorem constant_agrees_twoFaults :
    (∃ v f, (ExceptT.run (tenths.evaluate .empty)).run [] = (.ok v, []) ∧
        (ExceptT.run (Script.expression tenths)).run false = (.ok f, false) ∧
        v.type = .string ∧ f.type = some .string) ∧
      twoFaults.isConstant = true ∧
      (ExceptT.run (twoFaults.evaluate .empty)).run []
        = (.error (.invalidOperation .divide (some .string) (some .number)), []) ∧
      (ExceptT.run (Script.expression twoFaults)).run false
        = (.error (.invalidOperation .divide (some .string) (some .number)), false) := by
  have hconstant : twoFaults.isConstant = true := by decide
  constructor
  · rcases constant_agrees tenths (by decide) .empty [] false with
      ⟨t, v, f, ht, hevaluate, hwrite, hv, hf⟩ | ⟨op, l, r, -, hevaluate, -⟩
    · have hstring : (ExceptT.run (Script.expression tenths)).run false
          = (.ok ⟨_, some .string, true⟩, false) := rfl
      cases hstring.symm.trans hwrite
      cases hf
      exact ⟨v, _, hevaluate, hwrite, hv, rfl⟩
    · cases hevaluate
  · rcases constant_agrees twoFaults hconstant .empty [] false with
      ⟨t, v, f, -, hevaluate, -⟩ | ⟨op, l, r, -, hevaluate, hwrite⟩
    · cases hevaluate
    · have hdivide : (ExceptT.run (twoFaults.evaluate .empty)).run []
          = (.error (.invalidOperation .divide (some .string) (some .number)), []) := rfl
      cases hdivide.symm.trans hevaluate
      exact ⟨hconstant, hevaluate, hwrite⟩

end Expression

end Pagewright
