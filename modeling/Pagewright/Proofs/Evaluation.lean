import Pagewright.Evaluation
import Pagewright.Proofs.Sequencing

/-!
# Results and warnings of an evaluation

An evaluation has two outcomes side by side: a value or an error, and the warnings it gave on the
way. Neither depends on the warnings that were there before, since an evaluation only ever adds to
them at the end (`Evaluation.Appends`). So an evaluation is described in full by its `result` and
its `warnings`, and both are computed part by part: the result of an operation comes from the
results of its operands, and the warnings of the right operand follow those of the left one unless
the left one failed.

The equations below say this for expressions and for the arguments of a component. They are all
that the rest of the theory uses of an evaluation.
-/

namespace Pagewright

namespace Evaluation

variable {α β : Type}

/-- The value of an evaluation, or its error. -/
def result (m : Evaluation α) : Except GenerationError α :=
  ((ExceptT.run m).run []).1

/-- The warnings an evaluation gives, whether or not it fails. -/
def warnings (m : Evaluation α) : List Warning :=
  ((ExceptT.run m).run []).2

/-- **Warnings only accumulate**: the evaluation has the same result whatever warnings it starts
from, and adds the same warnings behind them. -/
def Appends (m : Evaluation α) : Prop :=
  ∀ ws, (ExceptT.run m).run ws = (m.result, ws ++ m.warnings)

/-! ## Values, errors, warnings and sequences -/

@[simp] theorem result_pure (a : α) : (pure a : Evaluation α).result = .ok a := rfl

@[simp] theorem warnings_pure (a : α) : (pure a : Evaluation α).warnings = [] := rfl

@[simp] theorem result_throw (e : GenerationError) :
    (throw e : Evaluation α).result = .error e := rfl

@[simp] theorem warnings_throw (e : GenerationError) :
    (throw e : Evaluation α).warnings = [] := rfl

theorem appends_pure (a : α) : (pure a : Evaluation α).Appends :=
  fun ws => congrArg (Prod.mk _) (List.append_nil ws).symm

theorem appends_throw (e : GenerationError) : (throw e : Evaluation α).Appends :=
  fun ws => congrArg (Prod.mk _) (List.append_nil ws).symm

theorem appends_warn (w : Warning) : (warn w).Appends := fun _ => rfl

/-- A sequence, run from given warnings: the second part starts from the warnings the first part
leaves. -/
theorem run_bind (m : Evaluation α) (f : α → Evaluation β) (ws : List Warning) :
    (ExceptT.run (m >>= f)).run ws
      = match (ExceptT.run m).run ws with
        | (.ok a, ws') => (ExceptT.run (f a)).run ws'
        | (.error e, ws') => (.error e, ws') := by
  rcases h : (ExceptT.run m).run ws with ⟨e | a, ws'⟩
  · exact run_bind_error h
  · exact run_bind_ok h

/-- The result of a sequence. -/
theorem result_bind (m : Evaluation α) {f : α → Evaluation β} (hf : ∀ a, (f a).Appends) :
    (m >>= f).result = m.result.bind fun a => (f a).result := by
  unfold result
  rw [run_bind]
  rcases (ExceptT.run m).run [] with ⟨_ | a, ws⟩
  · rfl
  · show ((ExceptT.run (f a)).run ws).1 = _
    rw [hf a ws]
    rfl

/-- The warnings of a sequence. -/
theorem warnings_bind (m : Evaluation α) {f : α → Evaluation β} (hf : ∀ a, (f a).Appends) :
    (m >>= f).warnings
      = m.warnings ++ match m.result with
        | .ok a => (f a).warnings
        | .error _ => [] := by
  unfold result warnings
  rw [run_bind]
  rcases (ExceptT.run m).run [] with ⟨_ | a, ws⟩
  · exact (List.append_nil ws).symm
  · show ((ExceptT.run (f a)).run ws).2 = _
    rw [hf a ws]
    rfl

theorem Appends.bind {m : Evaluation α} {f : α → Evaluation β} (hm : m.Appends)
    (hf : ∀ a, (f a).Appends) : (m >>= f).Appends := by
  intro ws
  rw [run_bind, result_bind m hf, warnings_bind m hf, hm ws]
  cases h : m.result with
  | error e => simp only [Except.bind, List.append_nil]
  | ok a =>
    show (ExceptT.run (f a)).run (ws ++ m.warnings) = _
    rw [hf a, List.append_assoc]
    rfl

end Evaluation

/-! ## Expressions -/

namespace Expression

open Evaluation

/-- What an operation does with the values of its operands. -/
def applied (op : Operator) (l r : Value) : Evaluation Value :=
  match op.apply l r with
  | .ok value => return value
  | .error e => throw e

theorem evaluate_operation (stack : Stack) (left right : Expression) (op : Operator) :
    (operation left op right).evaluate stack
      = left.evaluate stack >>= fun l => right.evaluate stack >>= fun r => applied op l r :=
  rfl

theorem appends_applied (op : Operator) (l r : Value) : (applied op l r).Appends := by
  unfold applied
  cases op.apply l r with
  | ok v => exact appends_pure v
  | error e => exact appends_throw e

theorem result_applied (op : Operator) (l r : Value) :
    (applied op l r).result = op.apply l r := by
  unfold applied
  cases op.apply l r <;> rfl

theorem warnings_applied (op : Operator) (l r : Value) : (applied op l r).warnings = [] := by
  unfold applied
  cases op.apply l r <;> rfl

/-- Evaluating an expression adds its warnings behind those that are there. -/
theorem appends_evaluate (stack : Stack) (e : Expression) : (e.evaluate stack).Appends := by
  induction e with
  | text value => exact appends_pure _
  | number value => exact appends_pure _
  | textbox name => exact appends_throw _
  | symbol name =>
    unfold evaluate
    split
    · exact appends_pure _
    · exact (appends_warn _).bind (fun _ => appends_pure _)
  | operation left op right ihl ihr =>
    rw [evaluate_operation]
    exact ihl.bind (fun l => ihr.bind (fun r => appends_applied op l r))

@[simp] theorem result_text (stack : Stack) (value : String) :
    ((text value).evaluate stack).result = .ok (.text value) := rfl

@[simp] theorem result_number (stack : Stack) (value : Float) :
    ((number value).evaluate stack).result = .ok (.number value) := rfl

@[simp] theorem result_textbox (stack : Stack) (name : String) :
    ((textbox name).evaluate stack).result = .error .textboxInMarkup := rfl

/-- A name without a value stands for the empty text. -/
@[simp] theorem result_symbol (stack : Stack) (name : String) :
    ((symbol name).evaluate stack).result = .ok ((stack.lookup? name).getD (.text "")) := by
  unfold evaluate
  cases stack.lookup? name <;> rfl

@[simp] theorem warnings_text (stack : Stack) (value : String) :
    ((text value).evaluate stack).warnings = [] := rfl

@[simp] theorem warnings_number (stack : Stack) (value : Float) :
    ((number value).evaluate stack).warnings = [] := rfl

@[simp] theorem warnings_textbox (stack : Stack) (name : String) :
    ((textbox name).evaluate stack).warnings = [] := rfl

/-- A name is worth a warning exactly if it has no value. -/
@[simp] theorem warnings_symbol (stack : Stack) (name : String) :
    ((symbol name).evaluate stack).warnings
      = if (stack.lookup? name).isSome then [] else [.unresolved name] := by
  unfold evaluate
  cases stack.lookup? name <;> rfl

/-- **The result of an operation** is that of the operator on the results of its operands, and the
left operand fails first. -/
theorem result_operation (stack : Stack) (left right : Expression) (op : Operator) :
    ((operation left op right).evaluate stack).result
      = (left.evaluate stack).result.bind fun l =>
          (right.evaluate stack).result.bind fun r => op.apply l r := by
  rw [evaluate_operation,
    result_bind _ (fun l => (appends_evaluate stack right).bind (appends_applied op l))]
  refine congrArg _ (funext (fun l => ?_))
  rw [result_bind _ (appends_applied op l)]
  exact congrArg _ (funext (result_applied op l))

/-- The warnings of an operation are those of its operands. -/
theorem warnings_operation (stack : Stack) (left right : Expression) (op : Operator) :
    ((operation left op right).evaluate stack).warnings
      = (left.evaluate stack).warnings ++ match (left.evaluate stack).result with
        | .ok _ => (right.evaluate stack).warnings
        | .error _ => [] := by
  rw [evaluate_operation,
    warnings_bind _ (fun l => (appends_evaluate stack right).bind (appends_applied op l))]
  refine congrArg _ ?_
  cases (left.evaluate stack).result with
  | error e => rfl
  | ok l =>
    show (right.evaluate stack >>= _).warnings = _
    rw [warnings_bind _ (appends_applied op l)]
    cases (right.evaluate stack).result with
    | error e => exact List.append_nil _
    | ok r =>
      show _ ++ (applied op l r).warnings = _
      rw [warnings_applied, List.append_nil]

end Expression

/-! ## Arguments -/

section Arguments

open Evaluation

variable (component : String) (stack : Stack)

/-- What is left to do once an argument has been evaluated. -/
theorem appends_bindRest {params : List Parameter} {args : List Expression} (param : Parameter)
    (h : (bindEach component stack params args).Appends) (value : Value) :
    (if value.type = param.type then do
        let rest ← bindEach component stack params args
        return ⟨param.name, param.type, value⟩ :: rest
      else throw (.argumentType component param.name param.type value.type)
      : Evaluation Frame).Appends := by
  split
  · exact h.bind (fun _ => appends_pure _)
  · exact appends_throw _

/-- Binding arguments adds its warnings behind those that are there. -/
theorem appends_bindEach (params : List Parameter) (args : List Expression) :
    (bindEach component stack params args).Appends := by
  induction params generalizing args with
  | nil => exact appends_pure _
  | cons param params ih =>
    cases args with
    | nil => exact appends_pure _
    | cons arg args =>
      unfold bindEach
      exact (Expression.appends_evaluate stack arg).bind
        (appends_bindRest component stack param (ih args))

/-- **The result of binding arguments**, one at a time: the argument must have a value, the value
must be of the type of the parameter, and the others must fit. -/
theorem result_bindEach_cons (param : Parameter) (params : List Parameter) (arg : Expression)
    (args : List Expression) :
    (bindEach component stack (param :: params) (arg :: args)).result
      = (arg.evaluate stack).result.bind fun value =>
          if value.type = param.type then
            (bindEach component stack params args).result.map
              (⟨param.name, param.type, value⟩ :: ·)
          else .error (.argumentType component param.name param.type value.type) := by
  show (arg.evaluate stack >>= _).result = _
  rw [result_bind _ (appends_bindRest component stack param
    (appends_bindEach component stack params args))]
  refine congrArg _ (funext (fun value => ?_))
  split
  · rw [result_bind _ (fun _ => appends_pure _)]
    cases (bindEach component stack params args).result <;> rfl
  · rfl

/-- The warnings of binding arguments: those of the first argument, and those of the others unless
the first does not fit. -/
theorem warnings_bindEach_cons (param : Parameter) (params : List Parameter) (arg : Expression)
    (args : List Expression) :
    (bindEach component stack (param :: params) (arg :: args)).warnings
      = (arg.evaluate stack).warnings ++ match (arg.evaluate stack).result with
        | .ok value =>
          if value.type = param.type then (bindEach component stack params args).warnings else []
        | .error _ => [] := by
  show (arg.evaluate stack >>= _).warnings = _
  rw [warnings_bind _ (appends_bindRest component stack param
    (appends_bindEach component stack params args))]
  refine congrArg _ ?_
  cases (arg.evaluate stack).result with
  | error e => rfl
  | ok value =>
    show (if value.type = param.type then _ else _ : Evaluation Frame).warnings
      = if value.type = param.type then _ else _
    by_cases h : value.type = param.type
    · rw [if_pos h, if_pos h, warnings_bind _ (fun _ => appends_pure _)]
      cases (bindEach component stack params args).result <;> exact List.append_nil _
    · rw [if_neg h, if_neg h]
      rfl

end Arguments

end Pagewright
