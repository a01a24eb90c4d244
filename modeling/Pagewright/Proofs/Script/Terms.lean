import Pagewright.Proofs.DocumentNumbers
import Pagewright.Proofs.Script.Numerals
import Pagewright.Proofs.ScriptTypes

/-!
# A script expression says the expression it was written for

The second step of reading a script puts the tokens together. Multiplication and division bind
tighter than addition and subtraction, operators that bind alike are joined from the left,
parentheses come before both, and a name in front of a parenthesis calls a function. These are the
rules of the browser, and they know nothing of the rule by which the script is written: that an
operation inside another one stands in parentheses.

Under both rules together the text of an expression says the expression itself: its operators and
how they are nested, its texts, its names, the textboxes it reads, and its numbers by the text that
a number is shown with. What has to be assumed is that the names of the expression are names of the
script too, and that its numbers are finite. Nothing is assumed about texts, which may look like
code, nor about the signs and the exponents of numbers.
-/

namespace Pagewright

namespace Script

/-- **An expression of the script** as it is read. -/
inductive Term where
  | text (value : String)
  /-- A numeral, by its text. The sign of a negative number belongs to it. -/
  | numeral (text : String)
  | name (text : String)
  | call (function : String) (arguments : List Term)
  | operation (left : Term) (op : Operator) (right : Term)
  deriving Repr, Inhabited

namespace Parser

/-! ## Operators -/

/-- The operator is one of those that bind tighter. -/
def bindsTighter : Operator → Bool
  | .multiply | .divide => true
  | .add | .subtract => false

/-- An operation that waits for its right side. -/
structure Pending where
  left : Term
  op : Operator

/-- The operation with its right side, or the right side alone. -/
def complete : Option Pending → Term → Term
  | none, t => t
  | some ⟨left, op⟩, t => .operation left op t

/-- What stands in front of an operand, up to the last parenthesis: a sum that waits for its last
summand, and a product that waits for its last factor and is part of that summand. -/
structure Level where
  sum : Option Pending
  product : Option Pending

namespace Level

def empty : Level := ⟨none, none⟩

/-- The operand is the last one. -/
def close (level : Level) (t : Term) : Term :=
  complete level.sum (complete level.product t)

/-- An operator follows the operand. -/
def wait (level : Level) (t : Term) (op : Operator) : Level :=
  if bindsTighter op then ⟨level.sum, some ⟨complete level.product t, op⟩⟩
  else ⟨some ⟨level.close t, op⟩, none⟩

end Level

/-- **An operator between two operands** that stand alone joins them, whichever it is. -/
theorem close_wait (left right : Term) (op : Operator) :
    (Level.empty.wait left op).close right = .operation left op right := by
  cases op <;> rfl

/-! ## The reader -/

/-- A parenthesis that has been opened. -/
structure Opened where
  /-- What stands in front of it. -/
  outer : Level
  /-- If it belongs to a call, the function and the arguments that are complete. -/
  call : Option (String × List Term)

/-- Where among the tokens the reader stands. -/
inductive Place where
  /-- In front of an operand. -/
  | operand
  /-- Behind a minus that stands in front of an operand. -/
  | negative
  /-- Behind an operand. -/
  | after (t : Term)

/-- The state of the reader. -/
structure State where
  place : Place
  level : Level
  /-- The parentheses that are open, the innermost first. -/
  opened : List Opened

/-- Takes one token. -/
def step : State → Token → Option State
  | ⟨.operand, level, opened⟩, .text value => some ⟨.after (.text value), level, opened⟩
  | ⟨.operand, level, opened⟩, .numeral text => some ⟨.after (.numeral text), level, opened⟩
  | ⟨.operand, level, opened⟩, .name text => some ⟨.after (.name text), level, opened⟩
  | ⟨.operand, level, opened⟩, .sign .subtract => some ⟨.negative, level, opened⟩
  | ⟨.operand, level, opened⟩, .opening => some ⟨.operand, .empty, ⟨level, none⟩ :: opened⟩
  | ⟨.operand, ⟨none, none⟩, ⟨outer, some (f, [])⟩ :: opened⟩, .closing =>
    some ⟨.after (.call f []), outer, opened⟩
  | ⟨.negative, level, opened⟩, .numeral text =>
    some ⟨.after (.numeral ("-" ++ text)), level, opened⟩
  | ⟨.after t, level, opened⟩, .sign op => some ⟨.operand, level.wait t op, opened⟩
  | ⟨.after (.name f), level, opened⟩, .opening =>
    some ⟨.operand, .empty, ⟨level, some (f, [])⟩ :: opened⟩
  | ⟨.after t, level, ⟨outer, some (f, arguments)⟩ :: opened⟩, .comma =>
    some ⟨.operand, .empty, ⟨outer, some (f, arguments ++ [level.close t])⟩ :: opened⟩
  | ⟨.after t, level, ⟨outer, some (f, arguments)⟩ :: opened⟩, .closing =>
    some ⟨.after (.call f (arguments ++ [level.close t])), outer, opened⟩
  | ⟨.after t, level, ⟨outer, none⟩ :: opened⟩, .closing =>
    some ⟨.after (level.close t), outer, opened⟩
  | _, _ => none

/-- The expression that has been read, if the text may end here: behind an operand, with no
parenthesis open. -/
def State.finished? : State → Option Term
  | ⟨.after t, level, []⟩ => some (level.close t)
  | _ => none

end Parser

/-- The expression that tokens make up, if they do. -/
def Term.ofTokens? (tokens : List Token) : Option Term := do
  let state ← tokens.foldlM Parser.step ⟨.operand, .empty, []⟩
  state.finished?

/-- **The expression that a text says**, if it is one. -/
def read (code : String) : Option Term := do
  let tokens ← tokens? code.toList
  Term.ofTokens? tokens

-- Without parentheses the operators themselves decide how the operands are joined.
example : read "a + b * -1 / c - f(d)" = some (.operation
    (.operation (.name "a") .add
      (.operation (.operation (.name "b") .multiply (.numeral "-1")) .divide (.name "c")))
    .subtract (.call "f" [.name "d"])) := by
  rfl

/-! ## Operands and whole expressions -/

/-- **The text is an operand that spells `t`**: behind it, whatever stands in front of it is as it
was, and only `t` is new. -/
def IsOperand (cs : List Char) (t : Term) : Prop :=
  ∃ tokens, Lexes cs tokens ∧ ∀ level opened,
    Runs Parser.step ⟨.operand, level, opened⟩ tokens ⟨.after t, level, opened⟩

/-- **The text is a whole expression that spells `t`**, inside any parentheses or none. -/
def Spells (cs : List Char) (t : Term) : Prop :=
  ∃ tokens, Lexes cs tokens ∧ ∀ opened, ∃ last level,
    Runs Parser.step ⟨.operand, .empty, opened⟩ tokens ⟨.after last, level, opened⟩ ∧
      level.close last = t

variable {cs ds : List Char} {t u : Term}

theorem IsOperand.spells (h : IsOperand cs t) : Spells cs t := by
  obtain ⟨tokens, hlexes, hruns⟩ := h
  exact ⟨tokens, hlexes, fun opened => ⟨t, .empty, hruns .empty opened, rfl⟩⟩

theorem Spells.read {code : String} (h : Spells code.toList t) : read code = some t := by
  obtain ⟨tokens, hlexes, hruns⟩ := h
  obtain ⟨last, level, hlast, rfl⟩ := hruns []
  unfold Script.read Term.ofTokens?
  rw [hlexes.tokens?]
  show (tokens.foldlM Parser.step ⟨.operand, .empty, []⟩ >>= _) = _
  rw [show tokens.foldlM Parser.step ⟨.operand, .empty, []⟩ = _ from hlast]
  rfl

/-- **An expression in parentheses is an operand.** -/
theorem Spells.group (h : Spells cs t) : IsOperand ('(' :: cs ++ [')']) t := by
  obtain ⟨tokens, hlexes, hruns⟩ := h
  refine ⟨_, hlexes.group, fun level opened => ?_⟩
  obtain ⟨last, inner, hlast, rfl⟩ := hruns (⟨level, none⟩ :: opened)
  exact (Runs.cons rfl hlast).append (Runs.single rfl)

/-- **Two operands with an operator between them.** -/
theorem IsOperand.operation (h : IsOperand cs t) (op : Operator) (h' : IsOperand ds u) :
    Spells (cs ++ ' ' :: (op.symbol.toList ++ ' ' :: ds)) (.operation t op u) := by
  obtain ⟨left, hleft, hruns⟩ := h
  obtain ⟨right, hright, hruns'⟩ := h'
  refine ⟨_, hleft.operation op hright, fun opened => ⟨u, Parser.Level.empty.wait t op, ?_, ?_⟩⟩
  · exact (hruns .empty opened).append (Runs.cons rfl (hruns' _ opened))
  · exact Parser.close_wait t u op

/-- **A call with one argument is an operand.** -/
theorem Spells.call {f : List Char} (hf : isName f = true) (h : Spells cs t) :
    IsOperand (f ++ ('(' :: cs ++ [')'])) (.call (String.ofList f) [t]) := by
  obtain ⟨tokens, hlexes, hruns⟩ := h
  refine ⟨_, (lexes_name hf).separated '(' [.opening] rfl (fun _ => rfl) hlexes.closed,
    fun level opened => ?_⟩
  obtain ⟨last, inner, hlast, rfl⟩ := hruns (⟨level, some (String.ofList f, [])⟩ :: opened)
  exact Runs.cons rfl (Runs.cons rfl (hlast.append (Runs.single rfl)))

theorem isOperand_literal (s : String) : IsOperand (literal s).toList (.text s) :=
  ⟨_, lexes_literal s, fun _ _ => Runs.single rfl⟩

theorem isOperand_name (h : isName cs = true) : IsOperand cs (.name (String.ofList cs)) :=
  ⟨_, lexes_name h, fun _ _ => Runs.single rfl⟩

/-- **The text of a finite number is an operand**, also with a minus in front. -/
theorem isOperand_numberText {x : Float} (h : x.isFinite = true) :
    IsOperand (numberText x).toList (.numeral (numberText x)) := by
  obtain hnumeral | ⟨digits, htext, hnumeral⟩ := numberText_of_isFinite h
  · have hlexes := lexes_numeral hnumeral
    rw [String.ofList_toList] at hlexes
    exact ⟨_, hlexes, fun _ _ => Runs.single rfl⟩
  · rw [htext, String.toList_ofList]
    refine ⟨_, lexes_negative hnumeral, fun _ _ => Runs.cons rfl (Runs.single ?_)⟩
    show some (Parser.State.mk (.after (.numeral ("-" ++ String.ofList digits))) _ _) = _
    rw [String.ofList_cons]
    rfl

end Script

/-! ## Expressions -/

namespace Expression

/-- **The expression as a script says it.** -/
def term : Expression → Script.Term
  | text value => .text value
  | number value => .numeral (numberText value)
  | symbol name => .name name
  | textbox name => .call Script.textboxFunction [.text name]
  | operation left op right => .operation left.term op right.term

/-- **Two expressions are alike**: they are the same, except that numbers need only have the same
text. -/
inductive Alike : Expression → Expression → Prop where
  | text (value : String) : Alike (.text value) (.text value)
  | number {x y : Float} (h : numberText x = numberText y) : Alike (.number x) (.number y)
  | symbol (name : String) : Alike (.symbol name) (.symbol name)
  | textbox (name : String) : Alike (.textbox name) (.textbox name)
  | operation {left right left' right' : Expression} (op : Operator) (hleft : Alike left left')
      (hright : Alike right right') : Alike (.operation left op right) (.operation left' op right')

/-- **A script tells expressions apart** that are not alike. -/
theorem alike_of_term_eq {e e' : Expression} (h : e.term = e'.term) : e.Alike e' := by
  induction e generalizing e' with
  | text value =>
    cases e' <;> cases h
    exact .text value
  | number x =>
    cases e' with
    | number y => exact .number (Script.Term.numeral.inj h)
    | _ => cases h
  | symbol name =>
    cases e' <;> cases h
    exact .symbol name
  | textbox name =>
    cases e' <;> cases h
    exact .textbox name
  | operation left op right ihl ihr =>
    cases e' with
    | operation left' op' right' =>
      obtain ⟨hleft, rfl, hright⟩ := Script.Term.operation.inj h
      exact .operation op (ihl hleft) (ihr hright)
    | _ => cases h

/-- The names in an expression. -/
def names : Expression → List String
  | symbol name => [name]
  | operation left _ right => left.names ++ right.names
  | text _ | number _ | textbox _ => []

/-- The names in the expression are names of a script. -/
def HasNames (e : Expression) : Prop :=
  ∀ name ∈ e.names, Script.isName name.toList = true

end Expression

namespace Script

/-- **The fragment spells `t`**, as a whole and as an operand. -/
structure Fragment.Spells (f : Fragment) (t : Term) : Prop where
  whole : Script.Spells f.code.toList t
  operand : IsOperand f.operand.toList t

/-- What is no operation is the same text as a whole and as an operand. -/
theorem Fragment.spells_of_isOperand {f : Fragment} {t : Term} (hf : f.isOperation = false)
    (h : IsOperand f.code.toList t) : f.Spells t := by
  have hoperand : f.operand = f.code := by
    unfold Fragment.operand
    rw [hf, if_neg Bool.false_ne_true]
  exact ⟨h.spells, hoperand ▸ h⟩

/-- An operation is put in parentheses. -/
theorem Fragment.spells_of_isOperation {f : Fragment} {t : Term} (hf : f.isOperation = true)
    (h : Script.Spells f.code.toList t) : f.Spells t := by
  have hoperand : f.operand.toList = '(' :: f.code.toList ++ [')'] := by
    unfold Fragment.operand
    rw [hf, if_pos rfl]
    show ("(" ++ f.code ++ ")").toList = _
    rw [String.toList_append, String.toList_append]
    rfl
  exact ⟨h, hoperand ▸ h.group⟩

/-- **What is written for an expression spells it.** -/
theorem expression_spells {e : Expression} (hnames : e.HasNames) (hfinite : e.IsFinite) :
    Yields (expression e) (fun f => f.Spells e.term) := by
  induction e with
  | text value => exact Yields.pure (Fragment.spells_of_isOperand rfl (isOperand_literal value))
  | number x =>
    have hx : x.isFinite = true := hfinite x List.mem_cons_self
    exact Yields.pure (Fragment.spells_of_isOperand rfl (isOperand_numberText hx))
  | symbol name =>
    have hname := isOperand_name (hnames name List.mem_cons_self)
    rw [String.ofList_toList] at hname
    exact Yields.pure (Fragment.spells_of_isOperand rfl hname)
  | textbox name =>
    intro b f b' hrun
    cases hrun
    refine Fragment.spells_of_isOperand rfl ?_
    have hfunction : isName textboxFunction.toList = true := by decide
    have hcall := (isOperand_literal name).spells.call hfunction
    rw [String.ofList_toList] at hcall
    have hcode : (textboxFunction ++ "(" ++ literal name ++ ")").toList
        = textboxFunction.toList ++ ('(' :: (literal name).toList ++ [')']) := by
      simp
    show IsOperand (textboxFunction ++ "(" ++ literal name ++ ")").toList _
    rw [hcode]
    exact hcall
  | operation left op right ihl ihr =>
    have hleft := ihl (fun name hname => hnames name (List.mem_append_left _ hname))
      (fun x hx => hfinite x (List.mem_append_left _ hx))
    have hright := ihr (fun name hname => hnames name (List.mem_append_right _ hname))
      (fun x hx => hfinite x (List.mem_append_right _ hx))
    refine hleft.bind (fun l hl => hright.bind (fun r hr => ?_))
    cases operationType op l.type r.type with
    | error e => exact Yields.throw
    | ok type =>
      refine Yields.pure (Fragment.spells_of_isOperation rfl ?_)
      show Script.Spells (l.operand ++ " " ++ op.symbol ++ " " ++ r.operand).toList _
      simp only [String.toList_append, List.append_assoc]
      exact hl.operand.operation op hr.operand

/-- **An expression can be recovered from its code.** Read by the rules of the browser, the code
says the expression: the same operators nested in the same way, the same texts, names and
textboxes, and each number as its text. So no other expression has this code, up to numbers that
have the same text. -/
theorem read_code_eq_term (e : Expression) (hnames : e.HasNames) (hfinite : e.IsFinite)
    (b : Bool) (f : Fragment) (b' : Bool)
    (h : (ExceptT.run (expression e)).run b = (.ok f, b')) :
    read f.code = some e.term ∧
      ∀ e' : Expression, e'.HasNames → e'.IsFinite → ∀ c f' c',
        (ExceptT.run (expression e')).run c = (.ok f', c') → f'.code = f.code → e.Alike e' := by
  have hread := (expression_spells hnames hfinite b f b' h).whole.read
  refine ⟨hread, fun e' hnames' hfinite' c f' c' h' hcode => ?_⟩
  have hread' := (expression_spells hnames' hfinite' c f' c' h').whole.read
  rw [hcode, hread] at hread'
  exact Expression.alike_of_term_eq (Option.some.inj hread')

/-- A product in a sum, with a difference in the product. The number has a sign and an exponent, and
the texts look like code. -/
def netPrice : Expression :=
  .operation
    (.operation (.operation (.symbol "$price") .subtract (.number (-2.5e-7))) .multiply
      (.textbox "rate\" + (%)"))
    .add (.text " - \"net\" * (1)")

/-- The difference and the product the other way round. -/
def otherPrice : Expression :=
  .operation
    (.operation (.symbol "$price") .subtract
      (.operation (.number (-2.5e-7)) .multiply (.textbox "rate\" + (%)")))
    .add (.text " - \"net\" * (1)")

/-- The code of the first expression is read as what it was written for. The second one is written
too, and its code is another one, since the expressions are not alike. -/
theorem read_code_eq_term_netPrice :
    netPrice.HasNames ∧ netPrice.IsFinite ∧
      ∃ f f', (ExceptT.run (expression netPrice)).run false = (.ok f, true) ∧
        (ExceptT.run (expression otherPrice)).run false = (.ok f', true) ∧
        f.code = "(($price - -2.5e-7) * __simpleuiTextboxValue(\"rate\\\" + (%)\")) + " ++
          "\" - \\\"net\\\" * (1)\"" ∧
        read f.code = some netPrice.term ∧ f'.code ≠ f.code := by
  have hnames : netPrice.HasNames := by
    show ∀ name ∈ netPrice.names, _
    decide
  have hfinite : netPrice.IsFinite := by
    show ∀ x ∈ netPrice.numbers, _
    decide
  have hnames' : otherPrice.HasNames := by
    show ∀ name ∈ otherPrice.names, _
    decide
  have hfinite' : otherPrice.IsFinite := by
    show ∀ x ∈ otherPrice.numbers, _
    decide
  obtain ⟨f, hf, hcode⟩ : ∃ f, (ExceptT.run (expression netPrice)).run false = (.ok f, true) ∧
      f.code = "(($price - -2.5e-7) * __simpleuiTextboxValue(\"rate\\\" + (%)\")) + " ++
        "\" - \\\"net\\\" * (1)\"" := ⟨_, rfl, by decide +kernel⟩
  obtain ⟨f', hf'⟩ : ∃ f', (ExceptT.run (expression otherPrice)).run false = (.ok f', true) :=
    ⟨_, rfl⟩
  obtain ⟨hread, hother⟩ := read_code_eq_term netPrice hnames hfinite false f true hf
  refine ⟨hnames, hfinite, f, f', hf, hf', hcode, hread, fun hsame => ?_⟩
  cases hother otherPrice hnames' hfinite' false f' true hf' hsame with
  | operation _ hleft _ => cases hleft

end Script

end Pagewright
