import Mathlib.Data.List.Induction
import Pagewright.Generation.Markup
import Pagewright.Proofs.Emission
import Pagewright.Proofs.Html.References
import Pagewright.Proofs.Script.Numerals

/-!
# The call of a button says what it was written for

What a button calls is written twice over: every argument becomes a literal of the script, and the
whole call becomes the value of an attribute, where quotes and other characters turn into
references. The way back is the same in the opposite order. The references are decoded, then the
call is divided at its parentheses and commas, and each literal is decoded by itself.

For the second step one has to know which parentheses and commas belong to the call, and which are
characters of an argument. Those inside a string literal do not count, and the literal ends at the
first quote that is not escaped (`Script.Call.step`). So nothing depends on what the arguments are,
as long as no literal has such a quote inside it. The characters of numbers are none that matter for
a call, also if a number is not finite and is written as a name.
-/

namespace Pagewright

namespace Script

open Lexer (endsLine)

/-! ## The characters of a string literal -/

/-- How many backslashes stand at the end of a text. -/
def trailingBackslashes (cs : List Char) : Nat :=
  (cs.reverse.takeWhile (· = '\\')).length

theorem trailingBackslashes_backslash (cs : List Char) :
    trailingBackslashes (cs ++ ['\\']) = trailingBackslashes cs + 1 := by
  simp [trailingBackslashes]

theorem trailingBackslashes_eq_zero {cs ds : List Char} {d : Char} (h : ds.getLast? = some d)
    (hd : d ≠ '\\') : trailingBackslashes (cs ++ ds) = 0 := by
  obtain ⟨front, rfl⟩ := List.getLast?_eq_some_iff.mp h
  simp [trailingBackslashes, hd]

/-- The characters that are escaped, with what stands behind the backslash. -/
def escapes : List (Char × List Char) :=
  [('"', ['"']), ('\\', ['\\']), ('\n', ['n']), ('\r', ['r']), ('\t', ['t']),
    ('<', "u003c".toList), ('\u2028', "u2028".toList), ('\u2029', "u2029".toList)]

/-- **A character of a literal** is escaped if it is in the table, and stands for itself if not. -/
theorem literalChar_cases (c : Char) :
    (∃ e, (c, e) ∈ escapes ∧ literalChar c = '\\' :: e) ∨
      literalChar c = [c] ∧ c ∉ escapes.map (·.1) := by
  by_cases hc : c ∈ escapes.map (·.1)
  · obtain ⟨⟨c, e⟩, he, rfl⟩ := List.mem_map.mp hc
    have hall : ∀ p ∈ escapes, literalChar p.1 = '\\' :: p.2 := by decide
    exact .inl ⟨e, he, hall _ he⟩
  · refine .inr ⟨?_, hc⟩
    simp only [escapes, List.map_cons, List.map_nil, List.mem_cons, List.not_mem_nil, or_false,
      not_or] at hc
    simp [literalChar, hc]

/-- **A backslash in a text is written as two**, so those of a literal go in pairs. -/
theorem even_trailingBackslashes (cs : List Char) :
    trailingBackslashes (cs.flatMap literalChar) % 2 = 0 := by
  induction cs using List.reverseRecOn with
  | nil => rfl
  | append_singleton cs c ih =>
    rw [List.flatMap_append, List.flatMap_singleton]
    rcases literalChar_cases c with ⟨e, he, hc⟩ | ⟨hc, hplain⟩
    · have hends : ∀ p ∈ escapes, p.2 = ['\\'] ∨ p.2.getLast?.any (· ≠ '\\') = true := by decide
      rw [hc, List.append_cons]
      rcases hends _ he with hbackslash | hother
      · rw [show e = ['\\'] from hbackslash, trailingBackslashes_backslash,
          trailingBackslashes_backslash]
        omega
      · obtain ⟨d, hd, hne⟩ := (Option.any_eq_true _ _).mp hother
        rw [trailingBackslashes_eq_zero hd (of_decide_eq_true hne)]
    · rw [hc, trailingBackslashes_eq_zero rfl]
      rintro rfl
      exact hplain (by decide)

/-- **Every quote inside a literal is escaped.** -/
theorem odd_trailingBackslashes {cs before after : List Char}
    (h : cs.flatMap literalChar = before ++ '"' :: after) :
    trailingBackslashes before % 2 = 1 := by
  obtain ⟨done, c, todo, b, a, -, hpiece, rfl, -⟩ := exists_of_flatMap_eq h
  have hb : b = ['\\'] := by
    rcases literalChar_cases c with ⟨e, he, hc⟩ | ⟨hc, hplain⟩
    · rw [hc] at hpiece
      cases b with
      | nil => cases (List.cons.inj hpiece).1
      | cons d b =>
        obtain ⟨rfl, rfl⟩ := List.cons.inj hpiece
        have hquotes : ∀ p ∈ escapes, '"' ∈ p.2 → p.2 = ['"'] := by decide
        have hquote := hquotes _ he (List.mem_append_right _ List.mem_cons_self)
        cases b with
        | nil => rfl
        | cons d b => simp at hquote
    · rw [hc] at hpiece
      have hmem : '"' ∈ [c] := hpiece ▸ List.mem_append_right _ List.mem_cons_self
      exact absurd (List.mem_singleton.mp hmem ▸ by decide) hplain
  rw [hb, trailingBackslashes_backslash, Nat.add_mod, even_trailingBackslashes]

/-- **What would end the line or the script is not in a literal.** -/
theorem not_mem_literalChar {d : Char} (hd : d ∈ ['\n', '\r', '\u2028', '\u2029', '<'])
    (c : Char) : d ∉ literalChar c := by
  rcases literalChar_cases c with ⟨e, he, hc⟩ | ⟨hc, hplain⟩
  · have hnone : (escapes.all fun p => ['\n', '\r', '\u2028', '\u2029', '<'].all
        fun d => decide (d ∉ '\\' :: p.2)) = true := by decide
    rw [hc]
    exact of_decide_eq_true (List.all_eq_true.mp (List.all_eq_true.mp hnone _ he) d hd)
  · have hescaped : (['\n', '\r', '\u2028', '\u2029', '<'].all
        fun d => decide (d ∈ escapes.map (·.1))) = true := by decide
    rw [hc]
    intro hmem
    have hd := of_decide_eq_true (List.all_eq_true.mp hescaped d hd)
    exact hplain (List.mem_singleton.mp hmem ▸ hd)

/-! ## The characters of a number -/

/-- A character of a numeral, or of the name of a number that is not finite. -/
def isNumberChar (c : Char) : Bool :=
  isNameChar c || c = '.' || c = '+' || c = '-'

theorem isNumberChar_of_isNameChar {c : Char} (h : isNameChar c = true) :
    isNumberChar c = true := by
  simp [isNumberChar, h]

theorem isNumberChar_of_isDigits {cs : List Char} (h : isDigits cs = true) :
    ∀ c ∈ cs, isNumberChar c = true :=
  fun c hc => isNumberChar_of_isNameChar
    (isNameChar_of_isDigit (List.all_eq_true.mp (Bool.and_eq_true_iff.mp h).2 c hc))

theorem isNumberChar_of_isExponent {cs : List Char} (h : isExponent cs = true) :
    ∀ c ∈ cs, isNumberChar c = true := by
  cases cs with
  | nil => exact List.forall_mem_nil _
  | cons c cs =>
    obtain ⟨hc, hdigits⟩ := Bool.and_eq_true_iff.mp h
    have hmark : c = 'e' ∨ c = 'E' := by simpa using hc
    refine List.forall_mem_cons.mpr ⟨by rcases hmark with rfl | rfl <;> rfl, ?_⟩
    split at hdigits
    · next hsign =>
      cases cs with
      | nil => exact List.forall_mem_nil _
      | cons sign ds =>
        have hsign : sign = '+' ∨ sign = '-' := by simpa using hsign
        exact List.forall_mem_cons.mpr
          ⟨by rcases hsign with rfl | rfl <;> rfl, isNumberChar_of_isDigits hdigits⟩
    · exact isNumberChar_of_isDigits hdigits

theorem isNumberChar_of_isFraction {cs : List Char} (h : isFraction cs = true) :
    ∀ c ∈ cs, isNumberChar c = true := by
  unfold isFraction at h
  split at h
  · next rest =>
    obtain ⟨hdigits, hexponent⟩ := Bool.and_eq_true_iff.mp h
    refine List.forall_mem_cons.mpr ⟨rfl, ?_⟩
    rw [← List.takeWhile_append_dropWhile (p := Char.isDigit) (l := rest)]
    exact List.forall_mem_append.mpr
      ⟨isNumberChar_of_isDigits hdigits, isNumberChar_of_isExponent hexponent⟩
  · exact isNumberChar_of_isExponent h

theorem isNumberChar_of_isNumeral {cs : List Char} (h : isNumeral cs = true) :
    ∀ c ∈ cs, isNumberChar c = true := by
  obtain ⟨hwhole, hfraction⟩ := Bool.and_eq_true_iff.mp h
  have hdigits := (Bool.and_eq_true_iff.mp hwhole).1
  rw [← List.takeWhile_append_dropWhile (p := Char.isDigit) (l := cs)]
  exact List.forall_mem_append.mpr
    ⟨isNumberChar_of_isDigits hdigits, isNumberChar_of_isFraction hfraction⟩

/-- **The text of a number consists of letters, digits, points and signs**, also if the number is
not finite. -/
theorem isNumberChar_of_mem_numberText (x : Float) :
    (numberText x).toList ≠ [] ∧ ∀ c ∈ (numberText x).toList, isNumberChar c = true := by
  unfold numberText
  rw [String.toList_ofList]
  cases hx : Double.ofFloat x with
  | nan => exact ⟨by decide, List.all_eq_true.mp rfl⟩
  | infinite negative =>
    cases negative with
    | false => exact ⟨by decide, List.all_eq_true.mp rfl⟩
    | true => exact ⟨by decide, List.all_eq_true.mp rfl⟩
  | finite negative b =>
    unfold Double.text
    by_cases hzero : b.mantissa = 0
    · simp only [if_pos hzero]
      exact ⟨by decide, List.all_eq_true.mp rfl⟩
    · have hnumeral := isNumeral_text (Double.toFloat_eq hx).1 (Nat.pos_of_ne_zero hzero)
      have hchars := isNumberChar_of_isNumeral hnumeral
      simp only [if_neg hzero]
      cases negative with
      | false =>
        rw [if_neg Bool.false_ne_true]
        obtain ⟨c, rest, htext, -⟩ := exists_of_isNumeral hnumeral
        exact ⟨by rw [htext]; exact List.cons_ne_nil _ _, hchars⟩
      | true =>
        rw [if_pos rfl]
        exact ⟨List.cons_ne_nil _ _, List.forall_mem_cons.mpr ⟨rfl, hchars⟩⟩

/-! ## Dividing a call -/

namespace Call

/-- Where in a call the reader stands. -/
inductive Place where
  /-- In front of the parenthesis. -/
  | function
  /-- Among the arguments, outside string literals. -/
  | argument
  /-- Between the quotes of a string literal. -/
  | string
  /-- Behind the backslash of an escape. -/
  | escape
  /-- Behind the parenthesis that ends the call. -/
  | closed
  deriving DecidableEq, Repr

/-- The state of the reader. -/
structure State where
  place : Place
  function : List Char
  /-- The arguments that are complete. -/
  arguments : List (List Char)
  /-- The argument that has been read in part. -/
  current : List Char

/-- A character among the arguments. Blanks in front of an argument do not belong to it. -/
def argumentStep (s : State) (c : Char) : Option State :=
  if c = '"' then some { s with place := .string, current := s.current ++ [c] }
  else if c = ',' then
    if s.current = [] then none
    else some { s with arguments := s.arguments ++ [s.current], current := [] }
  else if c = ')' then
    if s.current ≠ [] then
      some ⟨.closed, s.function, s.arguments ++ [s.current], []⟩
    else if s.arguments = [] then some { s with place := .closed }
    else none
  else if c = '(' then none
  else if c = ' ' ∧ s.current = [] then some s
  else some { s with current := s.current ++ [c] }

/-- Takes one character. -/
def step (s : State) (c : Char) : Option State :=
  match s.place with
  | .function =>
    if c = '(' then some { s with place := .argument }
    else some { s with function := s.function ++ [c] }
  | .argument => argumentStep s c
  | .string =>
    if endsLine c then none
    else
      let place := if c = '"' then Place.argument else if c = '\\' then .escape else .string
      some { s with place, current := s.current ++ [c] }
  | .escape => some { s with place := .string, current := s.current ++ [c] }
  | .closed => none

end Call

/-- **The function and the arguments of a call**, as they are written, if the text is a call. -/
def splitCall? (code : String) : Option (String × List String) := do
  let s ← code.toList.foldlM Call.step ⟨.function, [], [], []⟩
  if s.place = .closed then some (String.ofList s.function, s.arguments.map String.ofList) else none

-- Parentheses and commas of a literal are not those of the call.
example : splitCall? "f(\"a, \\\"b)\", -1.5,c)" = some ("f", ["\"a, \\\"b)\"", "-1.5", "c"]) := by
  decide

namespace Call

variable {function : List Char} {arguments : List (List Char)} {current : List Char}

/-! ## Arguments -/

/-- Characters that leave the reader where it stands are collected. -/
theorem runs_collected {place : Place} (current : List Char) {cs : List Char}
    (h : ∀ c ∈ cs, ∀ current, step ⟨place, function, arguments, current⟩ c
      = some ⟨place, function, arguments, current ++ [c]⟩) :
    Runs step ⟨place, function, arguments, current⟩ cs
      ⟨place, function, arguments, current ++ cs⟩ := by
  induction cs generalizing current with
  | nil =>
    rw [List.append_nil]
    exact Runs.nil _
  | cons c cs ih =>
    obtain ⟨hc, hcs⟩ := List.forall_mem_cons.mp h
    rw [List.append_cons]
    exact Runs.cons (hc current) (ih _ hcs)

/-- **The text is one argument**: read from its start, all of it belongs to the argument. -/
structure IsArgument (cs : List Char) : Prop where
  ne_nil : cs ≠ []
  runs : ∀ function arguments, Runs step ⟨.argument, function, arguments, []⟩ cs
    ⟨.argument, function, arguments, cs⟩

/-- A character that is not escaped goes on with a literal. -/
theorem step_string {c : Char} (h : c ∉ escapes.map (·.1)) (current : List Char) :
    step ⟨.string, function, arguments, current⟩ c
      = some ⟨.string, function, arguments, current ++ [c]⟩ := by
  simp only [escapes, List.map_cons, List.map_nil, List.mem_cons, List.not_mem_nil, or_false,
    not_or] at h
  simp [step, endsLine, h]

/-- **The written form of a character does not end the literal.** -/
theorem runs_literalChar (c : Char) :
    Runs step ⟨.string, function, arguments, current⟩ (literalChar c)
      ⟨.string, function, arguments, current ++ literalChar c⟩ := by
  rcases literalChar_cases c with ⟨e, he, hc⟩ | ⟨hc, hplain⟩
  · have htail : ∀ p ∈ escapes, p.2 ≠ [] ∧ (p.2.tail.all (· ∉ escapes.map (·.1))) = true := by
      decide
    obtain ⟨hne, htail⟩ := htail _ he
    obtain ⟨d, ds, rfl⟩ := List.exists_cons_of_ne_nil hne
    rw [hc, List.append_cons, List.append_cons]
    -- The character behind the backslash is taken as it is, and the digits of a number follow.
    refine Runs.cons rfl (Runs.cons rfl (runs_collected _ fun d hd => step_string ?_))
    exact of_decide_eq_true (List.all_eq_true.mp htail d hd)
  · rw [hc]
    exact Runs.single (step_string hplain current)

/-- **A string literal is one argument.** -/
theorem isArgument_literal (s : String) : IsArgument (literal s).toList := by
  have hinner : ∀ (cs : List Char) {function arguments current},
      Runs step ⟨.string, function, arguments, current⟩ (cs.flatMap literalChar)
        ⟨.string, function, arguments, current ++ cs.flatMap literalChar⟩ := by
    intro cs
    induction cs with
    | nil =>
      intro function arguments current
      rw [List.flatMap_nil, List.append_nil]
      exact Runs.nil _
    | cons c cs ih =>
      intro function arguments current
      rw [List.flatMap_cons, ← List.append_assoc]
      exact (runs_literalChar c).append ih
  unfold literal
  rw [String.toList_ofList]
  exact ⟨List.cons_ne_nil _ _, fun _ _ =>
    Runs.append (Runs.cons rfl (hinner s.toList)) (Runs.single rfl)⟩

/-- A character of a number goes on with an argument. -/
theorem step_argument {c : Char} (h : isNumberChar c = true) (current : List Char) :
    step ⟨.argument, function, arguments, current⟩ c
      = some ⟨.argument, function, arguments, current ++ [c]⟩ := by
  have hne : ∀ d, isNumberChar d = false → c ≠ d := by
    rintro d hd rfl
    rw [hd] at h
    exact Bool.false_ne_true h
  show argumentStep _ c = _
  unfold argumentStep
  rw [if_neg (hne _ rfl), if_neg (hne _ rfl), if_neg (hne _ rfl), if_neg (hne _ rfl),
    if_neg (fun hblank => hne _ rfl hblank.1)]

/-- **Every value is one argument**, written as a literal. -/
theorem isArgument_scriptLiteral (v : Value) : IsArgument v.scriptLiteral.toList := by
  cases v with
  | text s => exact isArgument_literal s
  | number x =>
    obtain ⟨hne, hchars⟩ := isNumberChar_of_mem_numberText x
    exact ⟨hne, fun _ _ => runs_collected [] fun c hc => step_argument (hchars c hc)⟩

/-! ## Calls -/

/-- **Arguments are divided at the commas between them**, up to the end of the call. -/
theorem runs_arguments {args : List String} (h : ∀ a ∈ args, IsArgument a.toList) (hne : args ≠ [])
    (done : List (List Char)) :
    Runs step ⟨.argument, function, done, []⟩ ((", ".intercalate args).toList ++ [')'])
      ⟨.closed, function, done ++ args.map String.toList, []⟩ := by
  induction args generalizing done with
  | nil => exact absurd rfl hne
  | cons a args ih =>
    obtain ⟨ha, hargs⟩ := List.forall_mem_cons.mp h
    cases args with
    | nil =>
      rw [String.intercalate_singleton]
      refine (ha.runs function done).append (Runs.single ?_)
      exact if_pos ha.ne_nil
    | cons b args =>
      have hrest := ih hargs (List.cons_ne_nil _ _) (done ++ [a.toList])
      rw [← List.append_cons] at hrest
      have htext : (", ".intercalate (a :: b :: args)).toList ++ [')']
          = a.toList ++ ',' :: ' ' :: ((", ".intercalate (b :: args)).toList ++ [')']) := by
        simp [String.intercalate_cons_cons]
      have hcomma : step ⟨.argument, function, done, a.toList⟩ ','
          = some ⟨.argument, function, done ++ [a.toList], []⟩ := if_neg ha.ne_nil
      have hblank : step ⟨.argument, function, done ++ [a.toList], []⟩ ' '
          = some ⟨.argument, function, done ++ [a.toList], []⟩ := rfl
      rw [htext]
      exact (ha.runs function done).append (Runs.cons hcomma (Runs.cons hblank hrest))

/-- What stands in front of the first parenthesis is the function. -/
theorem runs_function {cs : List Char} (h : '(' ∉ cs) (front : List Char) :
    Runs step ⟨.function, front, [], []⟩ cs ⟨.function, front ++ cs, [], []⟩ := by
  induction cs generalizing front with
  | nil =>
    rw [List.append_nil]
    exact Runs.nil _
  | cons c cs ih =>
    rw [List.mem_cons, not_or] at h
    rw [List.append_cons]
    exact Runs.cons (if_neg (Ne.symm h.1)) (ih h.2 (front ++ [c]))

end Call

open Call in
/-- **A call is divided into its function and its arguments.** -/
theorem splitCall?_call {f : String} {args : List String} (hf : '(' ∉ f.toList)
    (h : ∀ a ∈ args, IsArgument a.toList) :
    splitCall? (f ++ "(" ++ ", ".intercalate args ++ ")") = some (f, args) := by
  have hargs : Runs step ⟨.argument, f.toList, [], []⟩ ((", ".intercalate args).toList ++ [')'])
      ⟨.closed, f.toList, args.map String.toList, []⟩ := by
    cases args with
    | nil => exact Runs.single rfl
    | cons a args => exact runs_arguments h (List.cons_ne_nil _ _) []
  have htext : (f ++ "(" ++ ", ".intercalate args ++ ")").toList
      = f.toList ++ '(' :: ((", ".intercalate args).toList ++ [')']) := by
    simp
  have hopening : Call.step ⟨.function, f.toList, [], []⟩ '('
      = some ⟨.argument, f.toList, [], []⟩ := rfl
  have hcall := (runs_function hf []).append (Runs.cons hopening hargs)
  unfold splitCall?
  rw [htext, show List.foldlM Call.step _ _ = some _ from hcall]
  show some (String.ofList f.toList, (args.map String.toList).map String.ofList) = _
  rw [String.ofList_toList, List.map_map]
  simp

end Script

/-! ## The attribute of a button -/

namespace Emission

/-- Expressions that have values are evaluated to them in every run. -/
theorem exists_on_mapM_value {stack : Stack} {es : List Expression} {values : List Value}
    (h : List.Forall₂ (fun e v => (e.evaluate stack).result = .ok v) es values) (run : Run) :
    ∃ run', (es.mapM (value stack)).on run = (.ok values, run') := by
  induction h generalizing run with
  | nil => exact ⟨run, rfl⟩
  | @cons e v es values he _ ih =>
    have hfirst : (value stack e).on run = (.ok v, run.warned (e.evaluate stack).warnings) := by
      unfold value
      rw [on_ofEvaluation, he]
    obtain ⟨run', hrest⟩ := ih (run.warned (e.evaluate stack).warnings)
    refine ⟨run', ?_⟩
    rw [List.mapM_cons, on_bind, hfirst]
    dsimp only
    rw [on_bind, hrest]
    rfl

end Emission

namespace Markup

open Emission

variable {stack : Stack} {click : Click} {values : List Value}

/-- **The call of a click is written whenever its arguments have values.** -/
theorem exists_on_clickCall
    (h : List.Forall₂ (fun e v => (e.evaluate stack).result = .ok v) click.arguments values)
    (run : Run) :
    ∃ run', (clickCall stack click).on run
      = (.ok (click.function ++ "(" ++ ", ".intercalate (values.map Value.scriptLiteral) ++ ")"),
          run') := by
  obtain ⟨run', hvalues⟩ := exists_on_mapM_value h run
  refine ⟨run', ?_⟩
  unfold clickCall
  rw [on_bind, hvalues]
  rfl

/-- The call of a button is the value of its last attribute. -/
theorem exists_of_on_button {call : String}
    (hcall : ∀ run, ∃ run', (clickCall stack click).on run = (.ok call, run')) {context : Context}
    {attrs : Attributes} {text : Expression} {run run' : Run} {nodes : List Html}
    (h : (element context stack (.button attrs text (some click))).on run = (.ok nodes, run')) :
    ∃ others shown,
      nodes = [.inline "button" (others ++ [⟨"onclick", call⟩]) [.text shown]] := by
  obtain ⟨others, run₁, -, h⟩ := exists_of_on_bind h
  obtain ⟨call?, run₂, hclick, h⟩ := exists_of_on_bind h
  obtain ⟨shown, run₃, -, h⟩ := exists_of_on_bind h
  have hsome : call? = some call := by
    obtain ⟨run'', hrun⟩ := hcall run₁
    have hmap : (some <$> clickCall stack click).on run₁ = (.ok call?, run₂) := hclick
    rw [map_eq_pure_bind, on_bind, hrun] at hmap
    cases hmap
    rfl
  subst hsome
  cases h
  exact ⟨others, shown, rfl⟩

/-- **The literals of a script and the call of a button can be read back.**

A text is written between two double quotes. Between them every quote is escaped, so that an odd
number of backslashes stands in front of it, nothing ends the line, and there is no `<`. Read by the
rules of the browser, the literal is one token with the text as its value.

Let the arguments of a click have values. Then its call is written. On every button with this click
it is the value of the attribute `onclick`, which ends at its second quote. The references in it are
decoded to the call, and the call is divided into the function and the literals of the values, of
which those of texts say the texts. Of the name of the function it is only asked that there is no
parenthesis in it, as there is none in an identifier. -/
theorem splitCall_onclick :
    (∀ s : String, ∃ inner : List Char,
      (Script.literal s).toList = '"' :: (inner ++ ['"']) ∧
      (∀ before after, inner = before ++ '"' :: after →
        Script.trailingBackslashes before % 2 = 1) ∧
      (∀ c ∈ inner, c ≠ '\n' ∧ c ≠ '\r' ∧ c ≠ '\u2028' ∧ c ≠ '\u2029' ∧ c ≠ '<') ∧
      Script.tokens? (Script.literal s).toList = some [.text s]) ∧
    ∀ (stack : Stack) (click : Click) (values : List Value), '(' ∉ click.function.toList →
      List.Forall₂ (fun e v => (e.evaluate stack).result = .ok v) click.arguments values →
      ∃ call written : String,
        (∀ run, ∃ run', (clickCall stack click).on run = (.ok call, run')) ∧
        (∀ context attrs text run nodes run',
          (element context stack (.button attrs text (some click))).on run = (.ok nodes, run') →
            ∃ others shown,
              nodes = [.inline "button" (others ++ [⟨"onclick", call⟩]) [.text shown]]) ∧
        (⟨"onclick", call⟩ : Html.Attribute).written = " onclick=\"" ++ written ++ "\"" ∧
        '"' ∉ written.toList ∧
        Html.decodeReferences? written = some call ∧
        Script.splitCall? call = some (click.function, values.map Value.scriptLiteral) ∧
        ∀ s, .text s ∈ values →
          Script.tokens? (Value.text s).scriptLiteral.toList = some [.text s] := by
  refine ⟨fun s => ⟨s.toList.flatMap Script.literalChar, ?_, ?_, ?_, ?_⟩, ?_⟩
  · exact String.toList_ofList
  · exact fun _ _ => Script.odd_trailingBackslashes
  · intro c hc
    obtain ⟨d, -, hd⟩ := List.mem_flatMap.mp hc
    refine ⟨?_, ?_, ?_, ?_, ?_⟩
    all_goals
      rintro rfl
      exact Script.not_mem_literalChar (by decide) d hd
  · exact (Script.lexes_literal s).tokens?
  · intro stack click values hname hvalues
    refine ⟨_, _, exists_on_clickCall hvalues, ?_, rfl, ?_, ?_, ?_, ?_⟩
    · exact fun _ _ _ _ _ _ => exists_of_on_button (exists_on_clickCall hvalues)
    · exact fun h => (Html.mem_escapeAttribute h).2.2.2.1 rfl
    · exact Html.decodeReferences?_escapeAttribute _
    · refine Script.splitCall?_call hname (List.forall_mem_map.mpr fun v _ => ?_)
      exact Script.Call.isArgument_scriptLiteral v
    · exact fun s _ => (Script.lexes_literal s).tokens?

/-- A click with a text that looks like the rest of a call and of a tag, a number that is not
finite, and a text without characters. -/
def farewell : Click where
  function := "größe"
  arguments := [.symbol "words", .operation (.number (-1)) .divide (.number 0), .text ""]

/-- The frame that has the text. -/
def farewellStack : Stack :=
  Stack.empty.push [⟨"words", .string, .text "\\\", 1)\"></b>\n"⟩]

/-- The call has three arguments although there are three commas in it, and the text of the first
one is read from its literal. -/
theorem splitCall_onclick_farewell :
    '(' ∉ farewell.function.toList ∧
      List.Forall₂ (fun e v => (e.evaluate farewellStack).result = .ok v) farewell.arguments
        [.text "\\\", 1)\"></b>\n", .number (-1 / 0), .text ""] ∧
      ∃ call written : String,
        (∃ run', (clickCall farewellStack farewell).on .fresh = (.ok call, run')) ∧
        (⟨"onclick", call⟩ : Html.Attribute).written = " onclick=\"" ++ written ++ "\"" ∧
        Html.decodeReferences? written = some call ∧
        Script.splitCall? call
          = some ("größe",
              ["\"\\\\\\\", 1)\\\">\\u003c/b>\\n\"", "-Infinity", "\"\""]) ∧
        Script.tokens? "\"\\\\\\\", 1)\\\">\\u003c/b>\\n\"".toList
          = some [.text "\\\", 1)\"></b>\n"] := by
  have hvalues : List.Forall₂ (fun e v => (e.evaluate farewellStack).result = .ok v)
      farewell.arguments [.text "\\\", 1)\"></b>\n", .number (-1 / 0), .text ""] :=
    .cons rfl (.cons rfl (.cons rfl .nil))
  have hname : '(' ∉ farewell.function.toList := by decide
  have hliterals : ([.text "\\\", 1)\"></b>\n", .number (-1 / 0), .text ""] : List Value).map
      Value.scriptLiteral
        = ["\"\\\\\\\", 1)\\\">\\u003c/b>\\n\"", "-Infinity", "\"\""] := by
    decide +kernel
  obtain ⟨call, written, hcall, -, hwritten, -, hdecode, hsplit, htexts⟩ :=
    splitCall_onclick.2 farewellStack farewell _ hname hvalues
  have htext := htexts "\\\", 1)\"></b>\n" List.mem_cons_self
  rw [hliterals] at hsplit
  exact ⟨hname, hvalues, call, written, hcall .fresh, hwritten, hdecode, hsplit, htext⟩

end Markup

end Pagewright
