import Pagewright.Expression
import Pagewright.Json.Scalar
import Pagewright.Script.Literal

/-!
# The tokens of a script

A browser reads an expression of the script in two steps. First it divides the text into tokens:
string literals, numerals, names, operators, parentheses and commas. This module is about that
step; it knows as much of the language as expressions need, and refuses everything else. A minus is
a token of its own also in front of a numeral, and only behind the `e` of an exponent it is part of
one. Two operators have to be kept apart, since `--` and `//` mean something else.

The reader takes one character at a time. Names and numerals do not show where they end, so the
reader finds out by the character behind them. For a text that is to be followed by others it is
therefore said what tokens it consists of as soon as a character comes that ends a word (`Lexes`).
-/

namespace Pagewright.Script

/-! ## Step by step -/

section Runs

variable {σ α : Type} {step : σ → α → Option σ} {s s₁ s₂ : σ} {x : α} {xs ys : List α}

/-- **Step by step a reader comes from one state to another** over these symbols. -/
def Runs (step : σ → α → Option σ) (s : σ) (xs : List α) (s' : σ) : Prop :=
  xs.foldlM step s = some s'

theorem Runs.nil (s : σ) : Runs step s [] s := rfl

theorem Runs.cons (hx : step s x = some s₁) (hxs : Runs step s₁ xs s₂) :
    Runs step s (x :: xs) s₂ := by
  unfold Runs
  rw [List.foldlM_cons, hx]
  exact hxs

theorem Runs.single (hx : step s x = some s₁) : Runs step s [x] s₁ :=
  Runs.cons hx (Runs.nil s₁)

theorem Runs.append (hxs : Runs step s xs s₁) (hys : Runs step s₁ ys s₂) :
    Runs step s (xs ++ ys) s₂ := by
  unfold Runs
  rw [List.foldlM_append, show xs.foldlM step s = some s₁ from hxs]
  exact hys

end Runs

/-- A token of an expression. -/
inductive Token where
  /-- A string literal, by its value. -/
  | text (value : String)
  /-- A numeral, by its text. -/
  | numeral (text : String)
  | name (text : String)
  | sign (op : Operator)
  | opening
  | closing
  | comma
  deriving DecidableEq, Repr

/-! ## Names -/

/-- The character can stand in a name. -/
def isNameChar (c : Char) : Bool :=
  c.isAlphanum || c = '_' || c = '$'

/-- **The text is a name**: letters, digits, `_` and `$`, with no digit at the start. -/
def isName : List Char → Bool
  | [] => false
  | c :: cs => !c.isDigit && isNameChar c && cs.all isNameChar

/-! ## Numerals -/

/-- Digits, at least one. -/
def isDigits (cs : List Char) : Bool :=
  !cs.isEmpty && cs.all Char.isDigit

/-- A whole number, which has no zero in front of it. -/
def isWhole (cs : List Char) : Bool :=
  isDigits cs && (cs.head? != some '0' || cs.length = 1)

/-- An exponent with or without a sign, or nothing. -/
def isExponent : List Char → Bool
  | [] => true
  | c :: cs =>
    (c = 'e' || c = 'E') &&
      isDigits (if cs.head? = some '+' || cs.head? = some '-' then cs.tail else cs)

/-- What follows the whole part of a numeral: a fraction, or none, and an exponent, or none. -/
def isFraction : List Char → Bool
  | '.' :: cs => isDigits (cs.takeWhile Char.isDigit) && isExponent (cs.dropWhile Char.isDigit)
  | cs => isExponent cs

/-- **The text is a numeral**, without a sign. -/
def isNumeral (cs : List Char) : Bool :=
  isWhole (cs.takeWhile Char.isDigit) && isFraction (cs.dropWhile Char.isDigit)

/-- The character goes on with a numeral, or with what might become one: a letter of an exponent,
and a sign behind it. -/
def continuesNumeral (numeral : List Char) (c : Char) : Bool :=
  isNameChar c || c = '.' ||
    (c = '+' || c = '-') && (numeral.getLast? = some 'e' || numeral.getLast? = some 'E')

namespace Lexer

/-! ## The reader -/

/-- Where in the text the reader stands. What has been read of a token comes along. -/
inductive Mode where
  /-- Between tokens. -/
  | gap
  /-- Right behind an operator. -/
  | operator
  | name (text : List Char)
  | numeral (text : List Char)
  /-- Between the quotes of a string literal. -/
  | string (value : List Char)
  /-- Behind the backslash of an escape. -/
  | escape (value : List Char)
  /-- In an escape by number: the number so far, and how many digits follow the next one. -/
  | code (value : List Char) (point more : Nat)

/-- The state of the reader. -/
structure State where
  mode : Mode
  /-- The tokens that are complete. -/
  tokens : List Token

/-- The operator that is written with this sign. -/
def operator? : Char → Option Operator
  | '+' => some .add
  | '-' => some .subtract
  | '*' => some .multiply
  | '/' => some .divide
  | _ => none

/-- The character that is meant by a letter behind a backslash. -/
def escaped? : Char → Option Char
  | '"' => some '"'
  | '\\' => some '\\'
  | 'n' => some '\n'
  | 'r' => some '\r'
  | 't' => some '\t'
  | 'b' => some '\x08'
  | 'f' => some '\x0c'
  | 'v' => some '\x0b'
  | _ => none

/-- The character ends the line, also inside a string literal. -/
def endsLine (c : Char) : Bool :=
  c = '\n' || c = '\r' || c = '\u2028' || c = '\u2029'

/-- A character between tokens. -/
def gapStep (tokens : List Token) (c : Char) : Option State :=
  if c = ' ' then some ⟨.gap, tokens⟩
  else if c = '"' then some ⟨.string [], tokens⟩
  else if c = '(' then some ⟨.gap, tokens ++ [.opening]⟩
  else if c = ')' then some ⟨.gap, tokens ++ [.closing]⟩
  else if c = ',' then some ⟨.gap, tokens ++ [.comma]⟩
  else if c.isDigit then some ⟨.numeral [c], tokens⟩
  else if isNameChar c then some ⟨.name [c], tokens⟩
  else (operator? c).map fun op => ⟨.operator, tokens ++ [.sign op]⟩

/-- Takes one character. -/
def step : State → Char → Option State
  | ⟨.gap, tokens⟩, c => gapStep tokens c
  | ⟨.operator, tokens⟩, c => if (operator? c).isSome then none else gapStep tokens c
  | ⟨.name text, tokens⟩, c =>
    if isNameChar c then some ⟨.name (text ++ [c]), tokens⟩
    else gapStep (tokens ++ [.name (String.ofList text)]) c
  | ⟨.numeral text, tokens⟩, c =>
    if continuesNumeral text c then some ⟨.numeral (text ++ [c]), tokens⟩
    else if isNumeral text then gapStep (tokens ++ [.numeral (String.ofList text)]) c
    else none
  | ⟨.string value, tokens⟩, c =>
    if c = '"' then some ⟨.gap, tokens ++ [.text (String.ofList value)]⟩
    else if c = '\\' then some ⟨.escape value, tokens⟩
    else if endsLine c then none
    else some ⟨.string (value ++ [c]), tokens⟩
  | ⟨.escape value, tokens⟩, c =>
    if c = 'u' then some ⟨.code value 0 3, tokens⟩
    else (escaped? c).map fun d => ⟨.string (value ++ [d]), tokens⟩
  | ⟨.code value point more, tokens⟩, c => do
    let point := point * 16 + (← Json.Reader.hexDigit? c)
    match more with
    | more + 1 => some ⟨.code value point more, tokens⟩
    | 0 => if point.isValidChar then some ⟨.string (value ++ [Char.ofNat point]), tokens⟩ else none

/-- The tokens that have been read, if the text may end here. -/
def State.finished? : State → Option (List Token)
  | ⟨.gap, tokens⟩ | ⟨.operator, tokens⟩ => some tokens
  | ⟨.name text, tokens⟩ => some (tokens ++ [.name (String.ofList text)])
  | ⟨.numeral text, tokens⟩ =>
    if isNumeral text then some (tokens ++ [.numeral (String.ofList text)]) else none
  | _ => none

end Lexer

/-- **The tokens of a text**, if it consists of tokens. -/
def tokens? (cs : List Char) : Option (List Token) := do
  let state ← cs.foldlM Lexer.step ⟨.gap, []⟩
  state.finished?

namespace Lexer

/-! ## Complete tokens -/

/-- The character ends a name or a numeral, and no other token is in its way. -/
def endsWord (c : Char) : Bool :=
  c = ' ' || c = '(' || c = ')' || c = ','

/-- **The tokens are complete** if the text ends here, and also if a character comes that ends a
word. -/
structure Ends (s : State) (tokens : List Token) : Prop where
  finished : s.finished? = some tokens
  step : ∀ c, endsWord c = true → step s c = gapStep tokens c

theorem ends_gap (tokens : List Token) : Ends ⟨.gap, tokens⟩ tokens :=
  ⟨rfl, fun _ _ => rfl⟩

/-- What ends a word is not part of one. -/
theorem endsWord_cases {c : Char} (h : endsWord c = true) :
    isNameChar c = false ∧ ∀ text, continuesNumeral text c = false := by
  simp only [endsWord, Bool.or_eq_true, decide_eq_true_eq] at h
  rcases h with ((rfl | rfl) | rfl) | rfl <;> exact ⟨rfl, fun _ => rfl⟩

theorem ends_name (text : List Char) (tokens : List Token) :
    Ends ⟨.name text, tokens⟩ (tokens ++ [.name (String.ofList text)]) := by
  refine ⟨rfl, fun c hc => ?_⟩
  show (if isNameChar c = true then _ else _) = _
  rw [if_neg (by rw [(endsWord_cases hc).1]; exact Bool.false_ne_true)]

theorem ends_numeral {text : List Char} (h : isNumeral text = true) (tokens : List Token) :
    Ends ⟨.numeral text, tokens⟩ (tokens ++ [.numeral (String.ofList text)]) := by
  refine ⟨if_pos h, fun c hc => ?_⟩
  show (if continuesNumeral text c = true then _ else if isNumeral text = true then _ else _) = _
  rw [if_neg (by rw [(endsWord_cases hc).2]; exact Bool.false_ne_true), if_pos h]

end Lexer

open Lexer

/-- **A text consists of these tokens**, whatever tokens stand in front of it, if its end is not
joined to a longer word by what follows. -/
def Lexes (cs : List Char) (tokens : List Token) : Prop :=
  ∀ before, ∃ s, Runs Lexer.step ⟨.gap, before⟩ cs s ∧ Ends s (before ++ tokens)

theorem Lexes.tokens? {cs : List Char} {tokens : List Token} (h : Lexes cs tokens) :
    tokens? cs = some tokens := by
  obtain ⟨s, hruns, hends⟩ := h []
  unfold Script.tokens?
  rw [show cs.foldlM Lexer.step ⟨.gap, []⟩ = some s from hruns]
  exact hends.finished

namespace Lexes

variable {cs ds : List Char} {ts us : List Token}

theorem nil : Lexes [] [] := by
  intro before
  refine ⟨_, Runs.nil _, ?_⟩
  rw [List.append_nil]
  exact ends_gap before

/-- **Two texts with a character between them** that ends a word. -/
theorem separated (c : Char) (separator : List Token) (h : Lexes cs ts) (hc : endsWord c = true)
    (hseparator : ∀ before, gapStep before c = some ⟨.gap, before ++ separator⟩)
    (hds : Lexes ds us) : Lexes (cs ++ c :: ds) (ts ++ separator ++ us) := by
  intro before
  obtain ⟨s, hruns, hends⟩ := h before
  obtain ⟨s', hruns', hends'⟩ := hds (before ++ (ts ++ separator))
  have hstep : Lexer.step s c = some ⟨.gap, before ++ (ts ++ separator)⟩ := by
    rw [hends.step c hc, hseparator, List.append_assoc]
  refine ⟨s', hruns.append (Runs.cons hstep hruns'), ?_⟩
  rw [← List.append_assoc]
  exact hends'

/-- A text with a parenthesis behind it. -/
theorem closed (h : Lexes cs ts) : Lexes (cs ++ [')']) (ts ++ [.closing]) := by
  have hclosed := h.separated ')' [.closing] rfl (fun _ => rfl) nil
  rwa [List.append_nil] at hclosed

/-- A text in parentheses. -/
theorem group (h : Lexes cs ts) : Lexes ('(' :: cs ++ [')']) (.opening :: ts ++ [.closing]) :=
  nil.separated '(' [.opening] rfl (fun _ => rfl) h.closed

/-- An operator, with a blank behind it. -/
theorem sign (op : Operator) (h : Lexes cs ts) :
    Lexes (op.symbol.toList ++ ' ' :: cs) (.sign op :: ts) := by
  intro before
  obtain ⟨s, hruns, hends⟩ := h (before ++ [.sign op])
  have hsymbol : Runs Lexer.step ⟨.gap, before⟩ op.symbol.toList
      ⟨.operator, before ++ [.sign op]⟩ := by
    cases op <;> rfl
  refine ⟨s, hsymbol.append (Runs.cons rfl hruns), ?_⟩
  rw [List.append_assoc] at hends
  exact hends

/-- Two texts with an operator between them, and blanks around it. -/
theorem operation (op : Operator) (h : Lexes cs ts) (hds : Lexes ds us) :
    Lexes (cs ++ ' ' :: (op.symbol.toList ++ ' ' :: ds)) (ts ++ .sign op :: us) := by
  have hblank : ∀ before, gapStep before ' ' = some ⟨.gap, before ++ []⟩ := by
    intro before
    rw [List.append_nil]
    rfl
  have hall := h.separated ' ' [] rfl hblank (hds.sign op)
  rwa [List.append_nil] at hall

end Lexes

/-! ## Names and numerals -/

/-- A character of a name starts a word. -/
theorem gapStep_of_isNameChar {c : Char} (h : isNameChar c = true) (tokens : List Token) :
    gapStep tokens c
      = some ⟨if c.isDigit then .numeral [c] else .name [c], tokens⟩ := by
  have hne : ∀ d, isNameChar d = false → c ≠ d := by
    rintro d hd rfl
    rw [hd] at h
    exact Bool.false_ne_true h
  unfold gapStep
  rw [if_neg (hne _ rfl), if_neg (hne _ rfl), if_neg (hne _ rfl), if_neg (hne _ rfl),
    if_neg (hne _ rfl)]
  by_cases hdigit : c.isDigit = true
  · rw [if_pos hdigit, if_pos hdigit]
  · rw [if_neg hdigit, if_pos h, if_neg hdigit]

/-- A name goes on with characters of names. -/
theorem runs_name {text cs : List Char} (h : ∀ c ∈ cs, isNameChar c = true)
    (tokens : List Token) :
    Runs Lexer.step ⟨.name text, tokens⟩ cs ⟨.name (text ++ cs), tokens⟩ := by
  induction cs generalizing text with
  | nil =>
    rw [List.append_nil]
    exact Runs.nil _
  | cons c cs ih =>
    obtain ⟨hc, hcs⟩ := List.forall_mem_cons.mp h
    have hrest : Runs Lexer.step ⟨.name (text ++ [c]), tokens⟩ cs
        ⟨.name (text ++ [c] ++ cs), tokens⟩ := ih hcs
    rw [← List.append_cons] at hrest
    exact Runs.cons (if_pos hc) hrest

/-- **A name is one token.** -/
theorem lexes_name {cs : List Char} (h : isName cs = true) :
    Lexes cs [.name (String.ofList cs)] := by
  intro before
  cases cs with
  | nil => cases h
  | cons c cs =>
    simp only [isName, Bool.and_eq_true, Bool.not_eq_true', List.all_eq_true] at h
    obtain ⟨⟨hdigit, hc⟩, hcs⟩ := h
    have hstep : Lexer.step ⟨.gap, before⟩ c = some ⟨.name [c], before⟩ := by
      show gapStep before c = _
      rw [gapStep_of_isNameChar hc, hdigit]
      rfl
    exact ⟨_, Runs.cons hstep (runs_name hcs before), ends_name (c :: cs) before⟩

theorem isNameChar_of_isDigit {c : Char} (h : c.isDigit = true) : isNameChar c = true := by
  simp [isNameChar, Char.isAlphanum, h]

/-- **The text goes on with a numeral** that has been read in part. -/
def Continues (text cs : List Char) : Prop :=
  ∀ tokens, Runs Lexer.step ⟨.numeral text, tokens⟩ cs ⟨.numeral (text ++ cs), tokens⟩

namespace Continues

variable {text cs ds : List Char} {c : Char}

theorem nil (text : List Char) : Continues text [] := by
  intro tokens
  rw [List.append_nil]
  exact Runs.nil _

theorem cons (hc : continuesNumeral text c = true) (h : Continues (text ++ [c]) cs) :
    Continues text (c :: cs) := by
  intro tokens
  have hrest := h tokens
  rw [← List.append_cons] at hrest
  exact Runs.cons (if_pos hc) hrest

theorem append (h : Continues text cs) (h' : Continues (text ++ cs) ds) :
    Continues text (cs ++ ds) := by
  intro tokens
  rw [← List.append_assoc]
  exact (h tokens).append (h' tokens)

theorem of_isDigit (h : ∀ c ∈ cs, c.isDigit = true) : Continues text cs := by
  induction cs generalizing text with
  | nil => exact nil text
  | cons c cs ih =>
    obtain ⟨hc, hcs⟩ := List.forall_mem_cons.mp h
    refine cons ?_ (ih hcs)
    simp [continuesNumeral, isNameChar_of_isDigit hc]

theorem of_isDigits (h : isDigits cs = true) : Continues text cs :=
  of_isDigit (List.all_eq_true.mp (Bool.and_eq_true_iff.mp h).2)

theorem of_isExponent (h : isExponent cs = true) : Continues text cs := by
  cases cs with
  | nil => exact nil text
  | cons c cs =>
    obtain ⟨hc, hdigits⟩ := Bool.and_eq_true_iff.mp h
    have hmark : c = 'e' ∨ c = 'E' := by simpa using hc
    refine cons (by rcases hmark with rfl | rfl <;> rfl) ?_
    split at hdigits
    · next hsign =>
      cases cs with
      | nil => simp at hsign
      | cons sign ds =>
        -- A sign belongs to the numeral only because of the letter in front of it.
        refine cons ?_ (of_isDigits hdigits)
        have hsign' : sign = '+' ∨ sign = '-' := by simpa using hsign
        simp [continuesNumeral, hsign', hmark]
    · exact of_isDigits hdigits

theorem of_isFraction (h : isFraction cs = true) : Continues text cs := by
  unfold isFraction at h
  split at h
  · next rest =>
    obtain ⟨hdigits, hexponent⟩ := Bool.and_eq_true_iff.mp h
    refine cons (by simp [continuesNumeral]) ?_
    rw [← List.takeWhile_append_dropWhile (p := Char.isDigit) (l := rest)]
    exact append (of_isDigits hdigits) (of_isExponent hexponent)
  · exact of_isExponent h

end Continues

/-- A numeral starts with a digit and goes on from it. -/
theorem exists_of_isNumeral {cs : List Char} (h : isNumeral cs = true) :
    ∃ c rest, cs = c :: rest ∧ c.isDigit = true ∧ Continues [c] rest := by
  obtain ⟨hwhole, hfraction⟩ := Bool.and_eq_true_iff.mp h
  have hdigits := (Bool.and_eq_true_iff.mp hwhole).1
  have hsplit := List.takeWhile_append_dropWhile (p := Char.isDigit) (l := cs)
  generalize cs.takeWhile Char.isDigit = whole at hdigits hsplit
  cases whole with
  | nil => cases hdigits
  | cons c ds =>
    have hall := List.all_eq_true.mp (Bool.and_eq_true_iff.mp hdigits).2
    obtain ⟨hc, hds⟩ := List.forall_mem_cons.mp hall
    refine ⟨c, _, hsplit.symm, hc, ?_⟩
    exact (Continues.of_isDigit hds).append (Continues.of_isFraction hfraction)

/-- **A numeral is one token.** -/
theorem lexes_numeral {cs : List Char} (h : isNumeral cs = true) :
    Lexes cs [.numeral (String.ofList cs)] := by
  obtain ⟨c, rest, rfl, hc, hrest⟩ := exists_of_isNumeral h
  intro before
  have hstep : Lexer.step ⟨.gap, before⟩ c = some ⟨.numeral [c], before⟩ := by
    show gapStep before c = _
    rw [gapStep_of_isNameChar (isNameChar_of_isDigit hc), hc]
    rfl
  exact ⟨_, Runs.cons hstep (hrest before), ends_numeral h before⟩

/-- A numeral with a minus in front of it is two tokens. -/
theorem lexes_negative {cs : List Char} (h : isNumeral cs = true) :
    Lexes ('-' :: cs) [.sign .subtract, .numeral (String.ofList cs)] := by
  obtain ⟨c, rest, rfl, hc, hrest⟩ := exists_of_isNumeral h
  intro before
  have hoperator : operator? c = none := by
    unfold operator?
    split <;> first | rfl | cases hc
  have hstep : Lexer.step ⟨.operator, before ++ [.sign .subtract]⟩ c
      = some ⟨.numeral [c], before ++ [.sign .subtract]⟩ := by
    show (if (operator? c).isSome = true then _ else gapStep _ c) = _
    rw [hoperator, gapStep_of_isNameChar (isNameChar_of_isDigit hc), hc]
    rfl
  refine ⟨_, Runs.cons rfl (Runs.cons hstep (hrest _)), ?_⟩
  have hends := ends_numeral h (before ++ [.sign .subtract])
  rw [List.append_assoc] at hends
  exact hends

/-! ## String literals -/

/-- **A character is read out of its written form.** -/
theorem runs_literalChar (value : List Char) (c : Char) (tokens : List Token) :
    Runs Lexer.step ⟨.string value, tokens⟩ (literalChar c) ⟨.string (value ++ [c]), tokens⟩ := by
  unfold literalChar
  -- First the characters that are escaped, in the order of the definition.
  iterate 8
    split
    · next h =>
      subst h
      rfl
  · next hquote hbackslash hfeed hreturn _ _ hline hparagraph =>
    refine Runs.single ?_
    show (if c = '"' then _ else if c = '\\' then _ else if endsLine c = true then _ else _) = _
    rw [if_neg hquote, if_neg hbackslash, if_neg]
    simp [endsLine, hfeed, hreturn, hline, hparagraph]

theorem runs_flatMap_literalChar (value cs : List Char) (tokens : List Token) :
    Runs Lexer.step ⟨.string value, tokens⟩ (cs.flatMap literalChar)
      ⟨.string (value ++ cs), tokens⟩ := by
  induction cs generalizing value with
  | nil =>
    rw [List.append_nil]
    exact Runs.nil _
  | cons c cs ih =>
    have hrest := ih (value ++ [c])
    rw [← List.append_cons] at hrest
    rw [List.flatMap_cons]
    exact (runs_literalChar value c tokens).append hrest

/-- **A string literal is one token**, with the text that was written as its value. -/
theorem lexes_literal (s : String) : Lexes (literal s).toList [.text s] := by
  intro before
  have hend : Lexer.step ⟨.string s.toList, before⟩ '"' = some ⟨.gap, before ++ [.text s]⟩ := by
    show some (State.mk .gap (before ++ [.text (String.ofList s.toList)])) = _
    rw [String.ofList_toList]
  have hvalue := runs_flatMap_literalChar [] s.toList before
  refine ⟨_, ?_, ends_gap _⟩
  unfold literal
  rw [String.toList_ofList]
  exact Runs.cons rfl (hvalue.append (Runs.single hend))

end Pagewright.Script
