import Pagewright.Text.Split

/-!
# Numbers, truth values and times in TOML

Settings hold none of these, but a list may, beyond the places that settings read; so they are
recognised without being computed. A number may have underscores between its digits and no leading
zeros; dates and times must exist in the calendar and on the clock.
-/

namespace Pagewright.Toml

/-- Digits with underscores between them, and nothing else. -/
def isDigits (digit : Char → Bool) (cs : List Char) : Bool :=
  (Text.splitAt '_' cs).all fun piece => !piece.isEmpty && piece.all digit

/-- The number that digits stand for. -/
def digitsValue (base : Nat) (cs : List Char) : Nat :=
  (cs.filter (· ≠ '_')).foldl
    (fun n c =>
      base * n + if c.isDigit then c.toNat - '0'.toNat else c.toLower.toNat - 'a'.toNat + 10) 0

/-- The rest after a sign, and whether it was a minus. -/
def afterSign : List Char → Bool × List Char
  | '+' :: rest => (false, rest)
  | '-' :: rest => (true, rest)
  | rest => (false, rest)

/-- A whole number in decimal digits, without a sign. -/
def isUnsigned (cs : List Char) : Bool :=
  isDigits Char.isDigit cs && (cs = ['0'] || cs.head? ≠ some '0')

/-- The digit of base sixteen. -/
def isHexDigit (c : Char) : Bool :=
  c.isDigit || ('a' ≤ c && c ≤ 'f') || ('A' ≤ c && c ≤ 'F')

/-- Whole numbers stay below this, one bit of 64 being the sign. -/
def integerBound : Nat := Nat.pow 2 63

/-- A whole number that fits in 64 bits. -/
def isInteger (cs : List Char) : Bool :=
  match cs with
  | '0' :: 'x' :: rest => isDigits isHexDigit rest && digitsValue 16 rest < integerBound
  | '0' :: 'o' :: rest =>
    isDigits (fun c => '0' ≤ c && c ≤ '7') rest && digitsValue 8 rest < integerBound
  | '0' :: 'b' :: rest =>
    isDigits (fun c => c = '0' || c = '1') rest && digitsValue 2 rest < integerBound
  | _ =>
    let (negative, rest) := afterSign cs
    isUnsigned rest && digitsValue 10 rest < integerBound + if negative then 1 else 0

/-- A decimal number with a fraction, an exponent or both, or one of the special ones. -/
def isFloat (cs : List Char) : Bool :=
  let (_, unsigned) := afterSign cs
  if unsigned = "inf".toList ∨ unsigned = "nan".toList then true
  else
    let mantissa := unsigned.takeWhile fun c => c ≠ 'e' && c ≠ 'E'
    let exponent := unsigned.drop mantissa.length
    let whole := mantissa.takeWhile (· ≠ '.')
    let fraction := mantissa.drop whole.length
    isUnsigned whole && (!fraction.isEmpty || !exponent.isEmpty) &&
      (fraction.isEmpty || isDigits Char.isDigit (fraction.drop 1)) &&
      (exponent.isEmpty || isDigits Char.isDigit (afterSign (exponent.drop 1)).2)

/-- Two digits that stand for a number in a range. -/
def isTwoDigits (low high : Nat) (a b : Char) : Bool :=
  a.isDigit && b.isDigit &&
    low ≤ digitsValue 10 [a, b] && digitsValue 10 [a, b] ≤ high

/-- The number of days of a month. -/
def daysOf (year month : Nat) : Nat :=
  if month = 2 then
    if (year % 4 = 0 ∧ year % 100 ≠ 0) ∨ year % 400 = 0 then 29 else 28
  else if month ∈ [4, 6, 9, 11] then 30
  else 31

/-- A date, and what follows it. -/
def afterDate? : List Char → Option (List Char)
  | y₁ :: y₂ :: y₃ :: y₄ :: '-' :: m₁ :: m₂ :: '-' :: d₁ :: d₂ :: rest =>
    let year := digitsValue 10 [y₁, y₂, y₃, y₄]
    let month := digitsValue 10 [m₁, m₂]
    if [y₁, y₂, y₃, y₄].all Char.isDigit ∧ isTwoDigits 1 12 m₁ m₂ ∧
        isTwoDigits 1 (daysOf year month) d₁ d₂ then
      some rest
    else none
  | _ => none

/-- A time of day, and what follows it. -/
def afterTime? : List Char → Option (List Char)
  | h₁ :: h₂ :: ':' :: m₁ :: m₂ :: ':' :: s₁ :: s₂ :: rest =>
    if isTwoDigits 0 23 h₁ h₂ ∧ isTwoDigits 0 59 m₁ m₂ ∧ isTwoDigits 0 60 s₁ s₂ then
      match rest with
      | '.' :: fraction =>
        let after := fraction.dropWhile Char.isDigit
        if after.length < fraction.length then some after else none
      | _ => some rest
    else none
  | _ => none

/-- The distance of a time zone, or nothing. -/
def isOffset : List Char → Bool
  | [] | ['Z'] | ['z'] => true
  | [sign, h₁, h₂, ':', m₁, m₂] =>
    (sign = '+' || sign = '-') && isTwoDigits 0 23 h₁ h₂ && isTwoDigits 0 59 m₁ m₂
  | _ => false

/-- A date, a time of day, or both. -/
def isTime (cs : List Char) : Bool :=
  match afterDate? cs with
  | some [] => true
  | some (mark :: rest) =>
    (mark = 'T' || mark = 't' || mark = ' ') && (afterTime? rest).any isOffset
  | none => afterTime? cs = some []

/-- A number, a truth value or a time. -/
def isScalar (cs : List Char) : Bool :=
  cs = "true".toList || cs = "false".toList || isInteger cs || isFloat cs || isTime cs

end Pagewright.Toml
