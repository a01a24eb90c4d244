import Pagewright.Number.Binary

/-!
# The shortest decimal of a double

Of all decimals that round to a given double, a printer wants one with the fewest digits, and of
those the nearest to the double. The decimals that round to a double form an interval around it,
which reaches half way to its neighbours. For one digit, two digits and so on, only the two
decimals of that many digits next to the double can be the answer, and the first number of digits
at which one of them lies in the interval is the least.
-/

namespace Pagewright

/-- A decimal `0.d₁d₂…dₖ · 10 ^ point`. -/
structure Decimal where
  digits : List Char
  point : Int
  deriving DecidableEq, Repr

/-- Which of two equally near decimals of the same length is taken. -/
inductive Tie where
  | up
  | toEven
  deriving DecidableEq, Repr

namespace Binary

/-- The distance to the lower end of the rounding interval, in quarters of the last place: half a
place, or a quarter where the next double below has a smaller exponent. -/
def lowerQuarters (b : Binary) : Nat :=
  if b.mantissa = Nat.pow 2 52 ∧ -1074 < b.exponent then 1 else 2

/-- The lower end of the rounding interval. -/
def lower (b : Binary) : Binary :=
  ⟨4 * b.mantissa - b.lowerQuarters, b.exponent - 2⟩

/-- The upper end of the rounding interval. -/
def upper (b : Binary) : Binary :=
  ⟨4 * b.mantissa + 2, b.exponent - 2⟩

/-- How many powers of ten stand between the point and the first digit of a fraction below one:
the number of zeros, counted with at most `fuel` steps. -/
def leadingZeros (numerator denominator : Nat) : Nat → Nat
  | 0 => 0
  | fuel + 1 =>
    if denominator ≤ 10 * numerator then 0
    else leadingZeros (10 * numerator) denominator fuel + 1

/-- The place of the point: the value is at least `10 ^ (point - 1)` and less than
`10 ^ point`. The smallest double has 323 zeros after the point. -/
def point (b : Binary) : Int :=
  if b.denominator ≤ b.numerator then (Nat.toDigits 10 b.whole).length
  else -(leadingZeros b.numerator b.denominator 400 : Nat)

end Binary

/-- The decimal grid of the numbers `k · 10 ^ scale`. -/
structure Grid where
  scale : Int

namespace Grid

/-- The number of grid steps in one unit, if there is at least one. -/
def perUnit (g : Grid) : Nat :=
  Nat.pow 10 (-g.scale).toNat

/-- The length of a grid step in units, if it is at least one. -/
def step (g : Grid) : Nat :=
  Nat.pow 10 g.scale.toNat

/-- The last grid point that is not above the value. -/
def below (g : Grid) (b : Binary) : Nat :=
  b.numerator * g.perUnit / (g.step * b.denominator)

/-- The order of the grid point `k` and a value, compared exactly. -/
def compare (g : Grid) (k : Nat) (b : Binary) : Ordering :=
  Ord.compare (k * g.step * b.denominator) (b.numerator * g.perUnit)

/-- The grid point rounds to the value. The ends of the interval round to it when its mantissa is
even. -/
def rounds (g : Grid) (k : Nat) (b : Binary) : Bool :=
  let low := g.compare k b.lower
  let high := g.compare k b.upper
  if b.mantissa % 2 = 0 then low.isGE && high.isLE else low.isGT && high.isLT

/-- Of two neighbouring grid points around a value, the nearer one. -/
def nearer (g : Grid) (tie : Tie) (k : Nat) (b : Binary) : Nat :=
  match Ord.compare ((2 * k + 1) * g.step * b.denominator) (2 * b.numerator * g.perUnit) with
  | .lt => k + 1
  | .gt => k
  | .eq =>
    match tie with
    | .up => k + 1
    | .toEven => if k % 2 = 0 then k else k + 1

/-- The grid point that stands for the value, if one of its two neighbours rounds to it. -/
def pick (g : Grid) (tie : Tie) (b : Binary) : Option Nat :=
  let k := g.below b
  match g.rounds k b, g.rounds (k + 1) b with
  | true, true => some (g.nearer tie k b)
  | true, false => some k
  | false, true => some (k + 1)
  | false, false => none

end Grid

namespace Decimal

/-- The digits without the zeros they end in. -/
def stripZeros (digits : List Char) : List Char :=
  (digits.reverse.dropWhile (· = '0')).reverse

/-- The decimal `k · 10 ^ scale`. -/
def ofGrid (k : Nat) (scale : Int) : Decimal :=
  let digits := Nat.toDigits 10 k
  ⟨stripZeros digits, scale + digits.length⟩

/-- The first decimal found with `count` digits or up to `fuel` more. -/
def search (tie : Tie) (b : Binary) (point : Int) (count : Nat) : Nat → Decimal
  | 0 => ofGrid ((Grid.mk (point - count)).below b) (point - count)
  | fuel + 1 =>
    match (Grid.mk (point - count)).pick tie b with
    | some k => ofGrid k (point - count)
    | none => search tie b point (count + 1) fuel

/-- The shortest decimal that rounds to a positive double, and the nearest of those. Seventeen
digits tell any two doubles apart. -/
def shortest (tie : Tie) (b : Binary) : Decimal :=
  search tie b b.point 1 17

end Decimal

end Pagewright
