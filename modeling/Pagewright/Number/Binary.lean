/-!
# Doubles as exact binary numbers

A finite double is a whole number times a power of two. Everything this library decides about the
size of a number – which notation it is printed in, which decimals round to it – is decided on
that pair in whole-number arithmetic, so no rounding enters the decision.
-/

namespace Pagewright

/-- A number `mantissa · 2 ^ exponent` that is not negative. -/
structure Binary where
  mantissa : Nat
  exponent : Int
  deriving DecidableEq, Repr

namespace Binary

/-- The value as a fraction: its numerator. -/
def numerator (b : Binary) : Nat :=
  b.mantissa * Nat.pow 2 b.exponent.toNat

/-- The value as a fraction: its denominator, a power of two. -/
def denominator (b : Binary) : Nat :=
  Nat.pow 2 (-b.exponent).toNat

/-- The smaller of two values, compared exactly. -/
def blt (a b : Binary) : Bool :=
  a.numerator * b.denominator < b.numerator * a.denominator

/-- The value is a whole number. -/
def isWhole (b : Binary) : Bool :=
  b.numerator % b.denominator = 0

/-- The whole part of the value. -/
def whole (b : Binary) : Nat :=
  b.numerator / b.denominator

end Binary

/-- What the 64 bits of a double stand for. -/
inductive Double where
  | nan
  | infinite (negative : Bool)
  | finite (negative : Bool) (magnitude : Binary)
  deriving DecidableEq, Repr

namespace Double

/-- The double written by these 64 bits: a sign, eleven bits of exponent and 52 bits of fraction,
with a hidden leading one unless the exponent field is zero. -/
def ofBits (bits : Nat) : Double :=
  let negative : Bool := bits / Nat.pow 2 63 % 2 = 1
  let field : Nat := bits / Nat.pow 2 52 % Nat.pow 2 11
  let fraction : Nat := bits % Nat.pow 2 52
  if field = Nat.pow 2 11 - 1 then
    if fraction = 0 then .infinite negative else .nan
  else if field = 0 then .finite negative ⟨fraction, -1074⟩
  else .finite negative ⟨Nat.pow 2 52 + fraction, (field : Int) - 1075⟩

/-- The double behind a floating-point value. -/
def ofFloat (x : Float) : Double :=
  ofBits x.toBits.toNat

end Double

end Pagewright
