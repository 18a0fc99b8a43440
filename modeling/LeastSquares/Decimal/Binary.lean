/-!
# The exact value of a double

A finite double is a whole mantissa times a power of two. Everything the library prints is decided
on these two numbers, in exact arithmetic.
-/

set_option autoImplicit false

namespace LeastSquares.Decimal

/-- A positive fraction, not in lowest terms. -/
structure Ratio where
  num : Nat
  den : Nat

/-- `mantissa * 2 ^ exponent`. -/
structure Dyadic where
  mantissa : Nat
  exponent : Int

inductive Binary64 where
  | nan
  | infinite (negative : Bool)
  | zero (negative : Bool)
  | finite (negative : Bool) (magnitude : Dyadic)

def fractionBits : Nat := 52

/-- The exponent of the least subnormal double. -/
def leastExponent : Int := -1074

def Binary64.ofBits (bits : Nat) : Binary64 :=
  let unit := Nat.pow 2 fractionBits
  let fraction := bits % unit
  let biased : Nat := bits / unit % 2048
  let negative := decide (Nat.pow 2 63 ≤ bits)
  if biased = 2047 then if fraction = 0 then .infinite negative else .nan
  else if biased = 0 then
    if fraction = 0 then .zero negative else .finite negative ⟨fraction, leastExponent⟩
  else .finite negative ⟨unit + fraction, leastExponent + (biased : Int) - 1⟩

def Binary64.ofFloat (x : Float) : Binary64 := .ofBits x.toBits.toNat

namespace Dyadic

def toRatio (x : Dyadic) : Ratio :=
  if 0 ≤ x.exponent then ⟨x.mantissa * Nat.pow 2 x.exponent.toNat, 1⟩
  else ⟨x.mantissa, Nat.pow 2 (-x.exponent).toNat⟩

end Dyadic

namespace Ratio

def shift (x : Ratio) (k : Int) : Ratio :=
  if 0 ≤ k then ⟨x.num * Nat.pow 10 k.toNat, x.den⟩
  else ⟨x.num, x.den * Nat.pow 10 (-k).toNat⟩

/-- The whole number nearest to `x`; of two, the even one. -/
def round (x : Ratio) : Nat :=
  let whole := x.num / x.den
  let twice := 2 * (x.num % x.den)
  if twice < x.den then whole
  else if x.den < twice then whole + 1
  else if whole % 2 = 0 then whole else whole + 1

end Ratio

def digitCount (k : Nat) : Nat :=
  if k = 0 then 0 else digitCount (k / 10) + 1

/-- The exponent of the leading decimal digit: the `e` with `10 ^ e ≤ x < 10 ^ (e + 1)`. -/
def Ratio.leadingExponent (x : Ratio) : Int :=
  if x.den ≤ x.num then (digitCount (x.num / x.den) : Int) - 1
  else -(digitCount ((x.den - 1) / x.num) : Int)

end LeastSquares.Decimal
