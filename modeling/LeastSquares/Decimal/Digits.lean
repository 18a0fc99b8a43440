import LeastSquares.Decimal.Binary

/-!
# Decimal digits of a double

Two ways to choose the digits that stand for a double. `rounded` keeps a given number of digits and
rounds the exact value, a half going to the even neighbour. `shortest` keeps as few digits as read
back as the same double, and of the numerals with so many digits the nearest to the exact value.
-/

set_option autoImplicit false

namespace LeastSquares.Decimal

/-- The digits of `0.d₁d₂d₃… * 10 ^ (exponent + 1)`, without a leading zero. -/
structure Digits where
  digits : List Char
  exponent : Int

def Digits.ofWhole (whole : Nat) (lastExponent : Int) : Digits :=
  let digits := Nat.toDigits 10 whole
  { digits, exponent := lastExponent + digits.length - 1 }

def Digits.trim (x : Digits) : Digits :=
  { x with digits := (x.digits.reverse.dropWhile (· == '0')).reverse }

/-- The nearest numeral with `count` digits. Where rounding carries into a new digit, the last digit
goes. -/
def rounded (count : Nat) (x : Ratio) : Digits :=
  let exponent := x.leadingExponent
  let whole := (x.shift (count - 1 - exponent)).round
  let numeral := Digits.ofWhole whole (exponent - count + 1)
  { numeral with digits := numeral.digits.take count }

/-- The reals that round to a double, in quarters of the last place of its mantissa. -/
structure Interval where
  low : Nat
  high : Nat
  closed : Bool

/-- Half a place on either side, with the ends if the mantissa is even. Below a power of two the
doubles are twice as close, so there it is a quarter of a place. -/
def Dyadic.interval (x : Dyadic) : Interval :=
  { low := if x.mantissa = Nat.pow 2 fractionBits then 4 * x.mantissa - 1 else 4 * x.mantissa - 2
    high := 4 * x.mantissa + 2
    closed := x.mantissa % 2 == 0 }

def Interval.contains (I : Interval) (num den k : Nat) : Bool :=
  if I.closed then decide (I.low * num ≤ k * den) && decide (k * den ≤ I.high * num)
  else decide (I.low * num < k * den) && decide (k * den < I.high * num)

/-- The multiple of `10 ^ -places` in the interval that is nearest to the double, the larger of two,
if there is one. Only the two neighbours of the double can be. -/
def Dyadic.onGrid? (x : Dyadic) (places : Int) : Option Nat :=
  let I := x.interval
  let unit := (Dyadic.mk 1 (x.exponent - 2)).toRatio.shift places
  let value := 4 * x.mantissa * unit.num
  let below := value / unit.den
  match I.contains unit.num unit.den below, I.contains unit.num unit.den (below + 1) with
  | true, true =>
      if 2 * (value % unit.den) < unit.den then some below else some (below + 1)
  | true, false => some below
  | false, true => some (below + 1)
  | false, false => none

def enoughDigits : Nat := 17

/-- The numeral with the fewest digits that reads back as `x`. -/
def Dyadic.shortest (x : Dyadic) : Digits :=
  let exponent := x.toRatio.leadingExponent
  let found := (List.range enoughDigits).findSome? fun further : Nat =>
    let places : Int := further - exponent
    (x.onGrid? places).map fun whole => Digits.ofWhole whole (-places)
  (found.getD (rounded enoughDigits x.toRatio)).trim

end LeastSquares.Decimal
