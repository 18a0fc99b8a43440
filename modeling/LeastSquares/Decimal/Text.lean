import LeastSquares.Decimal.Digits

/-!
# Doubles as text

Four forms: scientific with a given number of places, fixed with a given number of places, plain,
and tagged. The plain form is positional at any size and has no point for a whole number. The tagged
form never looks like an integer: it has a point or an exponent, and it takes the exponent for very
small and very large magnitudes.

A sign is shown for every negative number, zero included, and never for what is not a number.
-/

set_option autoImplicit false

namespace LeastSquares.Decimal

def signed (zero : String) (magnitude : Dyadic → String) (x : Float) : String :=
  let sign (negative : Bool) : String := if negative then "-" else ""
  match Binary64.ofFloat x with
  | .nan => "NaN"
  | .infinite negative => sign negative ++ "inf"
  | .zero negative => sign negative ++ zero
  | .finite negative x => sign negative ++ magnitude x

def zeros (count : Nat) : String := String.ofList (List.replicate count '0')

def fraction (digits : List Char) : String :=
  if digits.isEmpty then "" else "." ++ String.ofList digits

namespace Digits

def withExponent (x : Digits) : String :=
  String.ofList (x.digits.take 1) ++ fraction (x.digits.drop 1) ++ "e" ++ toString x.exponent

/-- The digits about a point at its place, with zeros where it lies outside them. A whole number is
followed by `whole`. -/
def positional (whole : String) (x : Digits) : String :=
  if x.exponent < 0 then "0." ++ zeros (-x.exponent - 1).toNat ++ String.ofList x.digits
  else
    let front := x.exponent.toNat + 1
    if x.digits.length ≤ front then
      String.ofList x.digits ++ zeros (front - x.digits.length) ++ whole
    else String.ofList (x.digits.take front) ++ fraction (x.digits.drop front)

end Digits

def scientific (places : Nat) : Float → String :=
  signed ("0" ++ fraction (List.replicate places '0') ++ "e0") fun x =>
    (rounded (places + 1) x.toRatio).withExponent

def fixed (places : Nat) : Float → String :=
  signed ("0" ++ fraction (List.replicate places '0')) fun x =>
    let digits := Nat.toDigits 10 (x.toRatio.shift places).round
    let padded := List.replicate (places + 1 - digits.length) '0' ++ digits
    let front := padded.length - places
    String.ofList (padded.take front) ++ fraction (padded.drop front)

/-- The shortest digits, positional: `5`, `0.0000001`. -/
def plain : Float → String := signed "0" fun x => x.shortest.positional ""

/-- The shortest digits, with an exponent below `10⁻⁴` and from `10¹⁶` on: `5.0`, `1e-7`. -/
def tagged : Float → String :=
  signed "0.0" fun x =>
    let digits := x.shortest
    if -4 ≤ digits.exponent ∧ digits.exponent < 16 then digits.positional ".0"
    else digits.withExponent

end LeastSquares.Decimal
