import LeastSquares.Scalar

/-!
# Limits on parameters

Each parameter may have a lower and an upper limit. `none` means that nothing is asked on that side;
where the scalars have a least and a greatest element, a missing limit is that element instead.
-/

set_option autoImplicit false

namespace LeastSquares

structure Limits (α : Type) (n : Nat) where
  lower : Vector (Option α) n
  upper : Vector (Option α) n

namespace Limits

variable {α : Type} [Scalar α] {n : Nat}

def unbounded : Limits α n :=
  { lower := Vector.replicate n Scalar.least?, upper := Vector.replicate n Scalar.greatest? }

def ofVectors (lower upper : Option (Vector α n)) : Limits α n :=
  { lower := match lower with
      | some limits => limits.map some
      | none => unbounded.lower
    upper := match upper with
      | some limits => limits.map some
      | none => unbounded.upper }

/-- The limits of parameter `p`, unless the lower one is at most the upper one or one is missing. -/
def inverted? (L : Limits α n) (p : Fin n) : Option (α × α) :=
  match L.lower p, L.upper p with
  | some lower, some upper => if lower ≤ upper then none else some (lower, upper)
  | _, _ => none

def firstInverted? (L : Limits α n) : Option (Nat × α × α) :=
  (List.finRange n).findSome? fun p => (L.inverted? p).map fun limits => (p.val, limits)

def clamp (L : Limits α n) (p : Fin n) (a : α) : α :=
  let raised := match L.lower p with
    | some limit => Scalar.max a limit
    | none => a
  match L.upper p with
  | some limit => Scalar.min raised limit
  | none => raised

def atLower (L : Limits α n) (p : Fin n) (a : α) : Bool :=
  match L.lower p with
  | some limit => a == limit
  | none => false

def atUpper (L : Limits α n) (p : Fin n) (a : α) : Bool :=
  match L.upper p with
  | some limit => a == limit
  | none => false

def exceeded? (L : Limits α n) (p : Fin n) (a : α) : Option α :=
  let below := match L.lower p with
    | some limit => if a < limit then some limit else none
    | none => none
  below <|> match L.upper p with
    | some limit => if limit < a then some limit else none
    | none => none

end Limits

end LeastSquares
