import LeastSquares.Scalar

/-!
# Householder reflectors

The reflector of a vector `v` that is zero above row `k` is `H = I - v v' / v_k`. It is a reflection
when `v' v = 2 v_k`, and `normalize` produces such a `v`: it divides a column by its norm, signed
like the leading entry, and adds one to that entry. So the stored vector alone determines the
reflector, and its norm need not be kept.
-/

set_option autoImplicit false

namespace LeastSquares.Reflector

variable {α : Type} [Scalar α] {m : Nat}

@[specialize] def tailNorm (w : Vector α m) (k : Fin m) : α := Scalar.norm (fun i => k ≤ i) w

@[specialize] def signedLike (lead norm : α) : α := if lead < 0 then -norm else norm

/-- The reflector that clears `w` below row `k`, `norm` being the signed norm of rows `k` and below.
Rows above `k` are kept as they are. -/
@[specialize] def normalize (norm : α) (w : Vector α m) (k : Fin m) : Vector α m :=
  Vector.ofFn fun i =>
    if i = k then w i / norm + 1 else if k < i then w i / norm else w i

/-- `H w`, for the reflector of rows `k` and below of `v`. The product `v' w` is summed from
`start`, row `k` first. -/
@[specialize] def apply (start : α) (v : Vector α m) (k : Fin m) (w : Vector α m) : Vector α m :=
  let scale := Scalar.addOver start (fun i => k ≤ i) (fun i => v i * w i) / v k
  Vector.ofFn fun i => if k ≤ i then w i - scale * v i else w i

end LeastSquares.Reflector
