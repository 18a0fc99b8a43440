import LeastSquares.QR.Factorization

/-!
# Triangular solves

Substitution on the leading rows and columns of an upper triangular table: backward for the system
with the table, forward for the one with its transpose. Both read a full-length right-hand side,
use its first `bound` entries, and leave zeros from `bound` on.
-/

set_option autoImplicit false

namespace LeastSquares

variable {α : Type} [Scalar α] {m n : Nat}

/-- Solves `U y = rhs`, last row first. -/
@[specialize] def backSubstitute (bound : Nat) (U : Fin n → Fin n → α) (rhs : Vector α n) :
    Vector α n :=
  Fin.foldr n (fun j y =>
    if j.val < bound then
      let rest := Scalar.subOver (rhs j) (fun i => j < i && i.val < bound) fun i => U j i * y i
      y.set j (rest / U j j) j.isLt
    else y) (Vector.replicate n 0)

/-- Solves `U' y = rhs`, first row first. -/
@[specialize] def forwardSubstitute (bound : Nat) (U : Fin n → Fin n → α) (rhs : Vector α n) :
    Vector α n :=
  Fin.foldl n (fun y j =>
    if j.val < bound then
      let rest := Scalar.subOver (rhs j) (fun i => i < j) fun i => U i j * y i
      y.set j (rest / U j j) j.isLt
    else y) (Vector.replicate n 0)

namespace Factorization

/-- Solves with the leading `rank × rank` block of `R`. The right-hand side is in pivot order, the
solution in the caller's order, zero for the columns beyond the rank. -/
@[specialize] def rSolve (F : Factorization α m n) (c : Vector α n) : Vector α n :=
  F.perm.restore (backSubstitute F.rank F.r c)

@[specialize] def rtSolve (F : Factorization α m n) (c : Vector α n) : Vector α n :=
  forwardSubstitute F.rank F.r c

end Factorization

end LeastSquares
