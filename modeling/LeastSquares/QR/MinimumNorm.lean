import LeastSquares.QR.Triangular

/-!
# The minimum-norm solution of a rank-deficient system

When `R` has fewer independent rows than columns, `R x = c` has many solutions. Factoring the
transpose, `R' P₂ = Q₂ R₂`, turns the system into `R₂' z = P₂' c`, and the shortest solution is
`Q₂ z`. The transpose is padded with zero columns, which pivoting reaches after all others.
-/

set_option autoImplicit false

namespace LeastSquares.Factorization

variable {α : Type} [Scalar α] {m n : Nat}

@[specialize] def lower (F : Factorization α m n) : DenseMatrix α n n := .ofFn fun j i => F.r i j

@[specialize] def inner (F : Factorization α m n) : Factorization α n n := .ofMatrix F.lower

/-- `P₂' rhs`, with zeros where the inner pivots reach the padding. -/
@[specialize] def innerRhs (F : Factorization α m n) (I : Factorization α n n) (rhs : Vector α n) :
    Vector α n :=
  Vector.ofFn fun k => if (I.perm.get k).val < F.rank then rhs (I.perm.get k) else 0

/-- The minimum-norm solution of `R P' x = c` through the inner factorization `I`, which fails if
that found more independent rows than `R` has. -/
@[specialize] def minimumNormVia (F : Factorization α m n) (I : Factorization α n n)
    (c : Vector α n) : Except LinalgError (Vector α n) :=
  if F.rank < I.rank then .error (.dimensionMismatch I.rank F.rank)
  else .ok (F.perm.restore (I.qMul (I.rtSolve (F.innerRhs I c))))

@[specialize] def minimumNorm (F : Factorization α m n) (c : Vector α n) :
    Except LinalgError (Vector α n) :=
  if F.rank = 0 then .ok (Vector.replicate n 0) else F.minimumNormVia F.inner c

end LeastSquares.Factorization
