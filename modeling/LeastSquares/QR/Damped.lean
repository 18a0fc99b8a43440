import LeastSquares.QR.Triangular

/-!
# Damped least squares

Solves `[R; D] x = [c; 0]` in the least-squares sense for a diagonal `D` without factoring again.
Each nonzero entry of `D` is a row with one entry, in pivot order; Givens rotations fold it into the
triangle, against one row after another, and carry the right-hand side along. The updated triangle
`S` satisfies `S' S = R' R + (P' D P)²`.
-/

set_option autoImplicit false

namespace LeastSquares

variable {α : Type} [Scalar α] {m n : Nat}

/-- The cosine and sine of the rotation that clears `b` against `a`. -/
@[specialize] def givens (a b : α) : α × α :=
  if Scalar.abs a < Scalar.abs b then
    let cotan := a / b
    let sin := 0.5 / Scalar.sqrt (0.25 + 0.25 * cotan * cotan)
    (sin * cotan, sin)
  else
    let tan := b / a
    let cos := 0.5 / Scalar.sqrt (0.25 + 0.25 * tan * tan)
    (cos, cos * tan)

structure Triangle (α : Type) (n : Nat) where
  rows : Vector (Vector α n) n
  rhs : Vector α n

/-- A triangle into which the row `extra`, with right-hand side `carried`, is being folded. -/
structure Folding (α : Type) (n : Nat) extends Triangle α n where
  extra : Vector α n
  carried : α

namespace Folding

@[specialize] def rotate (S : Folding α n) (k : Fin n) : Folding α n :=
  if S.extra k == 0 then S
  else
    let row := S.rows k
    let (cos, sin) := givens (row k) (S.extra k)
    { rows := S.rows.set k (Vector.ofFn fun i =>
        if k ≤ i then cos * row i + sin * S.extra i else row i) k.isLt
      rhs := S.rhs.set k (cos * S.rhs k + sin * S.carried) k.isLt
      extra := Vector.ofFn fun i =>
        if k < i then -sin * row i + cos * S.extra i else S.extra i
      carried := -sin * S.rhs k + cos * S.carried }

end Folding

namespace Triangle

@[specialize] def fold (S : Triangle α n) (j : Fin n) (d : α) : Triangle α n :=
  if d == 0 then S
  else
    let start : Folding α n :=
      { S with extra := Vector.ofFn fun i => if i = j then d else 0, carried := 0 }
    (Fin.foldl n (fun S k => if j ≤ k then S.rotate k else S) start).toTriangle

@[specialize] def entry (S : Triangle α n) (i j : Fin n) : α := S.rows i j

/-- The number of rows before the first zero on the diagonal. -/
@[specialize] def leading (S : Triangle α n) : Nat :=
  Fin.foldr n (fun j bound => if S.entry j j == 0 then j.val else bound) n

@[specialize] def solve (S : Triangle α n) : Vector α n :=
  backSubstitute S.leading S.entry S.rhs

@[specialize] def toMatrix (S : Triangle α n) : DenseMatrix α n n := .ofFn S.entry

end Triangle

namespace Factorization

@[specialize] def triangle (F : Factorization α m n) (rhs : Vector α n) : Triangle α n :=
  { rows := Vector.ofFn fun i => Vector.ofFn fun j => F.r i j
    rhs := Vector.ofFn fun i => if i.val < F.rank then rhs i else 0 }

/-- The triangle `S` of the system damped by `d`, which is in the caller's column order. -/
@[specialize] def dampedTriangle (F : Factorization α m n) (c d : Vector α n) : Triangle α n :=
  Fin.foldl n (fun S j => S.fold j (d (F.perm.get j))) (F.triangle c)

@[specialize] def dampedSolve (F : Factorization α m n) (c d : Vector α n) : Vector α n :=
  F.perm.restore (F.dampedTriangle c d).solve

end Factorization

end LeastSquares
