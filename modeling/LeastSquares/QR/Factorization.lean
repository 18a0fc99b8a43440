import LeastSquares.Permutation
import LeastSquares.QR.Reduction

/-!
# The pivoted QR factorization

A factorization keeps one packed matrix: strictly above the diagonal the triangular factor `R`, in
and below it the reflectors whose product is `Q`. The diagonal of `R` is kept apart. With `P` the
column permutation, `A P = Q R` up to the block that an early stop leaves behind.

Only the first `rank` rows of `R` count; the others are zero.
-/

set_option autoImplicit false

namespace LeastSquares

structure Factorization (α : Type) (m n : Nat) where
  packed : DenseMatrix α m n
  /-- The diagonal of `R`, in pivot order, zero from the rank on. -/
  diag : Vector α n
  perm : Permutation n
  norms : Vector α n
  rank : Nat
  rank_le : rank ≤ min m n

namespace Factorization

variable {α : Type} [Scalar α] {m n : Nat}

@[specialize] def ofMatrix (A : DenseMatrix α m n) : Factorization α m n :=
  let reduced := A.reduce
  { packed := .ofCols (reduced.cols.map (·.entries))
    diag := reduced.diag
    perm := ⟨reduced.cols.map (·.source)⟩
    norms := Vector.ofFn fun j => Scalar.norm (fun _ => true) (A.col j)
    rank := reduced.rank
    rank_le := reduced.rank_le }

def blank : Factorization α m n :=
  { packed := .zeros
    diag := Vector.replicate n 0
    perm := .identity
    norms := Vector.replicate n 0
    rank := 0
    rank_le := Nat.zero_le _ }

@[specialize] def r (F : Factorization α m n) (i j : Fin n) : α :=
  if h : i.val < F.rank ∧ i ≤ j then
    if i = j then F.diag j
    else F.packed.get ⟨i, Nat.lt_of_lt_of_le h.1 (Nat.le_trans F.rank_le (Nat.min_le_left m n))⟩ j
  else 0

def r? (F : Factorization α m n) (i j : Nat) : Option α :=
  if F.rank ≤ i ∨ j < i then some 0
  else if hi : i < n then if hj : j < n then some (F.r ⟨i, hi⟩ ⟨j, hj⟩) else none
  else none

@[specialize] def upper (F : Factorization α m n) : DenseMatrix α n n := .ofFn F.r

/-- Whether the last entry of the diagonal says that no column was left over. -/
@[specialize] def fullRank (F : Factorization α m n) : Bool :=
  if h : 0 < n then F.diag ⟨n - 1, by omega⟩ != 0 else false

/-! ## The orthogonal factor -/

@[specialize] def reflect (F : Factorization α m n) (k : Fin F.rank) (b : Vector α m) :
    Vector α m :=
  let step : Fin (min m n) := k.castLE F.rank_le
  Reflector.apply (-0) (F.packed.col (stepCol step)) (stepRow step) b

/-- `Q' b`. -/
@[specialize] def qtMul (F : Factorization α m n) (b : Vector α m) : Vector α m :=
  Fin.foldl F.rank (fun b k => F.reflect k b) b

/-- `Q b`. -/
@[specialize] def qMul (F : Factorization α m n) (b : Vector α m) : Vector α m :=
  Fin.foldr F.rank (fun k b => F.reflect k b) b

/-! ## The triangular factor -/

@[specialize] def rMulRow (F : Factorization α m n) (x : Vector α n) (i : Fin n) : α :=
  Scalar.addOver 0 (fun j => i ≤ j) fun j => F.r i j * x (F.perm.get j)

/-- The first `n` entries of `R P' x`, zero from the rank on. -/
@[specialize] def rMul (F : Factorization α m n) (x : Vector α n) : Vector α n :=
  Vector.ofFn fun i => if i.val < F.rank then F.rMulRow x i else 0

end Factorization

end LeastSquares
