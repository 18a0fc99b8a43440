import LeastSquares.DenseMatrix
import LeastSquares.QR.Reflector

/-!
# Reduction to triangular form with column pivoting

Step `k` brings the column with the largest remaining norm to position `k`, turns its rows `k` and
below into a reflector, and applies that reflector to the columns behind it. The reduction stops at
the first pivot whose remaining norm is negligible beside the norm the column came with. A stopped
step has moved its pivot to position `k` and changed nothing else.

Each column carries its own bookkeeping, so a pivot moves all of it at once: where the column came
from, its norm, and the square of the norm of its rows from the current step on. That square is
lowered by the entry each step finishes, and computed afresh when cancellation has eaten most of
its digits since it was last computed.
-/

set_option autoImplicit false

namespace LeastSquares

structure PivotColumn (α : Type) (m n : Nat) where
  entries : Vector α m
  source : Fin n
  norm : α
  /-- The squared norm of the rows that are not finished. -/
  remaining : α
  /-- The value of `remaining` when it was last computed from the entries. -/
  reference : α

structure Reduction (α : Type) (m n : Nat) where
  cols : Vector (PivotColumn α m n) n
  diag : Vector α n

structure Reduced (α : Type) (m n : Nat) extends Reduction α m n where
  rank : Nat
  rank_le : rank ≤ min m n

abbrev stepRow {m n : Nat} (k : Fin (min m n)) : Fin m := k.castLE (Nat.min_le_left m n)

abbrev stepCol {m n : Nat} (k : Fin (min m n)) : Fin n := k.castLE (Nat.min_le_right m n)

variable {α : Type} [Scalar α] {m n : Nat}

namespace PivotColumn

@[specialize] def ofColumn (w : Vector α m) (source : Fin n) : PivotColumn α m n :=
  let square := Scalar.sumSquares (fun _ => true) w
  { entries := w, source, norm := Scalar.sqrt square, remaining := square, reference := square }

/-- Takes row `k` out of the remaining norm. A column whose reference is zero is left alone. -/
@[specialize] def finishRow (c : PivotColumn α m n) (k : Fin m) : PivotColumn α m n :=
  if 0 < c.reference then
    let top := c.entries k
    let lowered := Scalar.max (c.remaining - top * top) 0
    if 0.05 * (lowered / c.reference) ≤ Scalar.epsilon then
      let square := Scalar.sumSquares (fun i => k < i) c.entries
      { c with remaining := square, reference := square }
    else { c with remaining := lowered }
  else c

@[specialize] def reflect (v : Vector α m) (k : Fin m) (c : PivotColumn α m n) :
    PivotColumn α m n :=
  { c with entries := Reflector.apply 0 v k c.entries }.finishRow k

end PivotColumn

namespace Reduction

/-- What a remaining norm is compared with, as a fraction of the column's own norm. -/
def tolerance (m n : Nat) : α := 2.0 * ((max m n : Nat) : α) * Scalar.epsilon

@[specialize] def ofMatrix (A : DenseMatrix α m n) : Reduction α m n :=
  { cols := Vector.ofFn fun j => .ofColumn (A.col j) j, diag := Vector.replicate n 0 }

/-- The column from position `k` on with the largest remaining norm, the first of equal ones. -/
@[specialize] def pivot (S : Reduction α m n) (k : Fin n) : Fin n :=
  Fin.foldl n (fun best j =>
    if k < j ∧ (S.cols best).remaining < (S.cols j).remaining then j else best) k

@[specialize] def bringPivot (S : Reduction α m n) (k : Fin n) : Reduction α m n :=
  let pivot := S.pivot k
  { S with cols := S.cols.swap k pivot k.isLt pivot.isLt }

@[specialize] def exhausted (S : Reduction α m n) (k : Fin (min m n)) : Bool :=
  let c := S.cols (stepCol k)
  let norm := Reflector.tailNorm c.entries (stepRow k)
  norm == 0 || decide (norm ≤ tolerance m n * c.norm)

/-- Reflects with column `k`: the columns behind it lose their rows below `k`, and minus the signed
norm of the column becomes entry `k` of the diagonal. -/
@[specialize] def eliminate (S : Reduction α m n) (k : Fin (min m n)) : Reduction α m n :=
  let row := stepRow k
  let col := stepCol k
  let c := S.cols col
  let norm := Reflector.signedLike (c.entries row) (Reflector.tailNorm c.entries row)
  let v := Reflector.normalize norm c.entries row
  { cols := Vector.ofFn fun j =>
      if j = col then { c with entries := v }
      else if col < j then (S.cols j).reflect v row
      else S.cols j
    diag := S.diag.set col (-norm) col.isLt }

@[specialize] def reduceFrom : (t k : Nat) → k + t = min m n → Reduction α m n → Reduced α m n
  | 0, k, h, S => { S with rank := k, rank_le := by omega }
  | t + 1, k, h, S =>
    let step : Fin (min m n) := ⟨k, by omega⟩
    let S := S.bringPivot (stepCol step)
    if S.exhausted step then { S with rank := k, rank_le := by omega }
    else reduceFrom t (k + 1) (by omega) (S.eliminate step)

end Reduction

@[specialize] def DenseMatrix.reduce (A : DenseMatrix α m n) : Reduced α m n :=
  Reduction.reduceFrom (min m n) 0 (Nat.zero_add _) (Reduction.ofMatrix A)

end LeastSquares
