import LeastSquares.QR.Buffers
import LeastSquares.Storage

/-!
# Reducing in place

The pivoted reduction as a program on storage, in the order in which cells are read and written. The
matrix is overwritten, and each column's bookkeeping stands in arrays beside it, of which three are
scratch space. Nothing here relies on what an array holds when the call begins: that every cell is
written before it is read is something to prove, as it is that no position is out of range.
-/

set_option autoImplicit false

namespace LeastSquares

open Storage

variable {α : Type} [Scalar α]

namespace InPlace

variable {β ρ : Type}

def attempt (before : β) (check : Except LinalgError Unit)
    (program : Unit → Option (InPlace β ρ)) : Option (InPlace β ρ) :=
  match check with
  | .ok () => program ()
  | .error e => some { buffers := before, result := .error e }

def succeed (after : β) : InPlace β Unit := { buffers := after, result := .ok () }

def map {γ : Type} (f : β → γ) (run : InPlace β ρ) : InPlace γ ρ :=
  { buffers := f run.buffers, result := run.result }

end InPlace

def AnyMatrix.sumSquares? (A : AnyMatrix α) (j first : Nat) : Option α := do
  let column ← A.col? j
  guard (first ≤ column.size)
  ascend first column.size (-0) fun i sum => do
    let v ← column[i]?
    return sum + v * v

/-- The storage of a reduction: the matrix, the order of its columns, and for each column the norm
it came with and the two squares that track the norm of its unfinished rows. -/
structure Reducing (α : Type) where
  matrix : AnyMatrix α
  {permLength : Nat}
  perm : Permutation permLength
  original : Array α
  remaining : Array α
  reference : Array α
  diag : Array α

namespace Reducing

def pivot (S : Reducing α) (n k : Nat) : Option Nat :=
  ascend (k + 1) n k fun j pivot => do
    let candidate ← S.remaining[j]?
    let best ← S.remaining[pivot]?
    return if best < candidate then j else pivot

def bringPivot (S : Reducing α) (n k : Nat) : Option (Reducing α) := do
  let pivot ← S.pivot n k
  if pivot = k then return S
  let matrix ← S.matrix.swapCols? k pivot
  let perm ← S.perm.swap? k pivot
  let original ← exchange S.original k pivot
  let remaining ← exchange S.remaining k pivot
  let reference ← exchange S.reference k pivot
  return { S with matrix, perm, original, remaining, reference }

/-- Turns column `k` into a reflector, `norm` being the signed norm of its rows from `k` on. -/
def normalize (A : AnyMatrix α) (m k : Nat) (norm : α) : Option (AnyMatrix α) := do
  let A ← ascend k m A fun i A => do A.set? i k ((← A.get? i k) / norm)
  A.set? k k ((← A.get? k k) + 1)

def reflect (A : AnyMatrix α) (m k j : Nat) : Option (AnyMatrix α) := do
  let lead ← A.get? k k
  let sum ← ascend k m 0 fun i sum => do return sum + (← A.get? i k) * (← A.get? i j)
  let scale := sum / lead
  ascend k m A fun i A => do
    let v ← A.get? i k
    A.set? i j ((← A.get? i j) - scale * v)

def finishRow (S : Reducing α) (k j : Nat) : Option (Reducing α) := do
  if 0 < (← S.reference[j]?) then
    let top ← S.matrix.get? k j
    let lowered := Scalar.max ((← S.remaining[j]?) - top * top) 0
    let remaining ← write S.remaining j lowered
    if 0.05 * (lowered / (← S.reference[j]?)) ≤ Scalar.epsilon then
      let square ← S.matrix.sumSquares? j (k + 1)
      let remaining ← write remaining j square
      let reference ← write S.reference j square
      return { S with remaining, reference }
    return { S with remaining }
  return S

def reflectColumn (m k j : Nat) (S : Reducing α) : Option (Reducing α) := do
  let matrix ← reflect S.matrix m k j
  finishRow { S with matrix } k j

def eliminate (S : Reducing α) (m n k : Nat) (norm : α) : Option (Reducing α) := do
  let norm := if (← S.matrix.get? k k) < 0 then -norm else norm
  let matrix ← normalize S.matrix m k norm
  let S ← ascend (k + 1) n { S with matrix } (reflectColumn m k)
  let diag ← write S.diag k (-norm)
  return { S with diag }

def reduceFrom (m n : Nat) : (t k : Nat) → Reducing α → Option (Nat × Reducing α)
  | 0, k, S => some (k, S)
  | t + 1, k, S => do
    let S ← S.bringPivot n k
    let norm := Scalar.sqrt (← S.matrix.sumSquares? k k)
    if norm == 0 || norm ≤ Reduction.tolerance m n * (← S.original[k]?) then return (k, S)
    reduceFrom m n t (k + 1) (← S.eliminate m n k norm)

def measure (n : Nat) (S : Reducing α) : Option (Reducing α) :=
  ascend 0 n S fun j S => do
    let square ← S.matrix.sumSquares? j 0
    let original ← write S.original j (Scalar.sqrt square)
    let remaining ← write S.remaining j square
    let reference ← write S.reference j square
    return { S with original, remaining, reference }

end Reducing

namespace FactorBuffers

variable (B : FactorBuffers α)

def checkFirst : Except LinalgError Unit := do
  checkLength B.diag.size B.matrix.ncols
  checkLength B.permLength B.matrix.ncols

def checkNorms : Except LinalgError Unit :=
  match B.norms with
  | some norms => checkLength norms.size B.matrix.ncols
  | none => .ok ()

def factorStored (stack : Array α) : Option (InPlace (FactorBuffers α) Nat) :=
  let m := B.matrix.nrows
  let n := B.matrix.ncols
  InPlace.attempt B B.checkFirst fun _ => do
    let (original, stack) ← carve stack n fun _ => some 0
    let (remaining, stack) ← carve stack n fun _ => some 0
    let (reference, _) ← carve stack n fun _ => some 0
    let S ← Reducing.measure n
      { matrix := B.matrix, perm := B.perm, diag := B.diag, original, remaining, reference }
    InPlace.attempt B B.checkNorms fun _ => do
      let norms := B.norms.map fun _ => S.original
      let diag ← fill S.diag 0 0
      let (rank, S) ← Reducing.reduceFrom m n (min m n) 0 { S with perm := S.perm.reset, diag }
      return { buffers := { matrix := S.matrix, diag := S.diag, perm := S.perm, norms }
               result := .ok rank }

end FactorBuffers

end LeastSquares
