import LeastSquares.LinalgError
import LeastSquares.Scalar

/-!
# Dense matrices

A matrix keeps its entries in one flat vector, column after column: entry `(i, j)` of an `m × n`
matrix stands at position `j * m + i`. The shape is part of the type, so every access is in range.

`AnyMatrix` is a matrix whose shape is known only when the program runs. Its constructors refuse
ragged rows and shapes too large to store, and its accesses answer `none` out of range.
-/

set_option autoImplicit false

namespace LeastSquares

structure DenseMatrix (α : Type) (m n : Nat) where
  data : Vector α (m * n)

namespace DenseMatrix

variable {α : Type} {m n : Nat}

private theorem offset_lt {i j : Nat} (hi : i < m) (hj : j < n) : j * m + i < m * n :=
  calc j * m + i < j * m + m := by omega
    _ = (j + 1) * m := by rw [Nat.add_mul, Nat.one_mul]
    _ ≤ n * m := Nat.mul_le_mul_right m hj
    _ = m * n := Nat.mul_comm n m

def offset (i : Fin m) (j : Fin n) : Fin (m * n) :=
  ⟨j.val * m + i.val, offset_lt i.isLt j.isLt⟩

def rowAt (k : Fin (m * n)) : Fin m :=
  ⟨k.val % m, Nat.mod_lt _ (Nat.pos_of_mul_pos_right (Nat.lt_of_le_of_lt (Nat.zero_le _) k.isLt))⟩

def colAt (k : Fin (m * n)) : Fin n := ⟨k.val / m, Nat.div_lt_of_lt_mul k.isLt⟩

def get (A : DenseMatrix α m n) (i : Fin m) (j : Fin n) : α := A.data (offset i j)

@[specialize] def ofFn (f : Fin m → Fin n → α) : DenseMatrix α m n :=
  ⟨Vector.ofFn fun k => f (rowAt k) (colAt k)⟩

def ofCols (cols : Vector (Vector α m) n) : DenseMatrix α m n := ofFn fun i j => cols j i

def replicate (v : α) : DenseMatrix α m n := ⟨Vector.replicate _ v⟩

def zeros [Zero α] : DenseMatrix α m n := replicate 0

def col (A : DenseMatrix α m n) (j : Fin n) : Vector α m := Vector.ofFn fun i => A.get i j

def toCols (A : DenseMatrix α m n) : Vector (Vector α m) n := Vector.ofFn A.col

def set (A : DenseMatrix α m n) (i : Fin m) (j : Fin n) (v : α) : DenseMatrix α m n :=
  ⟨A.data.set (offset i j) v (offset i j).isLt⟩

def setCol (A : DenseMatrix α m n) (j : Fin n) (v : Vector α m) : DenseMatrix α m n :=
  Fin.foldl m (fun A i => A.set i j (v i)) A

def fill (_A : DenseMatrix α m n) (v : α) : DenseMatrix α m n := replicate v

def swapCols (A : DenseMatrix α m n) (a b : Fin n) : DenseMatrix α m n :=
  Fin.foldl m (fun A i =>
    let p := offset i a
    let q := offset i b
    ⟨A.data.swap p q p.isLt q.isLt⟩) A

/-! ## What the storage holds -/

theorem rowAt_offset (i : Fin m) (j : Fin n) : rowAt (offset i j) = i := by
  apply Fin.ext
  simp [rowAt, offset, Nat.mod_eq_of_lt i.isLt]

theorem colAt_offset (i : Fin m) (j : Fin n) : colAt (offset i j) = j := by
  have hm : 0 < m := Nat.lt_of_le_of_lt (Nat.zero_le _) i.isLt
  apply Fin.ext
  simp only [colAt, offset]
  rw [Nat.mul_comm, Nat.mul_add_div hm, Nat.div_eq_of_lt i.isLt, Nat.add_zero]

theorem offset_eq_iff {i i' : Fin m} {j j' : Fin n} :
    offset i j = offset i' j' ↔ i' = i ∧ j' = j := by
  constructor
  · intro same
    have row := congrArg rowAt same
    have column := congrArg colAt same
    rw [rowAt_offset, rowAt_offset] at row
    rw [colAt_offset, colAt_offset] at column
    exact ⟨row.symm, column.symm⟩
  · rintro ⟨rfl, rfl⟩
    rfl

@[simp] theorem get_ofFn (f : Fin m → Fin n → α) (i : Fin m) (j : Fin n) :
    (ofFn f).get i j = f i j := by
  simp [get, ofFn, rowAt_offset, colAt_offset]

@[simp] theorem get_replicate (v : α) (i : Fin m) (j : Fin n) :
    (replicate v : DenseMatrix α m n).get i j = v := by
  simp [get, replicate]

theorem get_set (A : DenseMatrix α m n) (i i' : Fin m) (j j' : Fin n) (v : α) :
    (A.set i j v).get i' j' = if i' = i ∧ j' = j then v else A.get i' j' := by
  simp only [get, set, Vector.get_set, offset_eq_iff]

end DenseMatrix

/-! ## Matrices of any shape -/

structure AnyMatrix (α : Type) where
  {nrows : Nat}
  {ncols : Nat}
  entries : DenseMatrix α nrows ncols

namespace AnyMatrix

variable {α : Type}

def zeros [Zero α] (nrows ncols : Nat) : Except LinalgError (AnyMatrix α) := do
  checkAllocatable (nrows * ncols)
  return ⟨(DenseMatrix.zeros : DenseMatrix α nrows ncols)⟩

def ofFn (nrows ncols : Nat) (f : Nat → Nat → α) : Except LinalgError (AnyMatrix α) := do
  checkAllocatable (nrows * ncols)
  return ⟨(DenseMatrix.ofFn fun i j => f i j : DenseMatrix α nrows ncols)⟩

def widthOfRows (rows : List (Array α)) : Nat := (rows.head?.map Array.size).getD 0

/-- The matrix with the given rows, or the first row whose length differs from that of the first. -/
def ofRows [Zero α] (rows : List (Array α)) : Except LinalgError (AnyMatrix α) := do
  let width := widthOfRows rows
  rows.forM fun row => checkLength row.size width
  ofFn rows.length width fun i j => (rows[i]?.bind (·[j]?)).getD 0

def cols (A : AnyMatrix α) : List (List α) := A.entries.toCols.toList.map Vector.toList

def get? (A : AnyMatrix α) (i j : Nat) : Option α :=
  if h : i < A.nrows ∧ j < A.ncols then some (A.entries.get ⟨i, h.1⟩ ⟨j, h.2⟩) else none

def set? (A : AnyMatrix α) (i j : Nat) (v : α) : Option (AnyMatrix α) :=
  if h : i < A.nrows ∧ j < A.ncols then some ⟨A.entries.set ⟨i, h.1⟩ ⟨j, h.2⟩ v⟩ else none

/-- Whether `j` names an empty column. A matrix without rows stores nothing, so there every column
is empty, also one behind the last. A column ends where the next one starts, so the number of the
next one has to be an index too. -/
def EmptyCol (A : AnyMatrix α) (j : Nat) : Prop := A.nrows = 0 ∧ Addressable (j + 1)

instance (A : AnyMatrix α) (j : Nat) : Decidable (A.EmptyCol j) :=
  inferInstanceAs (Decidable (_ ∧ _))

def col? (A : AnyMatrix α) (j : Nat) : Option (Array α) :=
  if h : j < A.ncols then some (A.entries.col ⟨j, h⟩).toArray
  else if A.EmptyCol j then some #[] else none

def setCol? (A : AnyMatrix α) (j : Nat) (v : Array α) : Option (AnyMatrix α) :=
  if hv : v.size = A.nrows then
    if h : j < A.ncols then some ⟨A.entries.setCol ⟨j, h⟩ (hv ▸ v.toVector)⟩
    else if A.EmptyCol j then some A else none
  else none

/-- Exchanges two columns. Nothing moves, and so nothing is out of range, where the two are the same
or the matrix has no rows. -/
def swapCols? (A : AnyMatrix α) (a b : Nat) : Option (AnyMatrix α) :=
  if a = b ∨ A.nrows = 0 then some A
  else if h : a < A.ncols ∧ b < A.ncols then some ⟨A.entries.swapCols ⟨a, h.1⟩ ⟨b, h.2⟩⟩
  else none

def fill (A : AnyMatrix α) (v : α) : AnyMatrix α := ⟨A.entries.fill v⟩

/-- Same shape and equal entries; an entry that differs from itself equals none. -/
def equal [BEq α] (A B : AnyMatrix α) : Bool :=
  A.nrows == B.nrows && A.ncols == B.ncols && A.entries.data.toArray == B.entries.data.toArray

end AnyMatrix

end LeastSquares
