import LeastSquares.Storage

/-!
# Matrices on flat storage

The operations of a matrix as programs on its storage, which holds one column after another. The
position of an entry is computed from its row and its column with numbers that may overflow, and a
column is lent out as a slice. Nothing here knows that two entries have two positions, or that a
slice is the column it is taken for: that is something to prove, as it is that no position is out of
range.
-/

set_option autoImplicit false

namespace LeastSquares

open Storage

variable {α σ : Type}

namespace Storage

def checked (number : Nat) : Option Nat := if Addressable number then some number else none

def slice (cells : Array α) (first last : Nat) : Option (Array α) :=
  if first ≤ last ∧ last ≤ cells.size then some (cells.extract first last) else none

def overlay (cells : Array α) (first : Nat) (list : Array α) : Option (Array α) :=
  ascend 0 list.size cells fun i cells => do write cells (first + i) (← list[i]?)

end Storage

structure FlatMatrix (α : Type) where
  nrows : Nat
  ncols : Nat
  data : Array α

def DenseMatrix.storage {m n : Nat} (A : DenseMatrix α m n) : FlatMatrix α :=
  { nrows := m, ncols := n, data := A.data.toArray }

def AnyMatrix.storage (A : AnyMatrix α) : FlatMatrix α := A.entries.storage

namespace FlatMatrix

variable (S : FlatMatrix α)

def position (i j : Nat) : Option Nat := do checked ((← checked (j * S.nrows)) + i)

/-! ## Entries and columns -/

def index (i j : Nat) : Option α := do
  guard (i < S.nrows ∧ j < S.ncols)
  S.data[← S.position i j]?

def set (i j : Nat) (x : α) : Option (FlatMatrix α) := do
  guard (i < S.nrows ∧ j < S.ncols)
  return { S with data := ← write S.data (← S.position i j) x }

/-- The slice of column `j`. It is not looked at whether there is such a column. -/
def col (j : Nat) : Option (Array α) := do
  let first ← checked (j * S.nrows)
  let last ← checked ((← checked (j + 1)) * S.nrows)
  slice S.data first last

/-- Writes to the slice of column `j`. Whatever is done to a slice, it leaves a list of the same
length there. -/
def setCol (j : Nat) (list : Array α) : Option (FlatMatrix α) := do
  let column ← S.col j
  guard (list.size = column.size)
  return { S with data := ← overlay S.data (← checked (j * S.nrows)) list }

def fill (x : α) : Option (FlatMatrix α) := do
  return { S with data := ← Storage.fill S.data 0 x }

def swapCols (a b : Nat) : Option (FlatMatrix α) := do
  if a = b then return S
  let data ← ascend 0 S.nrows S.data fun i data => do
    exchange data (← S.position i a) (← S.position i b)
  return { S with data }

/-! ## Constructors -/

def zeros [Zero α] (nrows ncols : Nat) : Except LinalgError (FlatMatrix α) := do
  checkAllocatable (nrows * ncols)
  return { nrows, ncols, data := Array.replicate (nrows * ncols) 0 }

def ask (answer : Nat → Nat → σ → Option (α × σ)) (j i : Nat) (now : FlatMatrix α × σ) :
    Option (FlatMatrix α × σ) := do
  let (x, s) ← answer i j now.2
  return (← now.1.set i j x, s)

/-- Asks for one entry after another, column after column. A question may be answered from what the
answers before it have left. -/
def ofFn [Zero α] (nrows ncols : Nat) (answer : Nat → Nat → σ → Option (α × σ)) (start : σ) :
    Option (Except LinalgError (FlatMatrix α)) :=
  match zeros nrows ncols with
  | .error e => some (.error e)
  | .ok zeros => do
    let last ← ascend 0 ncols (zeros, start) fun j now => ascend 0 nrows now (ask answer j)
    return .ok last.1

def ofRows [Zero α] (rows : List (Array α)) : Option (Except LinalgError (FlatMatrix α)) :=
  let width := AnyMatrix.widthOfRows rows
  match rows.forM fun row => checkLength row.size width with
  | .error e => some (.error e)
  | .ok () => ofFn rows.length width (fun i j () => do return (← (← rows[i]?)[j]?, ())) ()

end FlatMatrix

end LeastSquares
