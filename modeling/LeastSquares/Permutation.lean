import LeastSquares.DenseMatrix

/-!
# Column permutations

A pivoted factorization reorders columns. Position `k` of the reordered matrix holds the column
`indices[k]` of the caller's matrix. `gather` reads a vector in the caller's order and writes it in
pivot order, `scatter` moves it back; both stop at the shorter of the pivot-order side and the
permutation, and both are undefined where they would step outside the other side.
-/

set_option autoImplicit false

namespace LeastSquares

structure Permutation (n : Nat) where
  indices : Vector (Fin n) n

namespace Permutation

variable {α : Type} {n : Nat}

def identity : Permutation n := ⟨Vector.ofFn fun k => k⟩

def get (P : Permutation n) (pos : Fin n) : Fin n := P.indices pos

def swap (P : Permutation n) (a b : Fin n) : Permutation n := ⟨P.indices.swap a b a.isLt b.isLt⟩

def reset (_P : Permutation n) : Permutation n := identity

def toList (P : Permutation n) : List Nat := P.indices.toList.map Fin.val

/-! ## Positions that may be out of range -/

def get? (P : Permutation n) (pos : Nat) : Option Nat :=
  if h : pos < n then some (P.get ⟨pos, h⟩) else none

def swap? (P : Permutation n) (a b : Nat) : Option (Permutation n) :=
  if h : a < n ∧ b < n then some (P.swap ⟨a, h.1⟩ ⟨b, h.2⟩) else none

/-! ## Moving vectors between the two orders -/

/-- Writes `source[indices[k]]` to `pivoted[k]` at every position `k` that both sides have. -/
def gather (P : Permutation n) (source pivoted : Array α) : Option (Array α) :=
  (P.indices.toList.zipIdx.take pivoted.size).foldlM
    (fun out slot => source[slot.1.val]?.map (out.setIfInBounds slot.2)) pivoted

def scatter (P : Permutation n) (pivoted target : Array α) : Option (Array α) :=
  (P.indices.toList.zip pivoted.toList).foldlM
    (fun out entry => if entry.1.val < out.size then some (out.setIfInBounds entry.1 entry.2)
      else none) target

/-- The full-length vector `v`, given in pivot order, in the caller's order. -/
def restore [Zero α] (P : Permutation n) (v : Vector α n) : Vector α n :=
  Fin.foldl n (fun out k =>
    let index := P.get k
    out.set index (v k) index.isLt) (Vector.replicate n 0)

end Permutation

def Permutation.allocate (len : Nat) : Except LinalgError (Permutation len) := do
  checkAllocatable len
  return Permutation.identity

end LeastSquares
