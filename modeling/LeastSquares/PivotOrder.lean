import LeastSquares.Storage

/-!
# Column orders on flat storage

The operations of a column permutation as programs on a list of indices, which nothing keeps in
range or apart. A vector is moved between the two orders by walking two lists side by side, up to
the end of the shorter one.
-/

set_option autoImplicit false

namespace LeastSquares

open Storage

variable {α : Type}

def Storage.deliver (count : Nat) (position : Nat → Option Nat) (value : Nat → Option α)
    (cells : Array α) : Option (Array α) :=
  ascend 0 count cells fun k cells => do write cells (← position k) (← value k)

structure PivotOrder where
  indices : Array Nat

def Permutation.storage {n : Nat} (P : Permutation n) : PivotOrder :=
  { indices := (P.indices.map Fin.val).toArray }

namespace PivotOrder

variable (S : PivotOrder)

def identity (len : Nat) : Except LinalgError PivotOrder := do
  checkAllocatable len
  return { indices := Array.range len }

def reset : Option PivotOrder := do
  let indices ← ascend 0 S.indices.size S.indices fun position indices =>
    write indices position position
  return { indices }

def swap (a b : Nat) : Option PivotOrder := do
  return { indices := ← exchange S.indices a b }

def gather (source pivoted : Array α) : Option (Array α) :=
  deliver (min pivoted.size S.indices.size) some (fun k => do source[← S.indices[k]?]?) pivoted

def scatter (pivoted target : Array α) : Option (Array α) :=
  deliver (min pivoted.size S.indices.size) (S.indices[·]?) (pivoted[·]?) target

end PivotOrder

end LeastSquares
