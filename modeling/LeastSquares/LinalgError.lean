/-!
# Errors of the linear algebra kernel

The ways in which a dense operation can fail, their wording, and the two checks that raise most of
them: a length that has to match, and a number of elements that has to fit in memory.
-/

set_option autoImplicit false

namespace LeastSquares

inductive LinalgError where
  | outOfMemory
  | dimensionMismatch (expected actual : Nat)
  /-- No column offered a usable pivot. -/
  | singularMatrix (rank ncols : Nat)
deriving DecidableEq, Repr

namespace LinalgError

def message : LinalgError → String
  | outOfMemory => "out of memory"
  | dimensionMismatch expected actual =>
      "length " ++ toString actual ++ " does not match expected " ++ toString expected
  | singularMatrix rank ncols =>
      "singular matrix: rank " ++ toString rank ++ " of " ++ toString ncols ++ " columns"

end LinalgError

def checkLength (actual expected : Nat) : Except LinalgError Unit :=
  if actual = expected then .ok () else .error (.dimensionMismatch expected actual)

def checkAtLeast (actual expected : Nat) : Except LinalgError Unit :=
  if actual < expected then .error (.dimensionMismatch expected actual) else .ok ()

/-! ## Memory

An element takes eight bytes and an address has sixty-four bits. One buffer may take less than half
of the address space, so it holds fewer than `2⁶⁰` elements. -/

def elementBytes : Nat := 8

def addressSpace : Nat := Nat.pow 2 64

/-- Whether a number can be an index, or a size in bytes. -/
def Addressable (number : Nat) : Prop := number < addressSpace

instance (number : Nat) : Decidable (Addressable number) :=
  inferInstanceAs (Decidable (_ < _))

/-- Whether one buffer can hold `count` elements. -/
def Allocatable (count : Nat) : Prop := count * elementBytes < addressSpace / 2

instance (count : Nat) : Decidable (Allocatable count) :=
  inferInstanceAs (Decidable (_ < _))

def checkAllocatable (count : Nat) : Except LinalgError Unit :=
  if Allocatable count then .ok () else .error .outOfMemory

/-- Whether an allocator that gives away `budget` more buffers has one for each of these sizes. It
is not asked for an empty one. -/
def Suffices (budget : Nat) (sizes : List Nat) : Prop := sizes.countP (0 < ·) ≤ budget

instance (budget : Nat) (sizes : List Nat) : Decidable (Suffices budget sizes) :=
  inferInstanceAs (Decidable (_ ≤ _))

def checkBudget (budget : Nat) (sizes : List Nat) : Except LinalgError Unit :=
  if Suffices budget sizes then .ok () else .error .outOfMemory

theorem suffices_length (sizes : List Nat) : Suffices sizes.length sizes :=
  List.countP_le_length

theorem checkLength_eq_ok {actual expected : Nat} :
    checkLength actual expected = .ok () ↔ actual = expected := by
  unfold checkLength; split <;> simp_all

theorem checkAtLeast_eq_ok {actual expected : Nat} :
    checkAtLeast actual expected = .ok () ↔ expected ≤ actual := by
  unfold checkAtLeast; split <;> simp_all

end LeastSquares
