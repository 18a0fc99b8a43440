import LeastSquares.QR.Reducing

/-!
# The factorization on storage

The operations of a factorization as programs on its storage and on the caller's arrays. A stored
factorization is whatever its fields hold, so that a field may be out of date. Scratch space is lent
to a call for the time of the call, in the state in which some other call has left it.
-/

set_option autoImplicit false

namespace LeastSquares

open Storage

variable {α : Type} [Scalar α]

structure Stored (α : Type) where
  matrix : AnyMatrix α
  diag : Array α
  {permLength : Nat}
  perm : Permutation permLength
  norms : Array α
  rank : Nat

def Factorization.storage {m n : Nat} (F : Factorization α m n) : Stored α :=
  { matrix := ⟨F.packed⟩, diag := F.diag.toArray, perm := F.perm, norms := F.norms.toArray
    rank := F.rank }

def Reshaped.storage {n : Nat} (R : Reshaped α n) : Stored α :=
  { matrix := R.packed, diag := R.diag.toArray, perm := R.perm, norms := R.norms.toArray
    rank := R.rank }

/-- Solves a triangular system of `bound` rows, last row first, and leaves the solution in the
caller's column order. -/
def substitute {p : Nat} (bound : Nat) (entry : Nat → Nat → Option α) (diagonal : Nat → Option α)
    (perm : Permutation p) (rhs x : Array α) : Option (Array α) := do
  let x ← fill x 0 0
  descend 0 bound x fun j x => do
    let sum ← ascend (j + 1) bound (← rhs[j]?) fun i sum => do
      return sum - (← entry j i) * (← x[← perm.get? i]?)
    write x (← perm.get? j) (sum / (← diagonal j))

namespace Stored

def nrows (S : Stored α) : Nat := S.matrix.nrows

def ncols (S : Stored α) : Nat := S.matrix.ncols

/-- Factors the stored matrix. The rank is zero until that has succeeded. -/
def factorize (S : Stored α) (stack : Array α) : Option (InPlace (Stored α) Nat) := do
  let B : FactorBuffers α :=
    { matrix := S.matrix, diag := S.diag, perm := S.perm, norms := some S.norms }
  let { buffers, result } ← B.factorStored stack
  let rank := match result with
    | .ok rank => rank
    | .error _ => 0
  return { buffers :=
             { matrix := buffers.matrix, diag := buffers.diag, perm := buffers.perm
               norms := ← buffers.norms, rank }
           result }

def around (A : AnyMatrix α) : Stored α :=
  { matrix := A, diag := Array.replicate A.ncols 0, perm := (.identity : Permutation A.ncols)
    norms := Array.replicate A.ncols 0, rank := 0 }

def allocate (A : AnyMatrix α) (stack : Array α) : Option (InPlace (Stored α) Nat) :=
  (around A).factorize stack

def refactorWith (S : Stored α) (refill : AnyMatrix α → Option (AnyMatrix α)) (stack : Array α) :
    Option (InPlace (Stored α) Nat) := do
  let refilled := { S with matrix := ← refill S.matrix }
  let shape := do
    checkLength refilled.nrows S.nrows
    checkLength refilled.ncols S.ncols
  InPlace.attempt refilled shape fun _ => refilled.factorize stack

def r (S : Stored α) (i j : Nat) : Option α :=
  if S.rank ≤ i ∨ j < i then some 0
  else if i = j then S.diag[j]?
  else S.matrix.get? i j

/-! ### The orthogonal factor -/

def reflect (S : Stored α) (k : Nat) (b : Array α) : Option (Array α) := do
  let v ← S.matrix.col? k
  guard (k ≤ v.size ∧ k ≤ b.size)
  let last := min v.size b.size
  let dot ← ascend k last (-0) fun i sum => do return sum + (← v[i]?) * (← b[i]?)
  let scale := dot / (← v[k]?)
  ascend k last b fun i b => do write b i ((← b[i]?) - scale * (← v[i]?))

def qtMul (S : Stored α) (b : Array α) : Option (InPlace (Array α) Unit) :=
  InPlace.attempt b (checkLength b.size S.nrows) fun _ => do
    return .succeed (← ascend 0 S.rank b S.reflect)

def qMul (S : Stored α) (b : Array α) : Option (InPlace (Array α) Unit) :=
  InPlace.attempt b (checkLength b.size S.nrows) fun _ => do
    return .succeed (← descend 0 S.rank b S.reflect)

/-! ### The triangular factor -/

def rSolve (S : Stored α) (c x : Array α) : Option (InPlace (Array α) Unit) :=
  let check := do
    checkLength x.size S.ncols
    checkAtLeast c.size S.rank
    if S.rank = 0 then throw (LinalgError.singularMatrix 0 S.ncols)
  InPlace.attempt x check fun _ => do
    return .succeed (← substitute S.rank S.matrix.get? (S.diag[·]?) S.perm c x)

def rtSolve (S : Stored α) (rhs y : Array α) : Option (InPlace (Array α) Unit) :=
  InPlace.attempt y (checkAtLeast (min y.size rhs.size) S.rank) fun _ => do
    let y ← fill y 0 0
    let y ← ascend 0 S.rank y fun j y => do
      let sum ← ascend 0 j (← rhs[j]?) fun i sum => do
        return sum - (← S.matrix.get? i j) * (← y[i]?)
      write y j (sum / (← S.diag[j]?))
    return .succeed y

def rMul (S : Stored α) (x out : Array α) : Option (InPlace (Array α) Unit) :=
  let check := do
    checkLength x.size S.ncols
    checkAtLeast out.size S.rank
  InPlace.attempt out check fun _ => do
    let out ← fill out 0 0
    let out ← ascend 0 S.rank out fun i out => do
      let sum ← ascend i S.ncols 0 fun j sum => do
        return sum + (← S.r i j) * (← x[← S.perm.get? j]?)
      write out i sum
    return .succeed out

end Stored

/-! ## Damped solves -/

structure Rotating (α : Type) where
  s : AnyMatrix α
  rhs : Array α
  row : Array α
  carried : α

namespace Rotating

def mix (cos sin : α) (k i : Nat) (T : Rotating α) : Option (Rotating α) := do
  let above ← T.s.get? k i
  let below ← T.row[i]?
  return { T with row := ← write T.row i (-sin * above + cos * below)
                  s := ← T.s.set? k i (cos * above + sin * below) }

/-- Clears entry `k` of the extra row against row `k` of the triangle. The cleared cell itself is
not written. -/
def rotate (n k : Nat) (T : Rotating α) : Option (Rotating α) := do
  let lead ← T.row[k]?
  if lead == 0 then return T
  let diagonal ← T.s.get? k k
  let (cos, sin) := givens diagonal lead
  let s ← T.s.set? k k (cos * diagonal + sin * lead)
  let above ← T.rhs[k]?
  let carried := -sin * above + cos * T.carried
  let rhs ← write T.rhs k (cos * above + sin * T.carried)
  ascend (k + 1) n { T with s, rhs, carried } (mix cos sin k)

/-- Folds in the row that is `d` at position `j` and zero behind it. What the row holds in front of
`j` is left from earlier rows. -/
def fold (n j : Nat) (d : α) (T : Rotating α) : Option (Rotating α) := do
  if d == 0 then return T
  let row ← write (← Storage.fill T.row j 0) j d
  ascend j n { T with row, carried := 0 } (rotate n)

end Rotating

def AnyMatrix.firstZero (A : AnyMatrix α) : (t j : Nat) → Option Nat
  | 0, j => some j
  | t + 1, j => do
    if (← A.get? j j) == 0 then return j
    A.firstZero t (j + 1)

namespace Stored

def copyTriangle (S : Stored α) (s : AnyMatrix α) : Option (AnyMatrix α) :=
  ascend 0 S.ncols s fun j s => ascend 0 S.ncols s fun i s => do s.set? i j (← S.r i j)

/-- Solves the system damped by `d`, with scratch space for two elements per column. Of the
workspace it belongs to, the inner factorization is only asked for its width. -/
def damped (S : Stored α) (given d : Array α) (transposed : Stored α) (scratch : Array α)
    (B : DampedBuffers α) : Option (InPlace (DampedBuffers α) Unit) :=
  let n := S.ncols
  let check := do
    checkLength d.size n
    checkLength B.x.size n
    checkLength B.s.nrows n
    checkLength B.s.ncols n
    checkLength transposed.ncols n
    checkAtLeast given.size S.rank
  InPlace.attempt B check fun _ => do
    let (row, scratch) ← carve scratch n fun _ => some 0
    let (rhs, _) ← carve scratch n fun i => if i < S.rank then given[i]? else some 0
    let s ← S.copyTriangle B.s
    let T : Rotating α := { s, rhs, row, carried := 0 }
    let T ← ascend 0 n T fun j T => do T.fold n j (← d[← S.perm.get? j]?)
    let bound ← T.s.firstZero n 0
    let x ← substitute bound T.s.get? (fun j => T.s.get? j j) S.perm T.rhs B.x
    return .succeed { s := T.s, x }

end Stored

/-! ## Minimum-norm solves -/

structure StoredSolve (α : Type) where
  x : Array α
  transposed : Stored α

structure StoredLeastSquares (α : Type) extends StoredSolve α where
  b : Array α

def SolveBuffers.storage (B : SolveBuffers α) : StoredSolve α :=
  { x := B.x, transposed := B.workspace.inner.storage }

def LeastSquaresBuffers.storage (B : LeastSquaresBuffers α) : StoredLeastSquares α :=
  { B.toSolveBuffers.storage with b := B.b }

namespace Stored

def transposeInto (S : Stored α) (T : AnyMatrix α) : Option (AnyMatrix α) :=
  ascend 0 S.ncols T fun i T => ascend 0 S.ncols T fun j T => do
    let entry := if i < S.rank then S.r i j else some 0
    T.set? j i (← entry)

/-- Solves `R' z = P' c` with the factorization of the transpose and multiplies by `Q`, with scratch
space for two elements per column. Of the `n` cells of `z`, the first `rank` are lent to the solve.
-/
def throughTransposed (inner : Stored α) (rank n : Nat) (given scratch : Array α) :
    Option (InPlace (Array α) Unit) := do
  let (rhs, scratch) ← carve scratch rank fun k => do
    let p ← inner.perm.get? k
    if p < rank then given[p]? else some 0
  let (z, _) ← carve scratch n fun _ => some 0
  guard (rank ≤ z.size)
  let solved ← inner.rtSolve rhs (z.extract 0 rank)
  let z := solved.buffers ++ z.extract rank
  InPlace.attempt z solved.result fun _ => inner.qMul z

def minimumNorm (S : Stored α) (c : Array α) (B : StoredSolve α) (stack scratch : Array α) :
    Option (InPlace (StoredSolve α) Unit) :=
  let n := S.ncols
  let check := do
    checkLength B.x.size n
    checkLength B.transposed.ncols n
    checkAtLeast c.size S.rank
  InPlace.attempt B check fun _ => do
    let x ← fill B.x 0 0
    if S.rank = 0 then return .succeed { B with x }
    let refactored ← B.transposed.refactorWith S.transposeInto stack
    let B := { x, transposed := refactored.buffers }
    InPlace.attempt B (refactored.result.map fun _ => ()) fun _ => do
      let turned ← throughTransposed B.transposed S.rank n c scratch
      InPlace.attempt B turned.result fun _ => do
        return .succeed { B with x := ← S.perm.scatter turned.buffers x }

def fullRank (S : Stored α) : Option Bool :=
  if 0 < S.ncols then return (← S.diag[S.ncols - 1]?) != 0 else some false

/-- The least-squares solve: `Q'` is applied to the right-hand side before anything else is
looked at. -/
def solve (S : Stored α) (B : StoredLeastSquares α) (stack scratch : Array α) :
    Option (InPlace (StoredLeastSquares α) Unit) := do
  let reflected ← S.qtMul B.b
  let b := reflected.buffers
  InPlace.attempt { B with b } reflected.result fun _ => do
    if ← S.fullRank then
      let solved ← S.rSolve b B.x
      return { buffers := { B with b, x := solved.buffers }, result := solved.result }
    else
      let solved ← S.minimumNorm b B.toStoredSolve stack scratch
      return { buffers := { solved.buffers with b }, result := solved.result }

end Stored

end LeastSquares
