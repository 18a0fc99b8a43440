import LeastSquares.QR.Damped
import LeastSquares.QR.MinimumNorm

/-!
# The factorization on caller's buffers

The operations of a factorization as a caller meets them: vectors come as arrays of any length, the
lengths are checked before anything is written, and results overwrite the caller's arrays. An
`InPlace` says what the arrays hold afterwards, whether the call succeeded or not. Only two calls
can fail after they have begun to write: the minimum-norm solve, which clears its output before the
inner factorization can refuse, and `solveInto`, which replaces the right-hand side by `Q' b` before
it looks at the rest.
-/

set_option autoImplicit false

namespace LeastSquares

structure InPlace (β ρ : Type) where
  buffers : β
  result : Except LinalgError ρ

namespace InPlace

variable {β : Type}

def checked (before : β) (check : Except LinalgError Unit) (after : Unit → β) : InPlace β Unit :=
  match check with
  | .ok () => { buffers := after (), result := .ok () }
  | .error e => { buffers := before, result := .error e }

end InPlace

variable {α : Type} [Scalar α]

def leading (n : Nat) (a : Array α) : Vector α n := Vector.ofFn fun i => a.getD i 0

/-- The number of bytes of scratch space that a factorization with `ncols` columns takes: three
vectors of one element per column. -/
def scratchBytes (ncols : Nat) : Except LinalgError Nat :=
  let bytes := 3 * ncols * elementBytes
  if Addressable bytes then .ok bytes else .error .outOfMemory

/-! ## Factoring into buffers -/

/-- What a factorization is written to: the matrix, which it overwrites, and the vectors that take
the diagonal, the permutation and, if wanted, the column norms. -/
structure FactorBuffers (α : Type) where
  matrix : AnyMatrix α
  diag : Array α
  {permLength : Nat}
  perm : Permutation permLength
  norms : Option (Array α)

namespace FactorBuffers

def check (B : FactorBuffers α) : Except LinalgError Unit := do
  checkLength B.diag.size B.matrix.ncols
  checkLength B.permLength B.matrix.ncols
  if let some norms := B.norms then checkLength norms.size B.matrix.ncols

def factor (B : FactorBuffers α) : InPlace (FactorBuffers α) Nat :=
  match B.check with
  | .error e => { buffers := B, result := .error e }
  | .ok () =>
      let F := Factorization.ofMatrix B.matrix.entries
      { buffers :=
          { matrix := ⟨F.packed⟩
            diag := F.diag.toArray
            perm := F.perm
            norms := B.norms.map fun _ => F.norms.toArray }
        result := .ok F.rank }

end FactorBuffers

structure Workspace (α : Type) where
  {ncols : Nat}
  inner : Factorization α ncols ncols

def Workspace.allocate (ncols : Nat) : Except LinalgError (Workspace α) := do
  checkAllocatable (ncols * ncols)
  return ⟨(Factorization.blank : Factorization α ncols ncols)⟩

structure SolveBuffers (α : Type) where
  x : Array α
  workspace : Workspace α

structure LeastSquaresBuffers (α : Type) extends SolveBuffers α where
  b : Array α

structure DampedBuffers (α : Type) where
  s : AnyMatrix α
  x : Array α

/-- A factorization whose storage was replaced by a matrix of another shape: the matrix is new and
nothing else has been brought up to date. -/
structure Reshaped (α : Type) (n : Nat) where
  packed : AnyMatrix α
  diag : Vector α n
  perm : Permutation n
  norms : Vector α n
  rank : Nat

namespace Factorization

variable {m n : Nat}

def allocate (A : DenseMatrix α m n) : Except LinalgError (Factorization α m n) := do
  checkAllocatable n
  return ofMatrix A

def allocateBlank (m n : Nat) : Except LinalgError (Factorization α m n) := do
  checkAllocatable (m * n)
  checkAllocatable n
  return blank

/-- Replaces the stored matrix by what `fill` makes of it, and factors that. A matrix of another
shape is refused after it has taken the place of the old one. -/
def refactorWith (F : Factorization α m n) (fill : DenseMatrix α m n → AnyMatrix α) :
    Except (LinalgError × Reshaped α n) (Factorization α m n) :=
  let filled := fill F.packed
  let reshaped : Reshaped α n :=
    { packed := filled, diag := F.diag, perm := F.perm, norms := F.norms, rank := F.rank }
  if hm : filled.nrows = m then
    if hn : filled.ncols = n then .ok (ofMatrix (hm ▸ hn ▸ filled.entries))
    else .error (.dimensionMismatch n filled.ncols, reshaped)
  else .error (.dimensionMismatch m filled.nrows, reshaped)

def qtInto (F : Factorization α m n) (b : Array α) : InPlace (Array α) Unit :=
  .checked b (checkLength b.size m) fun _ => (F.qtMul (leading m b)).toArray

def qInto (F : Factorization α m n) (b : Array α) : InPlace (Array α) Unit :=
  .checked b (checkLength b.size m) fun _ => (F.qMul (leading m b)).toArray

/-- Overwrites `x` with the solution of `R P' x = c` on the leading block. -/
def rSolveInto (F : Factorization α m n) (c x : Array α) : InPlace (Array α) Unit :=
  let check := do
    checkLength x.size n
    checkAtLeast c.size F.rank
    if F.rank = 0 then throw (.singularMatrix 0 n)
  .checked x check fun _ => (F.rSolve (leading n c)).toArray

/-- Overwrites `y` with the solution of `R' y = c`, in pivot order, and zeros from the rank on. -/
def rtSolveInto (F : Factorization α m n) (c y : Array α) : InPlace (Array α) Unit :=
  .checked y (checkAtLeast (min y.size c.size) F.rank) fun _ =>
    (leading y.size (F.rtSolve (leading n c)).toArray).toArray

/-- Overwrites `out` with `R P' x`, and zeros from the rank on. -/
def rMulInto (F : Factorization α m n) (x out : Array α) : InPlace (Array α) Unit :=
  let check := do
    checkLength x.size n
    checkAtLeast out.size F.rank
  .checked out check fun _ => (leading out.size (F.rMul (leading n x)).toArray).toArray

/-- Overwrites `x` with the minimum-norm solution of `R P' x = c`, and the workspace with the inner
factorization. -/
def minimumNormInto (F : Factorization α m n) (c : Array α) (B : SolveBuffers α) :
    InPlace (SolveBuffers α) Unit :=
  let check := do
    checkLength B.x.size n
    checkLength B.workspace.ncols n
    checkAtLeast c.size F.rank
  match check with
  | .error e => { buffers := B, result := .error e }
  | .ok () =>
      let zero := (Vector.replicate n (0 : α)).toArray
      if F.rank = 0 then { buffers := { B with x := zero }, result := .ok () }
      else
        let inner := F.inner
        match F.minimumNormVia inner (leading n c) with
        | .error e => { buffers := { x := zero, workspace := ⟨inner⟩ }, result := .error e }
        | .ok x => { buffers := { x := x.toArray, workspace := ⟨inner⟩ }, result := .ok () }

/-- Overwrites `b` with `Q' b` and `x` with the least-squares solution of `A x = b`, the shortest
one where the columns are dependent. -/
def solveInto (F : Factorization α m n) (B : LeastSquaresBuffers α) :
    InPlace (LeastSquaresBuffers α) Unit :=
  let reflected := F.qtInto B.b
  match reflected.result with
  | .error e => { buffers := B, result := .error e }
  | .ok () =>
      let c := reflected.buffers
      if F.fullRank then
        let solved := F.rSolveInto c B.x
        { buffers := { B with b := c, x := solved.buffers }, result := solved.result }
      else
        let solved := F.minimumNormInto c B.toSolveBuffers
        { buffers := { solved.buffers with b := c }, result := solved.result }

/-- Overwrites `x` with the least-squares solution of `[R P'; D] x = [c; 0]`, for the diagonal `d`
in the caller's column order, and `s` with the triangle of that system. -/
def dampedInto (F : Factorization α m n) (c d : Array α) (workspace : Workspace α)
    (B : DampedBuffers α) : InPlace (DampedBuffers α) Unit :=
  let check := do
    checkLength d.size n
    checkLength B.x.size n
    checkLength B.s.nrows n
    checkLength B.s.ncols n
    checkLength workspace.ncols n
    checkAtLeast c.size F.rank
  .checked B check fun _ =>
    let S := F.dampedTriangle (leading n c) (leading n d)
    { s := ⟨S.toMatrix⟩, x := (F.perm.restore S.solve).toArray }

end Factorization

/-- The `x` that minimizes `‖A x - b‖`, and of several the shortest. -/
def AnyMatrix.leastSquares (A : AnyMatrix α) (b : Array α) : Except LinalgError (Array α) := do
  checkLength b.size A.nrows
  let F ← Factorization.allocate A.entries
  let workspace ← Workspace.allocate A.ncols
  let x := Array.replicate A.ncols 0
  let solved := F.solveInto { b, x, workspace }
  solved.result
  return solved.buffers.x

end LeastSquares
