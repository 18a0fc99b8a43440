import LeastSquares.Proofs.QR.History
import LeastSquares.Proofs.QR.Padding

/-!
# Lengths

Every operation of the kernel checks the lengths it is given before it writes anything. With lengths
that pass, no position is out of range and nothing fails later. The minimum-norm solve is the one
that could: it solves with an inner factorization, and refuses one that found too many rows. A
finite inner factorization does not.
-/

set_option autoImplicit false

namespace LeastSquares

open Storage

variable {α : Type} {m n : Nat}

/-- The call ends, in an error just if it is refused or fails later on, and where it is refused its
buffers are as they were. -/
def Ends {β ρ : Type} (run : Option (InPlace β ρ)) (before : β) (refused late : Prop) : Prop :=
  ∃ out, run = some out ∧ ((∃ error, out.result = .error error) ↔ refused ∨ late) ∧
    (refused → out.buffers = before)

def FailsExactly {β ρ : Type} (run : Option (InPlace β ρ)) (before : β) (failing : Prop) : Prop :=
  ∃ out, run = some out ∧ ((∃ error, out.result = .error error) ↔ failing) ∧
    (failing → out.buffers = before)

section Checks

variable {β ρ : Type} {before : β} {check : Except LinalgError Unit}
  {program : Unit → Option (InPlace β ρ)} {refused late failing : Prop}

theorem Ends.exactly {run : Option (InPlace β ρ)} (ends : Ends run before refused late)
    (never : ¬ late) : FailsExactly run before refused := by
  obtain ⟨out, ran, fails, keeps⟩ := ends
  exact ⟨out, ran, fails.trans (or_iff_left never), keeps⟩

theorem Ends.of_attempt (refuses : check = .ok () ↔ ¬ refused)
    (runs : check = .ok () →
      ∃ out, program () = some out ∧ ((∃ error, out.result = .error error) ↔ late)) :
    Ends (InPlace.attempt before check program) before refused late := by
  cases check with
  | error e =>
      have fails : refused := by
        by_contra passes
        cases refuses.mpr passes
      exact ⟨_, rfl, iff_of_true ⟨e, rfl⟩ (.inl fails), fun _ => rfl⟩
  | ok _ =>
      have passes : ¬ refused := refuses.mp rfl
      obtain ⟨out, run, fails⟩ := runs rfl
      exact ⟨out, run, fails.trans (or_iff_right passes).symm, fun refused => absurd refused passes⟩

theorem FailsExactly.of_attempt (refuses : check = .ok () ↔ ¬ failing)
    (runs : check = .ok () →
      ∃ after value, program () = some { buffers := after, result := .ok value }) :
    FailsExactly (InPlace.attempt before check program) before failing := by
  have ends : Ends (InPlace.attempt before check program) before failing False := by
    refine .of_attempt refuses fun passed => ?_
    obtain ⟨after, value, run⟩ := runs passed
    refine ⟨_, run, iff_false_intro ?_⟩
    rintro ⟨error, failed⟩
    cases failed
  exact ends.exactly not_false

end Checks

theorem FactorBuffers.check_eq_ok {B : FactorBuffers α} : B.check = .ok () ↔
    (B.diag.size = B.matrix.ncols ∧ B.permLength = B.matrix.ncols) ∧
      ∀ norms ∈ B.norms, norms.size = B.matrix.ncols := by
  have norms : B.checkNorms = .ok () ↔ ∀ norms ∈ B.norms, norms.size = B.matrix.ncols := by
    rw [checkNorms]
    cases B.norms <;> simp [checkLength_eq_ok]
  rw [check_eq, ← checkFirst_eq_ok, ← norms]
  exact checks_ok

section Operations

variable [Scalar α]

theorem InPlace.attempt_ok {β ρ : Type} {before : β} {check : Except LinalgError Unit}
    {program : Unit → Option (InPlace β ρ)} {out : InPlace β ρ} (passed : check = .ok ())
    (same : attempt before check program = some out) : program () = some out := by
  subst passed
  exact same

theorem InPlace.succeeds {β : Type} {before : β} {check : Except LinalgError Unit}
    {after : Unit → β} {program : Unit → Option (InPlace β Unit)}
    (same : attempt before check program = some (checked before check after))
    (passed : check = .ok ()) :
    ∃ after value, program () = some { buffers := after, result := .ok value } := by
  subst passed
  exact ⟨_, _, same⟩

theorem factorStored_fails (B : FactorBuffers α) {stack : Array α}
    (room : 3 * B.matrix.ncols ≤ stack.size) : FailsExactly (B.factorStored stack) B
      (B.diag.size ≠ B.matrix.ncols ∨ B.permLength ≠ B.matrix.ncols ∨
        ∃ norms ∈ B.norms, norms.size ≠ B.matrix.ncols) := by
  have refuses : B.check = .ok () ↔ ¬ (B.diag.size ≠ B.matrix.ncols ∨
      B.permLength ≠ B.matrix.ncols ∨ ∃ norms ∈ B.norms, norms.size ≠ B.matrix.ncols) := by
    rw [FactorBuffers.check_eq_ok]
    push Not
    exact and_assoc
  let factored := Factorization.ofMatrix B.matrix.entries
  have same : B.factorStored stack = InPlace.attempt B B.check fun _ => some
      { buffers :=
          { matrix := ⟨factored.packed⟩, diag := factored.diag.toArray, perm := factored.perm
            norms := B.norms.map fun _ => factored.norms.toArray }
        result := .ok factored.rank } := by
    rw [B.factorStored_ok room, FactorBuffers.factor]
    cases B.check <;> rfl
  rw [same]
  exact .of_attempt refuses fun _ => ⟨_, _, rfl⟩

variable (F : Factorization α m n)

theorem qtMul_fails (b : Array α) : FailsExactly (F.storage.qtMul b) b (b.size ≠ m) := by
  refine .of_attempt ?_ (InPlace.succeeds (F.storage_qtMul b))
  rw [checkLength_eq_ok, not_not]
  rfl

theorem qMul_fails (b : Array α) : FailsExactly (F.storage.qMul b) b (b.size ≠ m) := by
  refine .of_attempt ?_ (InPlace.succeeds (F.storage_qMul b))
  rw [checkLength_eq_ok, not_not]
  rfl

theorem rtSolve_fails (c y : Array α) :
    FailsExactly (F.storage.rtSolve c y) y (c.size < F.rank ∨ y.size < F.rank) := by
  refine .of_attempt ?_ (InPlace.succeeds (F.storage_rtSolve c y))
  rw [checkAtLeast_eq_ok]
  change F.rank ≤ min y.size c.size ↔ _
  omega

theorem rMul_fails (x out : Array α) :
    FailsExactly (F.storage.rMul x out) out (x.size ≠ n ∨ out.size < F.rank) := by
  have same := F.storage_rMul x out
  rw [Stored.rMul, Factorization.rMulInto] at same
  rw [Stored.rMul]
  refine .of_attempt ?_ (InPlace.succeeds same)
  rw [checks_ok, checkLength_eq_ok, checkAtLeast_eq_ok]
  change x.size = n ∧ F.rank ≤ out.size ↔ _
  omega

variable {F}

theorem minimumNormInto_fails {c : Array α} {B : SolveBuffers α} (length : B.x.size = n)
    (width : B.workspace.ncols = n) (enough : F.rank ≤ c.size) :
    (∃ error, (F.minimumNormInto c B).result = .error error) ↔
      F.rank ≠ 0 ∧ F.rank < F.inner.rank := by
  simp only [Factorization.minimumNormInto, checkLength_self length, checkLength_self width,
    checkAtLeast_eq_ok.mpr enough, bind, Except.bind, Factorization.minimumNormVia]
  by_cases zero : F.rank = 0
  · simp [zero]
  · by_cases more : F.rank < F.inner.rank <;> simp [zero, more]

theorem minimumNorm_ends {w : Nat} {W : Stored α} (used : W.Used w) (c x : Array α)
    (K : Scratch α w) :
    Ends (F.storage.minimumNorm c { x, transposed := W } K.stack K.cells)
      { x, transposed := W } (x.size ≠ n ∨ w ≠ n ∨ c.size < F.rank)
      (F.rank ≠ 0 ∧ F.rank < F.inner.rank) := by
  obtain ⟨I, rfl⟩ := used.storage
  have passes : (do
      checkLength x.size n
      checkLength w n
      checkAtLeast c.size F.rank) = .ok () ↔ x.size = n ∧ w = n ∧ F.rank ≤ c.size := by
    rw [checks_ok, checks_ok, checkLength_eq_ok, checkLength_eq_ok, checkAtLeast_eq_ok]
  rw [Stored.minimumNorm]
  refine .of_attempt (passes.trans ?_) fun passed => ?_
  · omega
  · obtain ⟨length, width, enough⟩ := passes.mp passed
    subst width
    have same := F.storage_minimumNorm c { x, workspace := ⟨I⟩ } K.stack_room K.cells_room
    rw [Stored.minimumNorm] at same
    exact ⟨_, InPlace.attempt_ok passed same,
      minimumNormInto_fails (B := { x, workspace := ⟨I⟩ }) length rfl enough⟩

theorem minimumNorm_fails (few : F.inner.rank ≤ F.rank) {w : Nat} {W : Stored α} (used : W.Used w)
    (c x : Array α) (K : Scratch α w) :
    FailsExactly (F.storage.minimumNorm c { x, transposed := W } K.stack K.cells)
      { x, transposed := W } (x.size ≠ n ∨ w ≠ n ∨ c.size < F.rank) :=
  (minimumNorm_ends used c x K).exactly fun more => more.2.not_ge few

variable (bijective : Function.Bijective F.perm.get)

include bijective

theorem rSolve_fails (c x : Array α) : FailsExactly (F.storage.rSolve c x) x
    (x.size ≠ n ∨ c.size < F.rank ∨ F.rank = 0) := by
  have same := Factorization.storage_rSolve bijective c x
  rw [Stored.rSolve, Factorization.rSolveInto] at same
  rw [Stored.rSolve]
  refine .of_attempt ?_ (InPlace.succeeds same)
  rw [solve_check_ok]
  change x.size = n ∧ F.rank ≤ c.size ∧ F.rank ≠ 0 ↔ _
  omega

theorem damped_fails {w : Nat} {W : Stored α} (used : W.Used w) (c d x : Array α) (s : AnyMatrix α)
    (K : Scratch α w) : FailsExactly (F.storage.damped c d W K.cells { s, x }) { s, x }
      (d.size ≠ n ∨ x.size ≠ n ∨ s.nrows ≠ n ∨ s.ncols ≠ n ∨ w ≠ n ∨ c.size < F.rank) := by
  obtain ⟨I, rfl⟩ := used.storage
  have passes : (do
      checkLength d.size n
      checkLength x.size n
      checkLength s.nrows n
      checkLength s.ncols n
      checkLength w n
      checkAtLeast c.size F.rank) = .ok () ↔ d.size = n ∧ x.size = n ∧ s.nrows = n ∧ s.ncols = n ∧
        w = n ∧ F.rank ≤ c.size := by
    simp only [checks_ok, checkLength_eq_ok, checkAtLeast_eq_ok]
  rw [Stored.damped]
  refine .of_attempt (passes.trans ?_) fun passed => ?_
  · omega
  · obtain ⟨-, -, -, -, width, -⟩ := passes.mp passed
    subst width
    have same := Factorization.storage_damped bijective c d ⟨I⟩ { s, x } K.cells_room
    rw [Stored.damped, Factorization.dampedInto] at same
    exact InPlace.succeeds same passed

end Operations

/-! ## All operations -/

/-- No reflector of the inner factorization has a `NaN` or an infinity in it. -/
def Factorization.FiniteInner (F : Factorization Float m n) : Prop :=
  ∀ step : Fin (min n n), step.val < F.rank → step.val < F.inner.rank →
    ∀ i, stepRow step ≤ i → (F.inner.packed.get i (stepCol step)).isFinite = true

instance (F : Factorization Float m n) : Decidable F.FiniteInner := by
  unfold Factorization.FiniteInner
  infer_instance

theorem Stored.Reached.bijective [Scalar α] {F : Factorization α m n}
    (reached : F.storage.Reached m n) : Function.Bijective F.perm.get := by
  obtain ⟨F', same, bijective⟩ := reached.storage
  have perm : F.perm = F'.perm := by
    simp only [Factorization.storage, Stored.mk.injEq] at same
    exact eq_of_heq same.2.2.2.1
  rwa [perm]

/-- How every operation ends on arguments of any lengths: in range, with an error exactly where a
length is wrong or, in the triangular solve, where the rank is zero. -/
structure Factorization.FailsByLength (F : Factorization Float m n) : Prop where
  factor (B : FactorBuffers Float) {stack : Array Float} : 3 * B.matrix.ncols ≤ stack.size →
    FailsExactly (B.factorStored stack) B (B.diag.size ≠ B.matrix.ncols ∨
      B.permLength ≠ B.matrix.ncols ∨ ∃ norms ∈ B.norms, norms.size ≠ B.matrix.ncols)
  qtMul (b : Array Float) : FailsExactly (F.storage.qtMul b) b (b.size ≠ m)
  qMul (b : Array Float) : FailsExactly (F.storage.qMul b) b (b.size ≠ m)
  rSolve (c x : Array Float) : FailsExactly (F.storage.rSolve c x) x
    (x.size ≠ n ∨ c.size < F.rank ∨ F.rank = 0)
  rSolve_singular (c x : Array Float) : x.size = n → F.rank = 0 →
    F.storage.rSolve c x = some { buffers := x, result := .error (.singularMatrix 0 n) }
  rtSolve (c y : Array Float) :
    FailsExactly (F.storage.rtSolve c y) y (c.size < F.rank ∨ y.size < F.rank)
  rMul (x out : Array Float) :
    FailsExactly (F.storage.rMul x out) out (x.size ≠ n ∨ out.size < F.rank)
  minimumNorm {w : Nat} {W : Stored Float} : W.Used w → F.FiniteInner →
    ∀ (K : Scratch Float w) (c x : Array Float),
      FailsExactly (F.storage.minimumNorm c { x, transposed := W } K.stack K.cells)
        { x, transposed := W } (x.size ≠ n ∨ w ≠ n ∨ c.size < F.rank)
  damped {w : Nat} {W : Stored Float} : W.Used w →
    ∀ (K : Scratch Float w) (c d x : Array Float) (s : AnyMatrix Float),
      FailsExactly (F.storage.damped c d W K.cells { s, x }) { s, x }
        (d.size ≠ n ∨ x.size ≠ n ∨ s.nrows ≠ n ∨ s.ncols ≠ n ∨ w ≠ n ∨ c.size < F.rank)

/-- Whatever lengths an operation is given, it stays in range, fails exactly where a length is wrong
or, in the triangular solve, where the rank is zero, and leaves the caller's buffers alone when it
fails. -/
theorem operations_fail_exactly {F : Factorization Float m n} (reached : F.storage.Reached m n) :
    F.FailsByLength where
  factor B _ room := factorStored_fails B room
  qtMul := qtMul_fails F
  qMul := qMul_fails F
  rSolve := rSolve_fails reached.bijective
  rSolve_singular c x length zero := by
    have enough : F.rank ≤ c.size := zero ▸ Nat.zero_le _
    rw [Factorization.storage_rSolve reached.bijective, Factorization.rSolveInto,
      checkLength_self length, checkAtLeast_eq_ok.mpr enough, if_pos zero]
    rfl
  rtSolve := rtSolve_fails F
  rMul := rMul_fails F
  minimumNorm used finite K c x := minimumNorm_fails (F.inner_rank_le_of_finite finite) used c x K
  damped used K c d x s := damped_fails reached.bijective used c d x s K

theorem operations_fail_exactly_alike :
    let F := Factorization.ofMatrix Factorization.alike
    let W : Stored Float := .around ⟨(.zeros : DenseMatrix Float 2 2)⟩
    let K : Scratch Float 2 := .filled 0
    F.storage.Reached 2 2 ∧ W.Used 2 ∧ F.FiniteInner ∧ F.rank = 1 ∧
      FailsExactly (F.storage.rSolve #[1] #[0]) #[0] (1 ≠ 2 ∨ 1 < F.rank ∨ F.rank = 0) ∧
      FailsExactly (F.storage.minimumNorm #[1] { x := #[7, 7], transposed := W } K.stack K.cells)
        { x := #[7, 7], transposed := W } (2 ≠ 2 ∨ 2 ≠ 2 ∨ 1 < F.rank) := by
  intro F W K
  have reached : F.storage.Reached 2 2 :=
    .allocated (Factorization.allocate_storage Factorization.alike K.stack_room)
  have finite : F.FiniteInner := by decide +kernel
  have fails : F.FailsByLength := operations_fail_exactly reached
  exact ⟨reached, .fresh, finite, by decide +kernel, fails.rSolve #[1] #[0],
    fails.minimumNorm .fresh finite K #[1] #[7, 7]⟩

end LeastSquares
