import LeastSquares.Proofs.QR.Padding
import LeastSquares.Proofs.QR.Solve
import LeastSquares.Proofs.Fit.Trying

/-!
# Failures of an iteration

The linear algebra of an iteration checks the length of every vector it is lent, and all but one of
these checks pass whatever the model answers, since the vectors are as long as the fit makes them.
The one is the rank of the inner factorization, which may pass that of the outer one where a
reflector of it is not finite. Then the first trial step fails, before the model is asked about it.
-/

set_option autoImplicit false

namespace LeastSquares

variable {α σ ε : Type} {n m : Nat}

/-! ## The step that fails -/

section Overranked

variable [Scalar α]

/-- Whether the inner factorization found more independent rows than the outer one. -/
structure Linearization.Overranked (L : Linearization α n m) : Prop where
  rank : L.factor.rank ≠ 0
  deficient : L.fullRank = false
  inner : L.factor.rank < L.factor.inner.rank

def Linearization.rankError (L : Linearization α n m) : LinalgError :=
  .dimensionMismatch L.factor.inner.rank L.factor.rank

theorem Factorization.minimumNorm_error_iff (F : Factorization α m n) (c : Vector α n)
    (error : LinalgError) : F.minimumNorm c = .error error ↔ (F.rank ≠ 0 ∧ F.rank < F.inner.rank) ∧
      error = .dimensionMismatch F.inner.rank F.rank := by
  rw [minimumNorm, minimumNormVia]
  by_cases zero : F.rank = 0
  · simp [zero]
  · rw [if_neg zero]
    split
    · rename_i more
      simp [zero, more, eq_comm]
    · rename_i enough
      simp [enough]

theorem Damping.Problem.gaussNewton_error_iff (Q : Problem α m n) (fullRank : Bool)
    (error : LinalgError) : Q.gaussNewton fullRank = .error error ↔
      (Q.factor.rank ≠ 0 ∧ fullRank = false ∧ Q.factor.rank < Q.factor.inner.rank) ∧
        error = .dimensionMismatch Q.factor.inner.rank Q.factor.rank := by
  rw [gaussNewton]
  by_cases zero : Q.factor.rank = 0
  · simp [zero]
  · rw [if_neg zero]
    cases fullRank with
    | true => simp
    | false => simp [Q.factor.minimumNorm_error_iff, zero]

theorem Fit.propose_error_iff (fit : Fit α σ n m) (L : Linearization α n m) (error : LinalgError) :
    fit.propose L = .error error ↔ L.Overranked ∧ error = L.rankError := by
  have failing : fit.propose L = .error error ↔
      (fit.problem L).gaussNewton L.fullRank = .error error := by
    cases step : (fit.problem L).gaussNewton L.fullRank with
    | error other => simp only [propose, Damping.Problem.solve, step, Except.error.injEq]
    | ok x =>
        obtain ⟨proposal, proposes⟩ := propose_of_gaussNewton step
        simp [proposes]
  rw [failing, Damping.Problem.gaussNewton_error_iff]
  have same : (L.factor.rank ≠ 0 ∧ L.fullRank = false ∧ L.factor.rank < L.factor.inner.rank) ↔
      L.Overranked :=
    ⟨fun all => ⟨all.1, all.2.1, all.2.2⟩, fun all => ⟨all.rank, all.deficient, all.inner⟩⟩
  exact and_congr_left fun _ => same

end Overranked

/-! ## The checks that pass -/

namespace Factorization

variable [Scalar α]

theorem rtSolveInto_take (F : Factorization α m n) (c : Vector α n) {y : Array α}
    (length : y.size = F.rank) : F.rtSolveInto (c.toArray.take F.rank) y =
      { buffers := (leading F.rank (F.rtSolve c).toArray).toArray, result := .ok () } := by
  have inside : F.rank ≤ n := F.rank_le.trans (Nat.min_le_right m n)
  have read (j : Fin n) (below : j.val < F.rank) : leading n (c.toArray.take F.rank) j = c j := by
    rw [leading_get, Vector.get_eq, Array.getD_eq_getD_getElem?]
    simp [below]
  have enough : F.rank ≤ min y.size (c.toArray.take F.rank).size := by
    simp [length, inside]
  rw [rtSolveInto, checkAtLeast_eq_ok.mpr enough, F.rtSolve_congr read, length]
  rfl

theorem minimumNormInto_error_iff (F : Factorization α m n) {c : Array α} {B : SolveBuffers α}
    (length : B.x.size = n) (fits : B.workspace.ncols = n) (enough : F.rank ≤ c.size)
    (error : LinalgError) :
    (F.minimumNormInto c B).result = .error error ↔ F.minimumNorm (leading n c) = .error error := by
  simp only [minimumNormInto, checkLength_self length, checkLength_self fits,
    checkAtLeast_eq_ok.mpr enough, bind, Except.bind, minimumNorm]
  by_cases zero : F.rank = 0
  · simp [zero]
  · rw [if_neg zero, if_neg zero]
    cases F.minimumNormVia F.inner (leading n c) <;> simp

theorem rMulInto_ok (F : Factorization α m n) (x out : Vector α n) :
    F.rMulInto x.toArray out.toArray = { buffers := (F.rMul x).toArray, result := .ok () } := by
  have enough : F.rank ≤ out.toArray.size := by
    rw [Vector.size_toArray]
    exact F.rank_le.trans (Nat.min_le_right m n)
  simp only [rMulInto, checkLength_self x.size_toArray, checkAtLeast_eq_ok.mpr enough, bind,
    Except.bind, leading_self]
  rw [out.size_toArray, leading_self]
  rfl

end Factorization

section Lent

variable [Scalar α]

/-- The vectors that a fit lends to its linear algebra, whatever they hold. -/
structure Lent (α : Type) (n m : Nat) where
  factor : Factorization α (max n m) n
  step : Vector α n
  fitted : Vector α n
  damping : Vector α n
  triangle : DenseMatrix α n n
  inner : Factorization α n n

/-- What the calls of an iteration come to with these vectors, `c` being the residual that it
reflects: each leaves what the iteration goes on with, and none can fail but the minimum-norm
solve. -/
structure Lent.Serves (B : Lent α n m) (A : DenseMatrix α (max n m) n) (b c : Vector α (max n m))
    (L : Linearization α n m) : Prop where
  factors : B.factor.refactorWith (fun _ => ⟨A⟩) = .ok L.factor
  reflects : L.factor.qtInto b.toArray = { buffers := c.toArray, result := .ok () }
  solves : L.factor.rank ≠ 0 → L.factor.rSolveInto c.toArray B.step.toArray =
    { buffers := (L.factor.rSolve L.rhs).toArray, result := .ok () }
  shortens : ∀ error,
    (L.factor.minimumNormInto c.toArray { x := B.step.toArray, workspace := ⟨B.inner⟩ }).result =
      .error error ↔ L.factor.minimumNorm L.rhs = .error error
  bounds : ∀ outward : Vector α n, L.factor.rtSolveInto (outward.toArray.take L.factor.rank)
      (B.damping.toArray.take L.factor.rank) =
    { buffers := (leading L.factor.rank (L.factor.rtSolve outward).toArray).toArray
      result := .ok () }
  damps : ∀ damping : Vector α n, L.factor.dampedInto c.toArray damping.toArray ⟨B.inner⟩
      { s := ⟨B.triangle⟩, x := B.step.toArray } =
    { buffers :=
        { s := ⟨(L.factor.dampedTriangle L.rhs damping).toMatrix⟩
          x := (L.factor.dampedSolve L.rhs damping).toArray }
      result := .ok () }
  predicts : ∀ step : Vector α n, L.factor.rMulInto step.toArray B.fitted.toArray =
    { buffers := (L.factor.rMul step).toArray, result := .ok () }

theorem Lent.serves (B : Lent α n m) {A : DenseMatrix α (max n m) n} {b : Vector α (max n m)}
    {L : Linearization α n m} (factor : L.factor = .ofMatrix A)
    (rhs : leading n (L.factor.qtMul b).toArray = L.rhs) :
    B.Serves A b (L.factor.qtMul b) L := by
  have inside : L.factor.rank ≤ n := L.factor.rank_le.trans (Nat.min_le_right _ n)
  have enough : L.factor.rank ≤ (L.factor.qtMul b).toArray.size := by
    rw [Vector.size_toArray]
    exact L.factor.rank_le.trans (Nat.min_le_left _ n)
  exact
    { factors := by rw [Factorization.refactorWith, factor, dif_pos rfl, dif_pos rfl]
      reflects := L.factor.qtInto_toArray b
      solves := fun positive => by
        rw [L.factor.rSolveInto_ok B.step.size_toArray enough positive, rhs]
      shortens := fun error => by
        rw [← rhs]
        exact L.factor.minimumNormInto_error_iff B.step.size_toArray rfl enough error
      bounds := fun outward => L.factor.rtSolveInto_take outward (by simp [inside])
      damps := fun damping => by
        rw [L.factor.dampedInto_ok damping _ B.step.size_toArray rfl rfl rfl enough, rhs]
      predicts := fun step => L.factor.rMulInto_ok step B.fitted }

end Lent

/-! ## The iteration -/

namespace Fit

section Generic

variable [Scalar α] {M : Model α σ ε n m} {L : Linearization α n m} {fit first : Fit α σ n m}

theorem linearization_rhs [Products α] (fit : Fit α σ n m) (J : DenseMatrix α m n) :
    leading n ((fit.linearization J).factor.qtMul fit.weightedResidual).toArray =
      (fit.linearization J).rhs := by
  apply Vector.ext_get
  intro i
  rw [leading_toArray _ i (i.castLE (Nat.le_max_left n m)) rfl, linearization, Vector.get_ofFn]

theorem Tries.made [Products α] (tries : fit.Tries M first L) : ∃ asked J,
      evaluateJacobian M { fit with iteration := fit.iteration + 1 } = (asked, .ok J) ∧
      L.factor = .ofMatrix (first.weightedJacobian J (first.free J)) ∧
      leading n (L.factor.qtMul first.weightedResidual).toArray = L.rhs := by
  obtain ⟨asked, J, answer, rfl, rfl⟩ := tries.linearized
  exact ⟨asked, J, answer, rfl, linearization_rhs _ J⟩

theorem linearize_error [Products α] {call : Call α σ ε n m Status} {error : FitError ε}
    (ended : linearize M fit = .settled call) (failed : call.result = .error error) :
    ∃ own, error = .model own := by
  rcases linearize_cases M fit with ⟨_, own, _, settled⟩ | ⟨_, _, _, _, settled⟩ |
    ⟨_, _, _, _, _, settled⟩ | ⟨_, _, _, _, _, _, goes⟩
  · rw [settled] at ended
    cases ended
    cases failed
    exact ⟨own, rfl⟩
  · rw [settled] at ended
    cases ended
    cases failed
  · rw [settled] at ended
    cases ended
    cases failed
  · rw [goes] at ended
    cases ended

theorem trial_error {call : Call α σ ε n m Status} {error : FitError ε}
    (enough : ¬ L.Overranked) (ended : fit.trial M L = .settled call)
    (failed : call.result = .error error) : ∃ own, error = .model own := by
  rcases fit.trial_cases M L with ⟨linalg, step, _⟩ | ⟨_, _, own, _, _, settled⟩ |
    ⟨proposal, asked, values, _, _, judged⟩
  · exact absurd ((fit.propose_error_iff L linalg).mp step).1 enough
  · rw [settled] at ended
    cases ended
    cases failed
    exact ⟨own, rfl⟩
  · rw [judged] at ended
    rcases asked.judge_cases (ε := ε) L proposal values with ⟨_, _, settled⟩ |
      ⟨_, _, settled⟩ | ⟨_, _, again⟩
    · rw [settled] at ended
      cases ended
      cases failed
    · rw [settled] at ended
      cases ended
      cases failed
    · rw [again] at ended
      cases ended

theorem trials_overranked (M : Model α σ ε n m) (fit : Fit α σ n m) (overranked : L.Overranked)
    (fuel : Nat) : trials M L (fuel + 1) fit = some (.fail fit [] (.linalg L.rankError)) := by
  have step := (fit.propose_error_iff L L.rankError).mpr ⟨overranked, rfl⟩
  simp only [trials, trial, step]

theorem Tries.iterate_overranked [Products α] (tries : fit.Tries M first L)
    (prepared : fit.prepared = true)
    (overranked : L.Overranked) : ∃ events, fit.iterate M 0 = none ∧ ∀ fuel,
      fit.iterate M (fuel + 1) = some (.fail first events (.linalg L.rankError)) := by
  rcases iterate_tries M prepared with ⟨_, never, _, _⟩ | ⟨other, K, events, again, loops⟩
  · exact absurd tries (never first L)
  · obtain ⟨rfl, rfl⟩ := tries.unique again
    refine ⟨events, ?_, fun fuel => ?_⟩
    · rw [loops, trials, Option.map_none]
    · rw [loops, trials_overranked M other overranked]
      simp only [Option.map_some, Call.after, Call.fail, List.append_nil]

theorem iterate_error [Products α] (prepared : fit.prepared = true) {fuel : Nat}
    {call : Call α σ ε n m Status} {error : FitError ε} (ends : fit.iterate M fuel = some call)
    (failed : call.result = .error error) : (∃ own, error = .model own) ∨
      ∃ first L, fit.Tries M first L ∧ L.Overranked ∧ error = .linalg L.rankError ∧
        call.fit = first := by
  rcases iterate_tries M prepared with ⟨other, _, settled, loops⟩ | ⟨first, L, _, tries, _⟩
  · rw [loops] at ends
    cases ends
    exact .inl (linearize_error settled failed)
  · by_cases overranked : L.Overranked
    · obtain ⟨events, never, fails⟩ := tries.iterate_overranked prepared overranked
      cases fuel with
      | zero => exact absurd (never.symm.trans ends) (Option.some_ne_none _).symm
      | succ fuel =>
          rw [fails] at ends
          cases ends
          cases failed
          exact .inr ⟨first, L, tries, overranked, rfl, rfl⟩
    · obtain ⟨_, _, last, _, _, settled, rfl⟩ := tries.last prepared ends
      exact .inl (trial_error overranked settled failed)

end Generic

/-- An iteration of a prepared fit fails with an error of the model, unless the inner factorization
of its linear problem finds too many rows: then it fails before the first trial step, and a
reflector of the inner factorization is not finite. Every other call of the linear algebra succeeds,
whatever the fit lends to it. -/
theorem iterate_fails [Products Float] {fit : Fit Float σ n m} (M : Model Float σ ε n m)
    (prepared : fit.prepared = true) :
    (∀ fuel call error, fit.iterate M fuel = some call → call.result = .error error →
      (∃ own, error = .model own) ∨ ∃ first L, fit.Tries M first L ∧ L.Overranked ∧
        error = .linalg L.rankError ∧ call.fit = first) ∧
    ∀ first L, fit.Tries M first L →
      (L.Overranked →
        (∃ events, ∀ fuel,
          fit.iterate M (fuel + 1) = some (.fail first events (.linalg L.rankError))) ∧
        ∃ (step : Fin (min n n)) (i : Fin n), step.val < L.factor.rank ∧
          step.val < L.factor.inner.rank ∧ stepRow step ≤ i ∧
          (L.factor.inner.packed.get i (stepCol step)).isFinite = false) ∧
      ∃ asked J,
        evaluateJacobian M { fit with iteration := fit.iteration + 1 } = (asked, .ok J) ∧
        ∀ B : Lent Float n m, B.Serves (first.weightedJacobian J (first.free J))
          first.weightedResidual (L.factor.qtMul first.weightedResidual) L := by
  refine ⟨fun fuel call error ends failed => iterate_error prepared ends failed,
    fun first L tries => ⟨fun overranked => ⟨?_, ?_⟩, ?_⟩⟩
  · obtain ⟨events, _, fails⟩ := tries.iterate_overranked prepared overranked
    exact ⟨events, fails⟩
  · by_contra! finite
    refine absurd overranked.inner (not_lt.mpr (L.factor.inner_rank_le_of_finite ?_))
    intro step outer inner i below
    exact Bool.not_eq_false _ ▸ finite step i outer inner below
  · obtain ⟨asked, J, answer, factor, rhs⟩ := tries.made
    exact ⟨asked, J, answer, fun B => B.serves factor rhs⟩

/-! ## A derivative that is no number -/

/-- The model of one point whose value is one and whose derivatives are one, zero and `NaN`. -/
def torn : Model Float Unit Empty 3 1 where
  values _ _ _ := { state := (), buffer := ones 1, failure? := none }
  jacobian _ _ _ := { state := (), buffer := .ofFn fun _ => ![1, 0, 0 / 0], failure? := none }

def tornPrepared : Fit Float Unit 3 1 := ((onePoint 3).prepare torn).fit

theorem torn_tries : ∃ first L, tornPrepared.Tries torn first L ∧ L.Overranked ∧
    L.rankError = .dimensionMismatch 3 1 := by
  let start := { tornPrepared with iteration := tornPrepared.iteration + 1 }
  have known : readyWith (fun _ L => !L.fullRank && L.factor.rank == 1 && L.factor.inner.rank == 3)
      (linearize torn start) = true := by
    decide +kernel
  obtain ⟨first, L, tries, facts⟩ := tries_of_readyWith known
  simp only [Bool.and_eq_true, Bool.not_eq_true', beq_iff_eq] at facts
  obtain ⟨⟨deficient, outer⟩, inner⟩ := facts
  refine ⟨first, L, tries, ⟨by omega, deficient, by omega⟩, ?_⟩
  rw [Linearization.rankError, outer, inner]

/-- The minimum-norm solve finds three rows where the factorization found one. -/
theorem torn_fails :
    Fit.start () (ones 3) #v[(0 : Float)] #[(1 : Float)] = .ok (onePoint 3) ∧
    ((onePoint 3).prepare torn).fit = tornPrepared ∧ tornPrepared.prepared = true ∧
    ∃ first events, ∀ fuel, tornPrepared.iterate torn (fuel + 1) =
      some (.fail first events (.linalg (.dimensionMismatch 3 1))) := by
  have prepared : tornPrepared.prepared = true := by decide +kernel
  obtain ⟨first, L, tries, overranked, error⟩ := torn_tries
  obtain ⟨⟨events, fails⟩, _⟩ := ((iterate_fails torn prepared).2 first L tries).1 overranked
  rw [error] at fails
  exact ⟨onePoint_started three_ne_zero, rfl, prepared, first, events, fails⟩

end Fit

end LeastSquares
