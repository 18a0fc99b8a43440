import LeastSquares.Proofs.Fit.Failure
import LeastSquares.Proofs.Fit.Measuring
import LeastSquares.Proofs.QR.ZeroRows

/-!
# Frozen parameters

A frozen parameter has a zero column in the matrix that an iteration factors. If the reflectors are
finite, that column counts for nothing: the rank is no higher than the number of the free
parameters, and where it is as high, the free parameters are the ones in front of it. Neither of the
two solves gives a frozen parameter a step.
-/

set_option autoImplicit false

namespace LeastSquares

open Double

variable {σ ε : Type} {n m : Nat}

namespace Fit

/-! ## What trial steps leave alone -/

section Ranks

variable {α : Type} [Scalar α] [Products α] {M : Model α σ ε n m}

theorem Tries.counts {fit first : Fit α σ n m} {L : Linearization α n m}
    (tries : fit.Tries M first L) : first.rank = L.factor.rank ∧
      first.freeCount = Nat.card {p : Fin n // L.free p = true} := by
  obtain ⟨asked, J, answer, rfl, rfl⟩ := tries.linearized
  refine ⟨rfl, ?_⟩
  rw [Nat.card_eq_fintype_card]
  exact asked.counted_freeCount J

/-- An iteration that makes trial steps keeps the rank and the number of free parameters that it
began them with. Any other one leaves the rank that it found. -/
theorem iterate_rank {fit : Fit α σ n m} {fuel : Nat} {call : Call α σ ε n m Status}
    (ends : fit.iterate M fuel = some call) :
    (∃ first L, fit.Tries M first L ∧ call.fit.rank = first.rank ∧
      call.fit.freeCount = first.freeCount) ∨
    (fit.prepared = false ∨ ∀ first L, ¬ fit.Tries M first L) ∧ call.fit.rank = fit.rank := by
  rcases iterate_ended ends with ⟨unprepared, rfl⟩ | ⟨_, settled⟩ |
    ⟨_, first, events, L, rest, ready, found, rfl⟩
  · exact .inr ⟨.inl unprepared, rfl⟩
  · have kept := congrArg Fit.rank (linearize_settled_fit settled)
    refine .inr ⟨.inr fun first L tries => ?_, kept⟩
    obtain ⟨events, ready⟩ := tries
    rw [settled] at ready
    cases ready
  · refine .inl ⟨first, L, ⟨events, ready⟩, ?_⟩
    have kept : rest.fit.rank = first.rank ∧ rest.fit.freeCount = first.freeCount := by
      refine trials_keeps (M := M) (L := L)
        (fun later => later.rank = first.rank ∧ later.freeCount = first.freeCount) ?_ ⟨rfl, rfl⟩
        found
      intro later same
      have rank := congrArg Fit.rank (later.trial_fit M L)
      have count := congrArg freeCount (later.trial_fit M L)
      exact ⟨rank.trans same.1, count.trans same.2⟩
    exact kept

end Ranks

/-! ## Zero columns -/

/-- What a factorization makes of the frozen parameters. -/
structure Spares (later : Fit Float σ n m) (L : Linearization Float n m) : Prop where
  rank : later.rank = L.factor.rank
  rank_le : later.rank ≤ later.freeCount
  front : later.rank = later.freeCount → ∀ p, L.free p = true ↔
    ∃ j : Fin n, j.val < L.factor.rank ∧ L.factor.perm.get j = p
  leavesOut : ∀ p, L.free p = false → ∀ j, L.factor.perm.get j = p → L.factor.rank ≤ j.val
  rSolve : ∀ c p, L.free p = false → L.factor.rSolve c p = 0
  minimumNorm : ∀ c x p, L.free p = false → L.factor.minimumNorm c = .ok x →
    Scalar.isNaN (x p) = false → IsZero (x p)
  gaussNewton : ∀ (other : Fit Float σ n m) x p, L.free p = false →
    (other.problem L).gaussNewton L.fullRank = .ok x → Scalar.isNaN (x p) = false → IsZero (x p)

variable {M : Model Float σ ε n m} {fit first later : Fit Float σ n m}
  {L : Linearization Float n m}

theorem Tries.leavesOut [Products Float] (tries : fit.Tries M first L)
    (finite : L.factor.FiniteReflectors)
    {p : Fin n} (frozen : L.free p = false) :
    ∃ A, L.factor = .ofMatrix A ∧ Factorization.LeavesOut A p := by
  have problem := tries.problem.2
  rw [problem.free] at frozen
  rw [problem.factor] at finite ⊢
  refine ⟨_, rfl, Factorization.ofMatrix_leavesOut finite fun i => ?_⟩
  rw [weightedJacobian, DenseMatrix.get_ofFn]
  split
  · rw [frozen, Bool.false_and, if_neg Bool.false_ne_true]
    exact isZero_zero
  · exact isZero_zero

theorem Tries.spares [Products Float] (tries : fit.Tries M first L)
    (finite : L.factor.FiniteReflectors)
    (rank : later.rank = first.rank) (count : later.freeCount = first.freeCount) :
    later.Spares L := by
  obtain ⟨ranked, counted⟩ := tries.counts
  have out {p : Fin n} (frozen : L.free p = false) := tries.leavesOut finite frozen
  have behind (p : Fin n) (frozen : L.free p = false) (j : Fin n)
      (position : L.factor.perm.get j = p) : L.factor.rank ≤ j.val := by
    obtain ⟨A, same, left⟩ := out frozen
    rw [same] at position ⊢
    exact left.behind j position
  have only (j : Fin n) (inside : j.val < L.factor.rank) : L.free (L.factor.perm.get j) = true := by
    by_contra frozen
    exact absurd (behind _ (Bool.eq_false_iff.mpr frozen) j rfl) (not_le.mpr inside)
  have bijective : Function.Bijective L.factor.perm.get := by
    rw [tries.problem.2.factor]
    exact Factorization.ofMatrix_bijective _
  let used (p : Fin n) : Prop := L.free p = true
  have front (j : Fin n) (inside : j.val < L.factor.rank) : used (L.factor.perm.get j) :=
    only j inside
  obtain ⟨bound, full⟩ := Factorization.rank_le_card bijective front
  have back (c : Vector Float n) (p : Fin n) (frozen : L.free p = false) :
      L.factor.rSolve c p = 0 := by
    obtain ⟨A, same, left⟩ := out frozen
    rw [same]
    exact left.rSolve c
  have shortest (c x : Vector Float n) (p : Fin n) (frozen : L.free p = false)
      (solved : L.factor.minimumNorm c = .ok x) (number : Scalar.isNaN (x p) = false) :
      IsZero (x p) := by
    obtain ⟨A, same, left⟩ := out frozen
    rw [same] at solved
    exact (left.minimumNorm solved).isZero number
  refine ⟨rank.trans ranked, ?_, ?_, behind, back, shortest, ?_⟩
  · rw [rank, count, ranked, counted]
    exact bound
  · rw [rank, count, ranked, counted]
    exact full
  · intro other x p frozen step number
    rw [Damping.Problem.gaussNewton] at step
    split at step
    · cases step
      rw [Vector.get_replicate]
      exact isZero_zero
    · split at step
      · cases step
        have zero : (other.problem L).factor.rSolve (other.problem L).rhs p = 0 := back _ p frozen
        rw [zero]
        exact isZero_zero
      · exact shortest _ x p frozen step number

/-- A zero column of any matrix stays zero while the matrix is factored, has norm zero and ends
behind the rank, if the reflectors are finite. So it is with the frozen parameters of an iteration,
once it comes to make trial steps: its rank is no higher than the number of free parameters, and
where it is as high these are the ones in front; the step of a frozen parameter is zero by back
substitution, and by the minimum-norm solve unless it is no number; and if the reflectors of the
transpose are finite too, the latter succeeds and never reads the padding. -/
theorem zero_columns_left_out [Products Float] :
    (∀ {k l : Nat} (A : DenseMatrix Float k l), (Factorization.ofMatrix A).FiniteReflectors →
      (∀ p, (∀ i, IsZero (A.get i p)) → Factorization.LeavesOut A p) ∧
      (Factorization.ofMatrix A).rank ≤ Nat.card {p : Fin l // ∃ i, ¬ IsZero (A.get i p)}) ∧
    ∀ (M : Model Float σ ε n m) (fit : Fit Float σ n m) (fuel : Nat)
      (call : Call Float σ ε n m Status), fit.iterate M fuel = some call →
      (∃ first L, fit.Tries M first L ∧ (L.factor.FiniteReflectors → call.fit.Spares L) ∧
        (L.factor.inner.FiniteReflectors → ∀ c : Vector Float n,
          L.factor.inner.rank ≤ L.factor.rank ∧ (∃ x, L.factor.minimumNorm c = .ok x) ∧
          ∀ k : Fin n, k.val < L.factor.rank → (L.factor.inner.perm.get k).val < L.factor.rank ∧
            L.factor.innerRhs L.factor.inner c k = c (L.factor.inner.perm.get k))) ∨
      (fit.prepared = false ∨ ∀ first L, ¬ fit.Tries M first L) ∧ call.fit.rank = fit.rank := by
  constructor
  · intro k l A finite
    exact ⟨fun p zeros => Factorization.ofMatrix_leavesOut finite zeros,
      Factorization.rank_le_card_nonzero finite⟩
  · intro M fit fuel call ends
    rcases iterate_rank ends with ⟨first, L, tries, rank, count⟩ | others
    · refine .inl ⟨first, L, tries, fun finite => tries.spares finite rank count,
        fun finite c => ?_⟩
      obtain ⟨bound, solves, reads⟩ := Factorization.minimumNorm_of_finite finite c
      exact ⟨bound, solves, fun k inside =>
        ⟨Factorization.inner_front finite inside, reads k inside⟩⟩
    · exact .inr others

def total : Model Float Unit Empty 3 1 where
  values _ a _ :=
    { state := ()
      buffer := Vector.replicate 1 (Scalar.addOver 0 (fun _ => true) a.get)
      failure? := none }
  jacobian _ _ _ := { state := (), buffer := .ofFn fun _ _ => 1, failure? := none }

instance (F : Factorization Float m n) : Decidable F.FiniteReflectors :=
  inferInstanceAs (Decidable (∀ step : Fin (min m n), step.val < F.rank → ∀ i,
    stepRow step ≤ i → (F.packed.get i (stepCol step)).isFinite = true))

/-- The last parameter is frozen at its limit, and the other two cannot be told apart. -/
theorem total_frozen : ∃ (fit : Fit Float Unit 3 1) (call : Call Float Unit Empty 3 1 Status),
    (onePoint 3).performAll total 9 [.setLimits (some #[-5, -5, 1]) none, .prepare] = some fit ∧
    fit.iterate total 9 = some call ∧ call.result = .ok .improving ∧
    ∃ first L, fit.Tries total first L ∧ L.factor.FiniteReflectors ∧
      L.factor.inner.FiniteReflectors ∧ L.free 2 = false ∧ L.fullRank = false ∧
      call.fit.Spares L ∧ call.fit.rank = 1 ∧ call.fit.freeCount = 2 ∧
      (L.factor.inner.perm.get 0).val < L.factor.rank := by
  have facts : (((onePoint 3).performAll total 9
      [.setLimits (some #[-5, -5, 1]) none, .prepare]).bind fun fit =>
      (fit.iterate total 9).map fun call =>
        (readyWith (fun _ L => decide L.factor.FiniteReflectors &&
            decide L.factor.inner.FiniteReflectors && !L.free 2 && !L.fullRank)
          (linearize total { fit with iteration := fit.iteration + 1 }),
          call.result.toOption, call.fit.rank, call.fit.freeCount)) =
      some (true, some .improving, 1, 2) := by
    decide +kernel
  obtain ⟨fit, led, facts⟩ := Option.bind_eq_some_iff.mp facts
  obtain ⟨call, ends, facts⟩ := Option.map_eq_some_iff.mp facts
  obtain ⟨ready, facts⟩ := Prod.mk.inj facts
  obtain ⟨result, facts⟩ := Prod.mk.inj facts
  obtain ⟨rank, count⟩ := Prod.mk.inj facts
  obtain ⟨known, K, again, checked⟩ := tries_of_readyWith ready
  rcases zero_columns_left_out.2 total fit 9 call ends with
    ⟨first, L, tries, spares, inner⟩ | ⟨never, same⟩
  · obtain ⟨rfl, rfl⟩ := tries.unique again
    simp only [Bool.and_eq_true, decide_eq_true_eq, Bool.not_eq_true'] at checked
    obtain ⟨⟨⟨finite, innerFinite⟩, frozen⟩, deficient⟩ := checked
    have spared := spares finite
    have inside : (0 : Fin 3).val < K.factor.rank := by
      rw [← spared.rank, rank]
      exact Nat.one_pos
    exact ⟨fit, call, led, ends, ok_of_toOption result, known, K, tries, finite, innerFinite,
      frozen, deficient, spared, rank, count, ((inner innerFinite K.rhs).2.2 0 inside).1⟩
  · rcases never with unprepared | never
    · rw [iterate_unprepared unprepared] at ends
      cases ends
      cases result
    · exact absurd again (never known K)

end Fit

end LeastSquares
