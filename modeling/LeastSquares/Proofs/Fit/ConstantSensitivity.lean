import LeastSquares.Proofs.Double.Copies
import LeastSquares.Proofs.Fit.Correlation
import LeastSquares.Proofs.Fit.Resting

/-!
# Sensitivities that do not vary, in doubles

In exact arithmetic nothing is left of a sensitivity that does not vary when its mean is taken off,
and its row and column of the correlations are zero. In doubles that holds where nothing positive is
left of the sensitivity and the rounded mean of copies of it, as with short mantissas. Otherwise the
rounding error that is left passes for variation, and the parameter correlates with itself.
-/

set_option autoImplicit false

namespace LeastSquares

open Double

/-- The square of a column that holds one double throughout is positive just if the square of that
double is, however the sum is rounded. -/
class Products.Definite [Products Float] : Prop where
  pos_iff {k n : Nat} (A : DenseMatrix Float k n) (p : Fin n) {x : Float}
    (same : ∀ i, A.get i p = x) : 0 < (transposeMul A A).get p p ↔ 0 < k ∧ 0 < x * x

instance : @Products.Definite Products.inOrder where
  pos_iff {k _} A p x same := by
    have squares (i : Fin k) (_ : true = true) : A.get i p * A.get i p = x * x := by rw [same i]
    have sum := addOver_copies 0 squares
    rw [List.countP_true, List.length_finRange] at sum
    have entry : (Products.inOrder.transposeMul A A).get p p = addCopies 0 (x * x) k := by
      change DenseMatrix.get (.ofFn _) p p = _
      rw [DenseMatrix.get_ofFn]
      exact sum
    rw [entry]
    exact addCopies_mul_self_pos_iff x k

namespace Fit

variable {σ ε : Type} {n m : Nat} {M : Model Float σ ε n m} {fit : Fit Float σ n m}
  {J : DenseMatrix Float m n} {p : Fin n} {c : Float} {budget : Nat}

theorem meanSensitivity_copies (constant : ∀ i, fit.active i = true → fit.sensitivity J p i = c) :
    fit.meanSensitivity J p = meanOfCopies c fit.activeCount := by
  rw [meanSensitivity, addOver_copies _ constant, ← activeCount_eq_countP]
  rfl

theorem centeredSensitivities_copies
    (constant : ∀ i, fit.active i = true → fit.sensitivity J p i = c) (i : Fin fit.activeCount) :
    (fit.centeredSensitivities J).get i p = c - meanOfCopies c fit.activeCount := by
  have counted := fit.mem_activePoints.mp (List.get_mem _ i)
  simp only [centeredSensitivities, DenseMatrix.get_ofFn, Vector.get_ofFn]
  rw [constant _ counted, meanSensitivity_copies constant]

section Definite

variable [Products Float] [Products.Definite]

theorem gram_pos_iff (constant : ∀ i, fit.active i = true → fit.sensitivity J p i = c) :
    0 < (fit.gram J).get p p ↔ 0 < leftover c fit.activeCount := by
  rw [gram, Products.Definite.pos_iff _ p (centeredSensitivities_copies constant), ← leftover]
  refine and_iff_right_of_imp fun positive => Nat.pos_of_ne_zero fun none => ?_
  rw [none] at positive
  exact leftover_none c positive

/-- A prepared fit whose model answers returns correlations if there is memory for the call. If a
sensitivity is the same double at all active points, its row and column are zero just where nothing
positive is left of it when its mean is taken off, but for a diagonal entry that is divided by an
infinity; and nothing positive is left of a short double. -/
theorem correlation_of_constant (prepared : fit.prepared = true)
    (answered : (M.jacobian fit.model fit.parameters .zeros).failure? = none)
    (room : Suffices budget fit.correlationBuffers)
    (constant : ∀ i, fit.active i = true → fit.sensitivity (fit.jacobianAnswer M) p i = c) :
    ∃ C, (fit.correlation M budget).result = .ok C ∧
      (¬ 0 < leftover c fit.activeCount → ∀ q, C.get p q = 0 ∧ C.get q p = 0) ∧
      (0 < leftover c fit.activeCount →
        let spread := (fit.gram (fit.jacobianAnswer M)).get p p
        (IsZero (C.get p p) ↔ spread.isFinite = true ∧ (spread * spread).isFinite = false)) ∧
      (Short c fit.activeCount → ¬ 0 < leftover c fit.activeCount) := by
  let G := fit.gram (fit.jacobianAnswer M)
  have positive : 0 < G.get p p ↔ 0 < leftover c fit.activeCount := gram_pos_iff constant
  refine ⟨correlations G, correlation_answer prepared answered room, fun small q => ?_,
    fun left => ?_, leftover_of_short⟩
  · rw [← positive] at small
    simp only [correlations, DenseMatrix.get_ofFn]
    exact ⟨if_neg fun both => small both.1, if_neg fun both => small both.2⟩
  · rw [← positive] at left
    simp only [correlations, DenseMatrix.get_ofFn]
    rw [if_pos ⟨left, left⟩]
    exact isZero_div_sqrt_iff left

end Definite

def tenths : Model Float Unit Empty 1 3 where
  values _ a _ :=
    { state := ()
      buffer := Vector.replicate 3 (Scalar.addOver 0 (fun _ => true) fun p => 0.1 * a p)
      failure? := none }
  jacobian _ _ _ := { state := (), buffer := .ofFn fun _ _ => 0.1, failure? := none }

def tenthsStart : Fit Float Unit 1 3 :=
  { model := ()
    parameters := Vector.replicate 1 0
    limits := .unbounded
    targets :=
      { target := Vector.replicate 3 0
        sigma := Vector.replicate 3 1
        tags := Vector.replicate 3 .equal }
    criteria := .off
    values := Vector.replicate 3 0
    spare := Vector.replicate 3 0
    active := Vector.replicate 3 true
    chiSquare := 0
    gradientNorm := 0
    freeCount := 1
    rank := 0
    trust := .initial
    prepared := false
    iteration := 0
    valueCalls := 0
    jacobianCalls := 0 }

/-- The parameter correlates with itself, although a tenth is its sensitivity everywhere. -/
theorem tenths_correlate :
    let fit := (tenthsStart.prepare tenths).fit
    (tenthsStart.prepare tenths).result = .ok () ∧
      (∀ i, fit.sensitivity (fit.jacobianAnswer tenths) 0 i = 0.1) ∧
      ∃ C, (fit.correlation tenths 3).result = .ok C ∧ ¬ IsZero (C.get 0 0) := by
  intro fit
  have prepared : fit.prepared = true := rfl
  have answered : (tenths.jacobian fit.model fit.parameters .zeros).failure? = none := rfl
  have constant : ∀ i, fit.sensitivity (fit.jacobianAnswer tenths) 0 i = 0.1 := by decide +kernel
  have count : fit.activeCount = 3 := by decide +kernel
  have positive : 0 < leftover 0.1 fit.activeCount := by
    rw [count]
    decide +kernel
  obtain ⟨C, result, _, left, _⟩ :=
    correlation_of_constant prepared answered (suffices_length fit.correlationBuffers)
      fun i _ => constant i
  refine ⟨rfl, constant, C, result, fun zero => ?_⟩
  have overflow := ((left positive).mp zero).2
  exact absurd overflow (by decide +kernel)

end Fit

end LeastSquares
