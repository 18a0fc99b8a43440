import LeastSquares.Proofs.Damping.Divisors
import LeastSquares.Proofs.QR.Dividing

/-!
# The search with another division

A division that differs from the usual one by zero only changes nothing in the search: each function
gives the same result wherever no zero is on the list of its divisors, and the search never has one
there.
-/

set_option autoImplicit false

namespace LeastSquares

open Damping

variable {m n : Nat} {Q : Problem ℝ m n} {A : DenseMatrix ℝ m n} {quotient : ℝ → ℝ → ℝ}

namespace DividesAlike

variable (alike : DividesAlike quotient)

include alike

theorem gaussNewton {fullRank : Bool} (clear : ∀ d ∈ Q.gaussNewtonDivisors fullRank, d ≠ 0) :
    @Problem.gaussNewton ℝ (.dividing quotient) m n Q fullRank = Q.gaussNewton fullRank := by
  by_cases none : Q.factor.rank = 0
  · calc @Problem.gaussNewton ℝ (.dividing quotient) m n Q fullRank
        = .ok (Vector.replicate n 0) := if_pos none
      _ = Q.gaussNewton fullRank := (if_pos none).symm
  rw [Problem.gaussNewtonDivisors, if_neg none] at clear
  cases fullRank with
  | true =>
      calc @Problem.gaussNewton ℝ (.dividing quotient) m n Q true
          = .ok (Q.factor.perm.restore
              (@LeastSquares.backSubstitute ℝ (.dividing quotient) n Q.factor.rank Q.factor.r
                Q.rhs)) := if_neg none
        _ = .ok (Q.factor.rSolve Q.rhs) := by
            rw [alike.backSubstitute clear, Factorization.rSolve]
        _ = Q.gaussNewton true := (if_neg none).symm
  | false =>
      calc @Problem.gaussNewton ℝ (.dividing quotient) m n Q false
          = @Factorization.minimumNorm ℝ (.dividing quotient) m n Q.factor Q.rhs := if_neg none
        _ = Q.factor.minimumNorm Q.rhs := alike.minimumNorm clear Q.rhs
        _ = Q.gaussNewton false := (if_neg none).symm

theorem outward {length : ℝ} (clear : length ≠ 0) (x : Vector ℝ n) :
    @Problem.outward ℝ (.dividing quotient) m n Q x length = Q.outward x length :=
  congrArg Vector.ofFn <| funext fun j =>
    congrArg (Q.scale (Q.factor.perm.get j) * ·) (alike _ _ clear)

theorem lowerBound {fullRank : Bool} {x : Vector ℝ n} {length : ℝ}
    (clear : ∀ d ∈ Q.lowerBoundDivisors fullRank x length, d ≠ 0) (excess : ℝ) :
    @Problem.lowerBound ℝ (.dividing quotient) m n Q fullRank x length excess =
      Q.lowerBound fullRank x length excess := by
  cases fullRank with
  | false => rfl
  | true =>
      let size := Scalar.norm (fun i => i.val < Q.factor.rank)
        (Q.factor.rtSolve (Q.outward x length))
      let bound (z : Vector ℝ n) : ℝ :=
        let size := Scalar.norm (fun i => i.val < Q.factor.rank) z
        if 0 < size then quotient (quotient (quotient excess Q.delta) size) size else 0
      have pivots (d : ℝ) (member : d ∈ substitutionDivisors Q.factor.rank Q.factor.r) : d ≠ 0 :=
        clear d (List.mem_cons_of_mem _ (List.mem_append_left _ member))
      calc @Problem.lowerBound ℝ (.dividing quotient) m n Q true x length excess
          = bound (@LeastSquares.forwardSubstitute ℝ (.dividing quotient) n Q.factor.rank Q.factor.r
              (@Problem.outward ℝ (.dividing quotient) m n Q x length)) := rfl
        _ = bound (Q.factor.rtSolve (Q.outward x length)) := by
            rw [alike.outward (clear _ List.mem_cons_self), alike.forwardSubstitute pivots,
              Factorization.rtSolve]
        _ = Q.lowerBound true x length excess := ?_
      by_cases positive : 0 < size
      · have radius : Q.delta ≠ 0 := clear _ <| List.mem_cons_of_mem _ <|
          List.mem_append_right _ <| by
            rw [if_pos positive]
            exact List.mem_cons_self
        calc bound (Q.factor.rtSolve (Q.outward x length))
            = quotient (quotient (quotient excess Q.delta) size) size := if_pos positive
          _ = excess / Q.delta / size / size := by
              rw [alike _ _ positive.ne', alike _ _ positive.ne', alike _ _ radius]
          _ = Q.lowerBound true x length excess := (if_pos positive).symm
      · calc bound (Q.factor.rtSolve (Q.outward x length))
            = 0 := if_neg positive
          _ = Q.lowerBound true x length excess := (if_neg positive).symm

theorem gradient (clear : ∀ d ∈ Q.gradientDivisors, d ≠ 0) :
    @Problem.gradient ℝ (.dividing quotient) m n Q = Q.gradient := by
  let pulled (j : Fin n) : ℝ := Scalar.addOver 0 (fun i => i ≤ j && i.val < Q.factor.rank)
    fun i => Q.factor.r i j * Q.rhs i
  let size (ratio : ℝ → ℝ → ℝ) : ℝ := Scalar.norm (fun _ => true) <| Vector.ofFn fun j =>
    ratio (pulled j) (Q.scale (Q.factor.perm.get j))
  have same (j : Fin n) : quotient (pulled j) (Q.scale (Q.factor.perm.get j)) =
      pulled j / Q.scale (Q.factor.perm.get j) :=
    alike _ _ (clear _ (List.mem_map.mpr ⟨j, List.mem_finRange j, rfl⟩))
  calc @Problem.gradient ℝ (.dividing quotient) m n Q
      = size quotient := rfl
    _ = Q.gradient := by
        simp only [size, same]
        rfl

theorem upperBound {gradient : ℝ} (clear : ∀ d ∈ Q.upperBoundDivisors gradient, d ≠ 0) :
    @Problem.upperBound ℝ (.dividing quotient) m n Q gradient = Q.upperBound gradient := by
  have ratio : quotient gradient Q.delta = gradient / Q.delta :=
    alike _ _ (clear _ List.mem_cons_self)
  let floored (upper : ℝ) : ℝ :=
    if upper == 0 then quotient Scalar.minPositive (Scalar.min Q.delta tolerance) else upper
  calc @Problem.upperBound ℝ (.dividing quotient) m n Q gradient
      = floored (quotient gradient Q.delta) := rfl
    _ = floored (gradient / Q.delta) := by rw [ratio]
    _ = Q.upperBound gradient := ?_
  by_cases zero : (gradient / Q.delta == 0) = true
  · have smaller : Scalar.min Q.delta tolerance ≠ 0 := clear _ <| List.mem_cons_of_mem _ <| by
      rw [if_pos zero]
      exact List.mem_singleton_self _
    calc floored (gradient / Q.delta)
        = quotient Scalar.minPositive (Scalar.min Q.delta tolerance) := if_pos zero
      _ = Scalar.minPositive / Scalar.min Q.delta tolerance := alike _ _ smaller
      _ = Q.upperBound gradient := (if_pos zero).symm
  · calc floored (gradient / Q.delta)
        = gradient / Q.delta := if_neg zero
      _ = Q.upperBound gradient := (if_neg zero).symm

theorem start {B : Bounds ℝ} {previous length : ℝ}
    (clear : ∀ d ∈ B.startDivisors previous length, d ≠ 0) (gradient : ℝ) :
    @Bounds.start ℝ (.dividing quotient) B previous gradient length =
      B.start previous gradient length := by
  by_cases zero : (Scalar.min (Scalar.max previous B.lower) B.upper == 0) = true
  · have nonzero : length ≠ 0 := clear _ <| by
      rw [Bounds.startDivisors, if_pos zero]
      exact List.mem_singleton_self _
    calc @Bounds.start ℝ (.dividing quotient) B previous gradient length
        = quotient gradient length := if_pos zero
      _ = gradient / length := alike _ _ nonzero
      _ = B.start previous gradient length := (if_pos zero).symm
  · calc @Bounds.start ℝ (.dividing quotient) B previous gradient length
        = Scalar.min (Scalar.max previous B.lower) B.upper := if_neg zero
      _ = B.start previous gradient length := (if_neg zero).symm

theorem begun {fullRank : Bool} {previous : ℝ} {x : Vector ℝ n}
    (clear : ∀ d ∈ Q.begunDivisors fullRank previous x, d ≠ 0) :
    @Problem.begun ℝ (.dividing quotient) m n Q fullRank previous x =
      Q.begun fullRank previous x := by
  let length := TrustRegion.scaledNorm Q.scale x
  have lower := alike.lowerBound
    (fun d member => clear d (List.mem_append_left _ member)) (length - Q.delta)
  have slope := alike.gradient fun d member =>
    clear d (List.mem_append_right _ (List.mem_append_left _ member))
  have upper := alike.upperBound fun d member => clear d
    (List.mem_append_right _ (List.mem_append_right _ (List.mem_append_left _ member)))
  have start := alike.start (fun d member => clear d (List.mem_append_right _
    (List.mem_append_right _ (List.mem_append_right _ member)))) Q.gradient
  let made (lower upper gradient : ℝ) (start : Bounds ℝ → ℝ) : Search ℝ :=
    { bounds := { lower, upper }, alpha := start { lower, upper }, excess := length - Q.delta }
  calc @Problem.begun ℝ (.dividing quotient) m n Q fullRank previous x
      = made
          (@Problem.lowerBound ℝ (.dividing quotient) m n Q fullRank x length (length - Q.delta))
          (@Problem.upperBound ℝ (.dividing quotient) m n Q
            (@Problem.gradient ℝ (.dividing quotient) m n Q))
          (@Problem.gradient ℝ (.dividing quotient) m n Q)
          fun B => @Bounds.start ℝ (.dividing quotient) B previous
            (@Problem.gradient ℝ (.dividing quotient) m n Q) length := rfl
    _ = made (Q.lowerBound fullRank x length (length - Q.delta)) (Q.upperBound Q.gradient)
          Q.gradient fun B =>
            @Bounds.start ℝ (.dividing quotient) B previous Q.gradient length := by
        rw [lower, slope, upper]
    _ = Q.begun fullRank previous x := congrArg
        (fun alpha => ({ Q.begun fullRank previous x with alpha } : Search ℝ)) start

theorem triangle {alpha : ℝ} (clear : ∀ d ∈ Q.factor.dampedTriangleDivisors Q.rhs
      (Q.scale.map fun d => Scalar.sqrt alpha * d), d ≠ 0) :
    @Problem.triangle ℝ (.dividing quotient) m n Q alpha = Q.triangle alpha :=
  alike.dampedTriangle clear

theorem made {S : Search ℝ} (clear : ∀ d ∈ Q.madeDivisors S, d ≠ 0) :
    @Problem.made ℝ (.dividing quotient) m n Q S = Q.made S := by
  let alpha := S.bounds.positive S.alpha
  have folded := alike.triangle fun d member => clear d (List.mem_append_left _ member)
  have solved := alike.solve fun d member => clear d (List.mem_append_right _ member)
  calc @Problem.made ℝ (.dividing quotient) m n Q S
      = { x := Q.factor.perm.restore (@Triangle.solve ℝ (.dividing quotient) n
            (@Problem.triangle ℝ (.dividing quotient) m n Q alpha)), alpha } := rfl
    _ = { x := Q.factor.perm.restore (Q.triangle alpha).solve, alpha } := by rw [folded, solved]
    _ = Q.made S := rfl

theorem correction {S : Triangle ℝ n} {x : Vector ℝ n} {length : ℝ}
    (clear : ∀ d ∈ Q.correctionDivisors S x length, d ≠ 0) (excess : ℝ) :
    @Problem.correction ℝ (.dividing quotient) m n Q S x length excess =
      Q.correction S x length excess := by
  let size := Scalar.norm (fun _ => true)
    (LeastSquares.forwardSubstitute n S.entry (Q.outward x length))
  let corrected (z : Vector ℝ n) : ℝ :=
    let size := Scalar.norm (fun _ => true) z
    quotient (quotient (quotient excess Q.delta) size) size
  have pivots (d : ℝ) (member : d ∈ substitutionDivisors n S.entry) : d ≠ 0 :=
    clear d (List.mem_cons_of_mem _ (List.mem_append_left _ member))
  have last {d : ℝ} (member : d ∈ [Q.delta, size]) : d ≠ 0 :=
    clear d (List.mem_cons_of_mem _ (List.mem_append_right _ member))
  have radius : Q.delta ≠ 0 := last List.mem_cons_self
  have positive : size ≠ 0 := last (List.mem_cons_of_mem _ (List.mem_singleton_self _))
  calc @Problem.correction ℝ (.dividing quotient) m n Q S x length excess
      = corrected (@LeastSquares.forwardSubstitute ℝ (.dividing quotient) n n S.entry
          (@Problem.outward ℝ (.dividing quotient) m n Q x length)) := rfl
    _ = corrected (LeastSquares.forwardSubstitute n S.entry (Q.outward x length)) := by
        rw [alike.outward (clear _ List.mem_cons_self), alike.forwardSubstitute pivots]
    _ = quotient (quotient (quotient excess Q.delta) size) size := rfl
    _ = excess / Q.delta / size / size := by
        rw [alike _ _ positive, alike _ _ positive, alike _ _ radius]
    _ = Q.correction S x length excess := rfl

theorem next {S : Search ℝ} (made : ∀ d ∈ Q.madeDivisors S, d ≠ 0)
    (clear : ∀ d ∈ Q.newtonDivisors S, d ≠ 0) :
    @Problem.next ℝ (.dividing quotient) m n Q S = Q.next S := by
  have same := alike.made made
  have corrected := alike.correction clear (Q.excess S)
  have folded := alike.triangle fun d member => made d (List.mem_append_left _ member)
  let moved (step : Step ℝ n) (correction : ℝ) : Search ℝ :=
    let excess := TrustRegion.scaledNorm Q.scale step.x - Q.delta
    let bounds := S.bounds.narrow step.alpha excess
    { bounds, alpha := Scalar.max bounds.lower (step.alpha + correction), excess }
  let corrected (step : Step ℝ n) (triangle : Triangle ℝ n) : ℝ :=
    let length := TrustRegion.scaledNorm Q.scale step.x
    @Problem.correction ℝ (.dividing quotient) m n Q triangle step.x length (length - Q.delta)
  calc @Problem.next ℝ (.dividing quotient) m n Q S
      = moved (@Problem.made ℝ (.dividing quotient) m n Q S)
          (corrected (@Problem.made ℝ (.dividing quotient) m n Q S)
            (@Problem.triangle ℝ (.dividing quotient) m n Q (S.bounds.positive S.alpha))) := rfl
    _ = moved (Q.made S) (corrected (Q.made S) (Q.triangle (Q.made S).alpha)) := by
        rw [same, folded]
        rfl
    _ = moved (Q.made S) (Q.newton S) :=
        congrArg (moved (Q.made S)) (alike.correction clear (Q.excess S))
    _ = Q.next S := rfl

theorem ends {S : Search ℝ} (clear : ∀ d ∈ Q.madeDivisors S, d ≠ 0) :
    @Problem.ends ℝ (.dividing quotient) m n Q S = Q.ends S := by
  let accepted (step : Step ℝ n) : Bool :=
    let length := TrustRegion.scaledNorm Q.scale step.x
    Q.accepts S.bounds S.excess (length - Q.delta) length
  exact congrArg accepted (alike.made clear)

/-- By induction on the further steps: both searches make the same step, and both end with it or
both go on from the same state. -/
theorem searchFrom (left number : Nat) {S : Search ℝ}
    (clear : ∀ d ∈ Q.searchDivisors left S, d ≠ 0) :
    @Problem.searchFrom ℝ (.dividing quotient) m n Q left number S =
      Q.searchFrom left number S := by
  let seen (number : Nat) (step : Step ℝ n) : Observation ℝ :=
    .tried number step.alpha (TrustRegion.scaledNorm Q.scale step.x) Q.delta
  induction left generalizing number S with
  | zero =>
      calc @Problem.searchFrom ℝ (.dividing quotient) m n Q 0 number S
          = { step := @Problem.made ℝ (.dividing quotient) m n Q S
              seen := [seen number (@Problem.made ℝ (.dividing quotient) m n Q S)] } := rfl
        _ = { step := Q.made S, seen := [seen number (Q.made S)] } := by rw [alike.made clear]
        _ = Q.searchFrom 0 number S := rfl
  | succ left ih =>
      have here (d : ℝ) (member : d ∈ Q.madeDivisors S) : d ≠ 0 :=
        clear d (List.mem_append_left _ member)
      have same := alike.made here
      have ending := alike.ends here
      by_cases last : Q.ends S = true
      · calc @Problem.searchFrom ℝ (.dividing quotient) m n Q (left + 1) number S
            = { step := @Problem.made ℝ (.dividing quotient) m n Q S
                seen := [seen number (@Problem.made ℝ (.dividing quotient) m n Q S)] } :=
              @Problem.searchFrom_of_ends ℝ (.dividing quotient) m n Q left number S
                (ending.trans last)
          _ = { step := Q.made S, seen := [seen number (Q.made S)] } := by rw [same]
          _ = Q.searchFrom (left + 1) number S := (Q.searchFrom_of_ends left number last).symm
      · have continues := Bool.eq_false_iff.mpr last
        have divisors : Q.searchDivisors (left + 1) S = Q.madeDivisors S ++
            (Q.newtonDivisors S ++ Q.searchDivisors left (Q.next S)) :=
          congrArg (Q.madeDivisors S ++ ·) (if_neg last)
        rw [divisors] at clear
        have moved := alike.next here fun d member =>
          clear d (List.mem_append_right _ (List.mem_append_left _ member))
        have rest := ih (number + 1) (S := Q.next S) fun d member =>
          clear d (List.mem_append_right _ (List.mem_append_right _ member))
        let before (step : Step ℝ n) (rest : Found ℝ n) : Found ℝ n :=
          { rest with seen := seen number step :: rest.seen }
        calc @Problem.searchFrom ℝ (.dividing quotient) m n Q (left + 1) number S
            = before (@Problem.made ℝ (.dividing quotient) m n Q S)
                (@Problem.searchFrom ℝ (.dividing quotient) m n Q left (number + 1)
                  (@Problem.next ℝ (.dividing quotient) m n Q S)) :=
              @Problem.searchFrom_of_continues ℝ (.dividing quotient) m n Q left number S
                (ending.trans continues)
          _ = before (Q.made S) (Q.searchFrom left (number + 1) (Q.next S)) := by
              rw [same, moved, rest]
          _ = Q.searchFrom (left + 1) number S :=
              (Q.searchFrom_of_continues left number continues).symm

theorem solveProblem {fullRank : Bool} {previous : ℝ}
    (clear : ∀ d ∈ Q.solveDivisors fullRank previous, d ≠ 0) :
    @Problem.solve ℝ (.dividing quotient) m n Q fullRank previous =
      Q.solve fullRank previous := by
  obtain ⟨x, step⟩ := Q.gaussNewton_ok fullRank
  have undamped := (alike.gaussNewton fun d member =>
    clear d (List.mem_append_left _ member)).trans step
  by_cases fits : TrustRegion.scaledNorm Q.scale x - Q.delta ≤ tolerance * Q.delta
  · exact (@Problem.solve_of_fits ℝ (.dividing quotient) m n Q fullRank x previous undamped
      fits).trans (Q.solve_of_fits previous step fits).symm
  · have divisors : Q.solveDivisors fullRank previous = Q.gaussNewtonDivisors fullRank ++
        (Q.begunDivisors fullRank previous x ++
          Q.searchDivisors furtherSteps (Q.begun fullRank previous x)) := by
      rw [Problem.solveDivisors, step]
      exact congrArg (Q.gaussNewtonDivisors fullRank ++ ·) (if_neg fits)
    rw [divisors] at clear
    have begun := alike.begun fun d member =>
      clear d (List.mem_append_right _ (List.mem_append_left _ member))
    have searched := alike.searchFrom furtherSteps 1 fun d member =>
      clear d (List.mem_append_right _ (List.mem_append_right _ member))
    calc @Problem.solve ℝ (.dividing quotient) m n Q fullRank previous
        = .ok (@Problem.searchFrom ℝ (.dividing quotient) m n Q furtherSteps 1
            (@Problem.begun ℝ (.dividing quotient) m n Q fullRank previous x)) :=
          @Problem.solve_of_long ℝ (.dividing quotient) m n Q fullRank x previous undamped fits
      _ = .ok (Q.searchFrom furtherSteps 1 (Q.begun fullRank previous x)) := by
          rw [begun, searched]
      _ = Q.solve fullRank previous := (Q.solve_of_long previous step fits).symm

end DividesAlike

namespace Damping.Problem

theorem solve_dampings (radius : 0 < Q.delta) (fullRank : Bool) (previous : ℝ) :
    ∃ found, Q.solve fullRank previous = .ok found ∧
      ∀ step alpha length delta, .tried step alpha length delta ∈ found.seen → 0 < alpha := by
  obtain ⟨x, undamped⟩ := Q.gaussNewton_ok fullRank
  by_cases fits : TrustRegion.scaledNorm Q.scale x - Q.delta ≤ tolerance * Q.delta
  · refine ⟨_, Q.solve_of_fits previous undamped fits, fun step alpha length delta member => ?_⟩
    cases List.mem_singleton.mp member
  · obtain ⟨k, ended⟩ := Q.searchFrom_ended furtherSteps 1 (Q.begun fullRank previous x)
    refine ⟨_, Q.solve_of_long previous undamped fits, fun step alpha length delta member => ?_⟩
    rw [ended.seen] at member
    obtain ⟨i, _, observed⟩ := List.mem_map.mp member
    injection observed with _ damping
    rw [← damping]
    exact ((begun_usable radius fullRank previous fits).iterate Q i).made_pos Q

/-- No divisor of a solve is zero, in the solve or in what it calls, and every damping is positive.
That no divisor is left out shows in the last part: the solve does not tell divisions apart that
differ by zero only. -/
theorem solve_divides (factors : Q.factor.Factors A) (positive : ∀ p, 0 < Q.scale p)
    (radius : 0 < Q.delta) (fullRank : Bool) (previous : ℝ) :
    (∀ d ∈ Q.solveDivisors fullRank previous, d ≠ 0) ∧
      (∃ found, Q.solve fullRank previous = .ok found ∧
        ∀ step alpha length delta, .tried step alpha length delta ∈ found.seen → 0 < alpha) ∧
      ∀ quotient, DividesAlike quotient →
        @solve ℝ (.dividing quotient) m n Q fullRank previous = Q.solve fullRank previous := by
  have nonzero := solveDivisors_ne_zero factors positive radius fullRank previous
  exact ⟨nonzero, solve_dampings radius fullRank previous,
    fun _ alike => alike.solveProblem nonzero⟩

/-- Two equal columns of which one is discarded, a right-hand side too long for the radius, and no
`alpha` from before. -/
theorem solve_divides_deficient :
    let A : DenseMatrix ℝ 2 2 := .ofFn fun _ _ => 1
    let Q : Problem ℝ 2 2 :=
      { factor := .ofMatrix A, rhs := #v[5, 0], scale := #v[1, 2], delta := 1 }
    (∀ d ∈ Q.solveDivisors false 0, d ≠ 0) ∧
      (∃ found, Q.solve false 0 = .ok found ∧
        ∀ step alpha length delta, .tried step alpha length delta ∈ found.seen → 0 < alpha) ∧
      ∀ quotient, DividesAlike quotient →
        @solve ℝ (.dividing quotient) 2 2 Q false 0 = Q.solve false 0 := by
  intro A Q
  refine solve_divides (Factorization.ofMatrix_factors A) (fun p => ?_) one_pos false 0
  fin_cases p
  · exact one_pos
  · exact two_pos

end Damping.Problem

end LeastSquares
