import LeastSquares.Proofs.Damping.Newton
import LeastSquares.Proofs.QR.Divisors

/-!
# What the search divides by

The divisors of the search for the damping parameter, at the states that it comes to. None is zero
in exact arithmetic, for factors of any rank and any right-hand side. A length is not zero, because
a Gauss-Newton step that has no length fits and a damped step that has none ends the search. The
size in a correction is not zero where the step is not: it says how fast the length falls. The
pivots of a damped triangle are not zero because every `alpha` is positive.
-/

set_option autoImplicit false

namespace LeastSquares.Damping

/-! ## The lists -/

section Lists

variable {α : Type} [Scalar α] {m n : Nat}

def Bounds.startDivisors (B : Bounds α) (previous length : α) : List α :=
  if Scalar.min (Scalar.max previous B.lower) B.upper == 0 then [length] else []

namespace Problem

variable (Q : Problem α m n)

def gaussNewtonDivisors (fullRank : Bool) : List α :=
  if Q.factor.rank = 0 then []
  else if fullRank then substitutionDivisors Q.factor.rank Q.factor.r
  else Q.factor.minimumNormDivisors

def lowerBoundDivisors (fullRank : Bool) (x : Vector α n) (length : α) : List α :=
  if fullRank then
    let z := Q.factor.rtSolve (Q.outward x length)
    let size := Scalar.norm (fun i => i.val < Q.factor.rank) z
    length :: (substitutionDivisors Q.factor.rank Q.factor.r ++
      if 0 < size then [Q.delta, size] else [])
  else []

def gradientDivisors : List α := (List.finRange n).map fun j => Q.scale (Q.factor.perm.get j)

def upperBoundDivisors (gradient : α) : List α :=
  Q.delta :: if gradient / Q.delta == 0 then [Scalar.min Q.delta tolerance] else []

def begunDivisors (fullRank : Bool) (previous : α) (x : Vector α n) : List α :=
  Q.lowerBoundDivisors fullRank x (TrustRegion.scaledNorm Q.scale x) ++
    (Q.gradientDivisors ++ (Q.upperBoundDivisors Q.gradient ++
      (Q.begun fullRank previous x).bounds.startDivisors previous
        (TrustRegion.scaledNorm Q.scale x)))

def madeDivisors (S : Search α) : List α :=
  let alpha := S.bounds.positive S.alpha
  Q.factor.dampedTriangleDivisors Q.rhs (Q.scale.map fun d => Scalar.sqrt alpha * d) ++
    (Q.triangle alpha).solveDivisors

def correctionDivisors (S : Triangle α n) (x : Vector α n) (length : α) : List α :=
  let z := forwardSubstitute n S.entry (Q.outward x length)
  length :: (substitutionDivisors n S.entry ++ [Q.delta, Scalar.norm (fun _ => true) z])

def newtonDivisors (S : Search α) : List α :=
  Q.correctionDivisors (Q.triangle (Q.made S).alpha) (Q.made S).x (Q.length S)

def searchDivisors : (left : Nat) → Search α → List α
  | 0, S => Q.madeDivisors S
  | left + 1, S =>
    Q.madeDivisors S ++
      if Q.ends S then [] else Q.newtonDivisors S ++ searchDivisors left (Q.next S)

def solveDivisors (fullRank : Bool) (previous : α) : List α :=
  Q.gaussNewtonDivisors fullRank ++
    match Q.gaussNewton fullRank with
    | .error _ => []
    | .ok x =>
      if TrustRegion.scaledNorm Q.scale x - Q.delta ≤ tolerance * Q.delta then []
      else Q.begunDivisors fullRank previous x ++
        Q.searchDivisors furtherSteps (Q.begun fullRank previous x)

end Problem

end Lists

/-! ## None of them is zero -/

theorem Bounds.startDivisors_ne_zero (B : Bounds ℝ) (previous : ℝ) {length : ℝ}
    (nonzero : length ≠ 0) : ∀ d ∈ B.startDivisors previous length, d ≠ 0 := by
  intro d member
  rw [Bounds.startDivisors] at member
  split at member
  · rw [List.mem_singleton.mp member]
    exact nonzero
  · cases member

namespace Problem

variable {m n : Nat} {Q : Problem ℝ m n} {A : DenseMatrix ℝ m n}

theorem gaussNewtonDivisors_ne_zero (factors : Q.factor.Factors A) (fullRank : Bool) :
    ∀ d ∈ Q.gaussNewtonDivisors fullRank, d ≠ 0 := by
  intro d member
  rw [gaussNewtonDivisors] at member
  split at member
  · cases member
  · split at member
    · exact factors.substitutionDivisors_ne_zero d member
    · exact Q.factor.minimumNormDivisors_ne_zero d member

theorem lowerBoundDivisors_ne_zero (factors : Q.factor.Factors A) (radius : 0 < Q.delta)
    (fullRank : Bool) (x : Vector ℝ n) {length : ℝ} (nonzero : length ≠ 0) :
    ∀ d ∈ Q.lowerBoundDivisors fullRank x length, d ≠ 0 := by
  intro d member
  rw [lowerBoundDivisors] at member
  split at member
  · rcases List.mem_cons.mp member with rfl | member
    · exact nonzero
    rcases List.mem_append.mp member with pivot | member
    · exact factors.substitutionDivisors_ne_zero d pivot
    split at member
    · rename_i size
      rcases List.mem_cons.mp member with rfl | member
      · exact radius.ne'
      · rw [List.mem_singleton.mp member]
        exact size.ne'
    · cases member
  · cases member

theorem gradientDivisors_ne_zero (positive : ∀ p, 0 < Q.scale p) :
    ∀ d ∈ Q.gradientDivisors, d ≠ 0 := by
  intro d member
  obtain ⟨j, _, rfl⟩ := List.mem_map.mp member
  exact (positive _).ne'

theorem upperBoundDivisors_ne_zero (radius : 0 < Q.delta) (gradient : ℝ) :
    ∀ d ∈ Q.upperBoundDivisors gradient, d ≠ 0 := by
  intro d member
  rcases List.mem_cons.mp member with rfl | member
  · exact radius.ne'
  · split at member
    · rw [List.mem_singleton.mp member, Scalar.min_real]
      exact (lt_min radius (by norm_num [tolerance])).ne'
    · cases member

theorem begunDivisors_ne_zero (factors : Q.factor.Factors A) (positive : ∀ p, 0 < Q.scale p)
    (radius : 0 < Q.delta) (fullRank : Bool) (previous : ℝ) {x : Vector ℝ n}
    (nonzero : TrustRegion.scaledNorm Q.scale x ≠ 0) :
    ∀ d ∈ Q.begunDivisors fullRank previous x, d ≠ 0 := by
  intro d member
  rcases List.mem_append.mp member with lower | member
  · exact lowerBoundDivisors_ne_zero factors radius fullRank x nonzero d lower
  rcases List.mem_append.mp member with gradient | member
  · exact gradientDivisors_ne_zero positive d gradient
  rcases List.mem_append.mp member with upper | start
  · exact upperBoundDivisors_ne_zero radius _ d upper
  · exact Bounds.startDivisors_ne_zero _ previous nonzero d start

theorem madeDivisors_ne_zero (Q : Problem ℝ m n) (S : Search ℝ) :
    ∀ d ∈ Q.madeDivisors S, d ≠ 0 := by
  intro d member
  rcases List.mem_append.mp member with folded | solved
  · exact Q.factor.dampedTriangleDivisors_ne_zero _ _ d folded
  · exact Triangle.solveDivisors_ne_zero _ d solved

theorem length_ne_zero_of_continues {S : Search ℝ} (continues : Q.ends S = false) :
    Q.length S ≠ 0 := by
  rintro zero
  rw [Problem.ends, accepts, zero, beq_self_eq_true, Bool.or_true] at continues
  cases continues

theorem newtonDivisors_ne_zero (factors : Q.factor.Factors A) (positive : ∀ p, 0 < Q.scale p)
    (radius : 0 < Q.delta) {S : Search ℝ} (usable : S.Usable) (continues : Q.ends S = false) :
    ∀ d ∈ Q.newtonDivisors S, d ≠ 0 := by
  have damped := usable.made_pos Q
  have long := length_ne_zero_of_continues continues
  have moved : Q.scaled (Q.made S).x ≠ 0 := fun zero => long <| by
    rw [length, scaledNorm_eq_euclid, zero, euclid_eq_norm, WithLp.toLp_zero, norm_zero]
  have falling := (made_tangent factors positive damped moved).square_pos
  intro d member
  rcases List.mem_cons.mp member with rfl | member
  · exact long
  rcases List.mem_append.mp member with pivot | member
  · obtain ⟨j, _, rfl⟩ := mem_substitutionDivisors.mp pivot
    exact triangle_diag positive damped j
  rcases List.mem_cons.mp member with rfl | size
  · exact radius.ne'
  · rw [List.mem_singleton.mp size]
    exact mul_self_pos.mp falling

theorem searchDivisors_ne_zero (factors : Q.factor.Factors A) (positive : ∀ p, 0 < Q.scale p)
    (radius : 0 < Q.delta) (left : Nat) {S : Search ℝ} (usable : S.Usable) :
    ∀ d ∈ Q.searchDivisors left S, d ≠ 0 := by
  induction left generalizing S with
  | zero => exact Q.madeDivisors_ne_zero S
  | succ left ih =>
      intro d member
      rcases List.mem_append.mp member with made | member
      · exact Q.madeDivisors_ne_zero S d made
      split at member
      · cases member
      · rename_i continues
        rcases List.mem_append.mp member with correction | rest
        · exact newtonDivisors_ne_zero factors positive radius usable
            (Bool.eq_false_iff.mpr continues) d correction
        · exact ih (usable.next Q) d rest

theorem solveDivisors_ne_zero (factors : Q.factor.Factors A) (positive : ∀ p, 0 < Q.scale p)
    (radius : 0 < Q.delta) (fullRank : Bool) (previous : ℝ) :
    ∀ d ∈ Q.solveDivisors fullRank previous, d ≠ 0 := by
  intro d member
  rcases List.mem_append.mp member with undamped | member
  · exact gaussNewtonDivisors_ne_zero factors fullRank d undamped
  split at member
  · cases member
  rename_i x _
  split at member
  · cases member
  rename_i long
  have nonzero : TrustRegion.scaledNorm Q.scale x ≠ 0 :=
    (radius.trans (sub_pos.mp (excess_pos_of_long radius long))).ne'
  rcases List.mem_append.mp member with begun | searched
  · exact begunDivisors_ne_zero factors positive radius fullRank previous nonzero d begun
  · exact searchDivisors_ne_zero factors positive radius furtherSteps
      (begun_usable radius fullRank previous long) d searched

end Problem

end LeastSquares.Damping
