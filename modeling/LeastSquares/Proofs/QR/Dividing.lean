import LeastSquares.Proofs.QR.Divisors

/-!
# Other divisions

Exact arithmetic has a value for the division by zero, and in principle a result could depend on it.
With `Scalar.dividing quotient` for scalars the definitions are read with another division. If that
one differs only where the divisor is zero, every function gives the same as before unless a zero is
on the list of its divisors. So no divisor is missing there.
-/

set_option autoImplicit false

namespace LeastSquares

@[reducible] noncomputable def Scalar.dividing (quotient : ℝ → ℝ → ℝ) : Scalar ℝ :=
  { Scalar.real with div := quotient }

/-- The division differs from the usual one by zero only. -/
def DividesAlike (quotient : ℝ → ℝ → ℝ) : Prop := ∀ x y, y ≠ 0 → quotient x y = x / y

variable {m n : Nat} {quotient : ℝ → ℝ → ℝ}

namespace DividesAlike

variable (alike : DividesAlike quotient)

include alike

/-! ## Substitution -/

theorem backSubstitute {bound : Nat} {U : Fin n → Fin n → ℝ}
    (clear : ∀ d ∈ substitutionDivisors bound U, d ≠ 0) (rhs : Vector ℝ n) :
    @LeastSquares.backSubstitute ℝ (.dividing quotient) n bound U rhs =
      LeastSquares.backSubstitute bound U rhs := by
  refine congrArg (Fin.foldr n · (Vector.replicate n 0)) ?_
  funext j y
  by_cases inside : j.val < bound
  · rw [if_pos inside, if_pos inside]
    exact congrArg (fun x => y.set j x j.isLt)
      (alike _ _ (clear _ (mem_substitutionDivisors.mpr ⟨j, inside, rfl⟩)))
  · rw [if_neg inside, if_neg inside]

theorem forwardSubstitute {bound : Nat} {U : Fin n → Fin n → ℝ}
    (clear : ∀ d ∈ substitutionDivisors bound U, d ≠ 0) (rhs : Vector ℝ n) :
    @LeastSquares.forwardSubstitute ℝ (.dividing quotient) n bound U rhs =
      LeastSquares.forwardSubstitute bound U rhs := by
  refine congrArg (Fin.foldl n · (Vector.replicate n 0)) ?_
  funext y j
  by_cases inside : j.val < bound
  · rw [if_pos inside, if_pos inside]
    exact congrArg (fun x => y.set j x j.isLt)
      (alike _ _ (clear _ (mem_substitutionDivisors.mpr ⟨j, inside, rfl⟩)))
  · rw [if_neg inside, if_neg inside]

/-! ## Factorizations -/

theorem normalize {norm : ℝ} (clear : norm ≠ 0) (w : Vector ℝ m) (k : Fin m) :
    @Reflector.normalize ℝ (.dividing quotient) m norm w k = Reflector.normalize norm w k := by
  refine congrArg Vector.ofFn ?_
  funext i
  have same := alike (w i) norm clear
  by_cases lead : i = k
  · rw [if_pos lead, if_pos lead]
    exact congrArg (· + 1) same
  · rw [if_neg lead, if_neg lead]
    by_cases below : k < i
    · rw [if_pos below, if_pos below]
      exact same
    · rw [if_neg below, if_neg below]

theorem apply {v : Vector ℝ m} {k : Fin m} (clear : v k ≠ 0) (start : ℝ) (w : Vector ℝ m) :
    @Reflector.apply ℝ (.dividing quotient) m start v k w = Reflector.apply start v k w := by
  refine congrArg Vector.ofFn ?_
  funext i
  by_cases below : k ≤ i
  · rw [if_pos below, if_pos below]
    exact congrArg (fun scale => w i - scale * v i) (alike _ _ clear)
  · rw [if_neg below, if_neg below]

theorem finishRow (c : PivotColumn ℝ m n) (k : Fin m) :
    @PivotColumn.finishRow ℝ (.dividing quotient) m n c k = c.finishRow k := by
  let lowered := Scalar.max (c.remaining - c.entries k * c.entries k) 0
  let finished (ratio : ℝ) : PivotColumn ℝ m n :=
    if 0.05 * ratio ≤ Scalar.epsilon then
      let square := Scalar.sumSquares (fun i => k < i) c.entries
      { c with remaining := square, reference := square }
    else { c with remaining := lowered }
  by_cases positive : 0 < c.reference
  · calc @PivotColumn.finishRow ℝ (.dividing quotient) m n c k
        = finished (quotient lowered c.reference) := if_pos positive
      _ = finished (lowered / c.reference) := congrArg finished (alike _ _ positive.ne')
      _ = c.finishRow k := (if_pos positive).symm
  · calc @PivotColumn.finishRow ℝ (.dividing quotient) m n c k
        = c := if_neg positive
      _ = c.finishRow k := (if_neg positive).symm

theorem reflect {v : Vector ℝ m} {k : Fin m} {c : PivotColumn ℝ m n}
    (clear : ∀ d ∈ c.reflectDivisors v k, d ≠ 0) :
    @PivotColumn.reflect ℝ (.dividing quotient) m n v k c = c.reflect v k := by
  have applied := alike.apply (clear _ List.mem_cons_self) 0 c.entries
  exact (congrArg (fun entries => @PivotColumn.finishRow ℝ (.dividing quotient) m n
    { c with entries } k) applied).trans (alike.finishRow _ k)

theorem eliminate {S : Reduction ℝ m n} {k : Fin (min m n)}
    (clear : ∀ d ∈ S.eliminateDivisors k, d ≠ 0) :
    @Reduction.eliminate ℝ (.dividing quotient) m n S k = S.eliminate k := by
  let row := stepRow k
  let c := S.cols (stepCol k)
  let norm := Reflector.signedLike (c.entries row) (Reflector.tailNorm c.entries row)
  let made (v : Vector ℝ m) (behind : Fin n → PivotColumn ℝ m n) : Reduction ℝ m n :=
    { cols := Vector.ofFn fun j =>
        if j = stepCol k then { c with entries := v }
        else if stepCol k < j then behind j else S.cols j
      diag := S.diag.set (stepCol k) (-norm) (stepCol k).isLt }
  let v := Reflector.normalize norm c.entries row
  have stored : @Reflector.normalize ℝ (.dividing quotient) m norm c.entries row = v :=
    alike.normalize (clear _ List.mem_cons_self) c.entries row
  have behind (j : Fin n) (later : stepCol k < j) :
      @PivotColumn.reflect ℝ (.dividing quotient) m n v row (S.cols j) = (S.cols j).reflect v row :=
    alike.reflect fun d member => clear d (List.mem_cons_of_mem _
      (List.mem_flatMap.mpr ⟨j, List.mem_filter.mpr ⟨List.mem_finRange j, decide_eq_true later⟩,
        member⟩))
  calc @Reduction.eliminate ℝ (.dividing quotient) m n S k
      = made (@Reflector.normalize ℝ (.dividing quotient) m norm c.entries row) fun j =>
          @PivotColumn.reflect ℝ (.dividing quotient) m n
            (@Reflector.normalize ℝ (.dividing quotient) m norm c.entries row) row (S.cols j) := rfl
    _ = made v fun j => @PivotColumn.reflect ℝ (.dividing quotient) m n v row (S.cols j) := by
        rw [stored]
    _ = made v fun j => (S.cols j).reflect v row := by
        refine congrArg (fun cols => ({ cols, diag := _ } : Reduction ℝ m n))
          (congrArg Vector.ofFn (funext fun j => ?_))
        by_cases later : stepCol k < j
        · dsimp only
          rw [behind j later]
        · rw [if_neg later, if_neg later]
    _ = S.eliminate k := rfl

theorem reduceFrom (t k : Nat) (h : k + t = min m n) (S : Reduction ℝ m n)
    (clear : ∀ d ∈ Reduction.reduceDivisors t k h S, d ≠ 0) :
    @Reduction.reduceFrom ℝ (.dividing quotient) m n t k h S = Reduction.reduceFrom t k h S := by
  induction t generalizing k S with
  | zero => rfl
  | succ t ih =>
      let step : Fin (min m n) := ⟨k, by omega⟩
      let brought := S.bringPivot (stepCol step)
      by_cases exhausted : brought.exhausted step = true
      · calc @Reduction.reduceFrom ℝ (.dividing quotient) m n (t + 1) k h S
            = { brought with rank := k, rank_le := by omega } := if_pos exhausted
          _ = Reduction.reduceFrom (t + 1) k h S := (if_pos exhausted).symm
      · have divisors : Reduction.reduceDivisors (t + 1) k h S = brought.eliminateDivisors step ++
            Reduction.reduceDivisors t (k + 1) (by omega) (brought.eliminate step) :=
          if_neg exhausted
        rw [divisors] at clear
        have once := alike.eliminate fun d member => clear d (List.mem_append_left _ member)
        calc @Reduction.reduceFrom ℝ (.dividing quotient) m n (t + 1) k h S
            = @Reduction.reduceFrom ℝ (.dividing quotient) m n t (k + 1) (by omega)
                (@Reduction.eliminate ℝ (.dividing quotient) m n brought step) := if_neg exhausted
          _ = @Reduction.reduceFrom ℝ (.dividing quotient) m n t (k + 1) (by omega)
                (brought.eliminate step) := by rw [once]
          _ = Reduction.reduceFrom t (k + 1) (by omega) (brought.eliminate step) :=
              ih (k + 1) _ _ fun d member => clear d (List.mem_append_right _ member)
          _ = Reduction.reduceFrom (t + 1) k h S := (if_neg exhausted).symm

theorem ofMatrix {A : DenseMatrix ℝ m n} (clear : ∀ d ∈ Factorization.ofMatrixDivisors A, d ≠ 0) :
    @Factorization.ofMatrix ℝ (.dividing quotient) m n A = .ofMatrix A := by
  have reduced := alike.reduceFrom (min m n) 0 (Nat.zero_add _) (Reduction.ofMatrix A) clear
  let made (reduced : Reduced ℝ m n) : Factorization ℝ m n :=
    { packed := .ofCols (reduced.cols.map (·.entries))
      diag := reduced.diag
      perm := ⟨reduced.cols.map (·.source)⟩
      norms := Vector.ofFn fun j => Scalar.norm (fun _ => true) (A.col j)
      rank := reduced.rank
      rank_le := reduced.rank_le }
  exact congrArg made reduced

theorem qMul {F : Factorization ℝ m n} (clear : ∀ d ∈ F.reflectDivisors, d ≠ 0)
    (b : Vector ℝ m) : @Factorization.qMul ℝ (.dividing quotient) m n F b = F.qMul b := by
  refine congrArg (Fin.foldr F.rank · b) ?_
  funext k b
  let step : Fin (min m n) := k.castLE F.rank_le
  have lead : F.packed.col (stepCol step) (stepRow step) ≠ 0 := by
    rw [DenseMatrix.col, Vector.get_ofFn]
    exact clear _ (List.mem_map.mpr ⟨k, List.mem_finRange k, rfl⟩)
  exact alike.apply lead (-0) b

theorem minimumNorm {F : Factorization ℝ m n} (clear : ∀ d ∈ F.minimumNormDivisors, d ≠ 0)
    (c : Vector ℝ n) :
    @Factorization.minimumNorm ℝ (.dividing quotient) m n F c = F.minimumNorm c := by
  by_cases none : F.rank = 0
  · calc @Factorization.minimumNorm ℝ (.dividing quotient) m n F c
        = .ok (Vector.replicate n 0) := if_pos none
      _ = F.minimumNorm c := (if_pos none).symm
  · have divisors : F.minimumNormDivisors = Factorization.ofMatrixDivisors F.lower ++
        if F.rank < F.inner.rank then []
        else substitutionDivisors F.inner.rank F.inner.r ++ F.inner.reflectDivisors :=
      if_neg none
    rw [divisors] at clear
    have inner : @Factorization.inner ℝ (.dividing quotient) m n F = F.inner :=
      alike.ofMatrix fun d member => clear d (List.mem_append_left _ member)
    calc @Factorization.minimumNorm ℝ (.dividing quotient) m n F c
        = @Factorization.minimumNormVia ℝ (.dividing quotient) m n F
            (@Factorization.inner ℝ (.dividing quotient) m n F) c := if_neg none
      _ = @Factorization.minimumNormVia ℝ (.dividing quotient) m n F F.inner c := by rw [inner]
      _ = F.minimumNormVia F.inner c := ?_
      _ = F.minimumNorm c := (if_neg none).symm
    by_cases surplus : F.rank < F.inner.rank
    · calc @Factorization.minimumNormVia ℝ (.dividing quotient) m n F F.inner c
          = .error (.dimensionMismatch F.inner.rank F.rank) := if_pos surplus
        _ = F.minimumNormVia F.inner c := (if_pos surplus).symm
    · rw [if_neg surplus] at clear
      have solved := alike.forwardSubstitute
        (fun d member => clear d (List.mem_append_right _ (List.mem_append_left _ member)))
        (F.innerRhs F.inner c)
      have turned := alike.qMul
        fun d member => clear d (List.mem_append_right _ (List.mem_append_right _ member))
      calc @Factorization.minimumNormVia ℝ (.dividing quotient) m n F F.inner c
          = .ok (F.perm.restore (@Factorization.qMul ℝ (.dividing quotient) n n F.inner
              (@LeastSquares.forwardSubstitute ℝ (.dividing quotient) n F.inner.rank F.inner.r
                (F.innerRhs F.inner c)))) := if_neg surplus
        _ = .ok (F.perm.restore (F.inner.qMul (LeastSquares.forwardSubstitute F.inner.rank F.inner.r
              (F.innerRhs F.inner c)))) := by rw [solved, turned]
        _ = F.minimumNormVia F.inner c := (if_neg surplus).symm

/-! ## Damped solves -/

theorem givens {a b : ℝ} (clear : ∀ d ∈ givensDivisors a b, d ≠ 0) :
    @LeastSquares.givens ℝ (.dividing quotient) a b = LeastSquares.givens a b := by
  by_cases large : Scalar.abs a < Scalar.abs b
  · have divisors : givensDivisors a b =
        [b, Scalar.sqrt (0.25 + 0.25 * (a / b) * (a / b))] := if_pos large
    rw [divisors] at clear
    have ratio : quotient a b = a / b := alike _ _ (clear _ List.mem_cons_self)
    have sine := alike 0.5 _ (clear _ (List.mem_cons_of_mem _ (List.mem_singleton_self _)))
    let rotation (cotan sin : ℝ) : ℝ × ℝ := (sin * cotan, sin)
    calc @LeastSquares.givens ℝ (.dividing quotient) a b
        = rotation (quotient a b) (quotient 0.5
            (Scalar.sqrt (0.25 + 0.25 * quotient a b * quotient a b))) := if_pos large
      _ = rotation (a / b) (0.5 / Scalar.sqrt (0.25 + 0.25 * (a / b) * (a / b))) := by
          rw [ratio, sine]
      _ = LeastSquares.givens a b := (if_pos large).symm
  · have divisors : givensDivisors a b =
        [a, Scalar.sqrt (0.25 + 0.25 * (b / a) * (b / a))] := if_neg large
    rw [divisors] at clear
    have ratio : quotient b a = b / a := alike _ _ (clear _ List.mem_cons_self)
    have cosine := alike 0.5 _ (clear _ (List.mem_cons_of_mem _ (List.mem_singleton_self _)))
    let rotation (tan cos : ℝ) : ℝ × ℝ := (cos, cos * tan)
    calc @LeastSquares.givens ℝ (.dividing quotient) a b
        = rotation (quotient b a) (quotient 0.5
            (Scalar.sqrt (0.25 + 0.25 * quotient b a * quotient b a))) := if_neg large
      _ = rotation (b / a) (0.5 / Scalar.sqrt (0.25 + 0.25 * (b / a) * (b / a))) := by
          rw [ratio, cosine]
      _ = LeastSquares.givens a b := (if_neg large).symm

theorem rotate {S : Folding ℝ n} {k : Fin n} (clear : ∀ d ∈ S.rotateDivisors k, d ≠ 0) :
    @Folding.rotate ℝ (.dividing quotient) n S k = S.rotate k := by
  by_cases zero : (S.extra k == 0) = true
  · calc @Folding.rotate ℝ (.dividing quotient) n S k = S := if_pos zero
      _ = S.rotate k := (if_pos zero).symm
  · have divisors : S.rotateDivisors k = givensDivisors (S.rows k k) (S.extra k) := if_neg zero
    rw [divisors] at clear
    let mixed (rotation : ℝ × ℝ) : Folding ℝ n :=
      let row := S.rows k
      let (cos, sin) := rotation
      { rows := S.rows.set k (Vector.ofFn fun i =>
          if k ≤ i then cos * row i + sin * S.extra i else row i) k.isLt
        rhs := S.rhs.set k (cos * S.rhs k + sin * S.carried) k.isLt
        extra := Vector.ofFn fun i =>
          if k < i then -sin * row i + cos * S.extra i else S.extra i
        carried := -sin * S.rhs k + cos * S.carried }
    calc @Folding.rotate ℝ (.dividing quotient) n S k
        = mixed (@LeastSquares.givens ℝ (.dividing quotient) (S.rows k k) (S.extra k)) :=
          if_neg zero
      _ = mixed (LeastSquares.givens (S.rows k k) (S.extra k)) := by rw [alike.givens clear]
      _ = S.rotate k := (if_neg zero).symm

theorem fold {S : Triangle ℝ n} {j : Fin n} {d : ℝ} (clear : ∀ e ∈ S.foldDivisors j d, e ≠ 0) :
    @Triangle.fold ℝ (.dividing quotient) n S j d = S.fold j d := by
  by_cases zero : (d == 0) = true
  · calc @Triangle.fold ℝ (.dividing quotient) n S j d = S := if_pos zero
      _ = S.fold j d := (if_pos zero).symm
  · have divisors : S.foldDivisors j d = trail
        (fun (S : Folding ℝ n) k => if j ≤ k then S.rotate k else S)
        (fun S k => if j ≤ k then S.rotateDivisors k else []) (S.withExtra j d) := if_neg zero
    rw [divisors] at clear
    have same (S : Folding ℝ n) (k : Fin n)
        (here : ∀ e ∈ if j ≤ k then S.rotateDivisors k else [], e ≠ 0) :
        (if j ≤ k then @Folding.rotate ℝ (.dividing quotient) n S k else S) =
          if j ≤ k then S.rotate k else S := by
      by_cases later : j ≤ k
      · rw [if_pos later] at here
        rw [if_pos later, if_pos later, alike.rotate here]
      · rw [if_neg later, if_neg later]
    have folded := foldl_eq_of_trail (P := (· ≠ 0)) same clear
    calc @Triangle.fold ℝ (.dividing quotient) n S j d
        = (Fin.foldl n
            (fun S k => if j ≤ k then @Folding.rotate ℝ (.dividing quotient) n S k else S)
            (S.withExtra j d)).toTriangle := if_neg zero
      _ = (Fin.foldl n (fun S k => if j ≤ k then S.rotate k else S)
            (S.withExtra j d)).toTriangle := by rw [folded]
      _ = S.fold j d := (if_neg zero).symm

theorem dampedTriangle {F : Factorization ℝ m n} {c d : Vector ℝ n}
    (clear : ∀ e ∈ F.dampedTriangleDivisors c d, e ≠ 0) :
    @Factorization.dampedTriangle ℝ (.dividing quotient) m n F c d = F.dampedTriangle c d :=
  foldl_eq_of_trail (P := (· ≠ 0)) (fun _ _ here => alike.fold here) clear

theorem solve {S : Triangle ℝ n} (clear : ∀ d ∈ S.solveDivisors, d ≠ 0) :
    @Triangle.solve ℝ (.dividing quotient) n S = S.solve :=
  alike.backSubstitute clear S.rhs

end DividesAlike

end LeastSquares
