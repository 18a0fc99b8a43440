import LeastSquares.Proofs.QR.Diagonal
import LeastSquares.Proofs.QR.Stored

/-!
# Damped solves without damping

A damping of zeros folds no row into the triangle, so the triangle stays the table of `R` with the
right-hand side cut off at the rank. The diagonal of `R` shows its first zero at the rank, so the
damped solve and the plain one substitute back over the same rows, and do so operation by operation.
Nothing is asked of the scalars here but that zero equals itself and that the diagonal tells the
rank, which with doubles it does whatever was factored.
-/

set_option autoImplicit false

namespace LeastSquares

variable {α : Type} [Scalar α] {m n : Nat}

/-! ## Triangles -/

theorem Triangle.fold_of_zero (S : Triangle α n) (j : Fin n) {d : α} (zero : (d == 0) = true) :
    S.fold j d = S :=
  if_pos zero

/-- Where the diagonal is zero just from `bound` on, the rows before its first zero are the first
`bound` ones. -/
theorem Triangle.leading_eq {S : Triangle α n} {bound : Nat} (atMost : bound ≤ n)
    (some : ∀ j : Fin n, j.val < bound → (S.entry j j == 0) = false)
    (rest : ∀ j : Fin n, bound ≤ j.val → (S.entry j j == 0) = true) : S.leading = bound := by
  -- The pass at `j` has the first zero from position `j` on, which is at `bound` or behind it.
  have first : S.leading = max 0 bound := by
    refine foldr_carries _ (fun j found => found = max j bound) n (max_eq_left atMost).symm
      fun j found holds => ?_
    by_cases below : j.val < bound
    · rw [if_neg (ne_true_of_eq_false (some j below)), holds]
      omega
    · rw [if_pos (rest j (not_lt.mp below))]
      omega
  rw [first, Nat.zero_max]

/-- Back substitution reads only the right-hand sides of the rows that it solves. -/
theorem backSubstitute_congr {bound : Nat} (U : Fin n → Fin n → α) {rhs other : Vector α n}
    (same : ∀ j : Fin n, j.val < bound → rhs j = other j) :
    backSubstitute bound U rhs = backSubstitute bound U other := by
  rw [backSubstitute, backSubstitute]
  congr 1
  funext j y
  split
  · rw [same j ‹_›]
  · rfl

theorem backSubstitute_zero (U : Fin n → Fin n → α) (rhs : Vector α n) :
    backSubstitute 0 U rhs = Vector.replicate n 0 := by
  refine foldr_carries _ (fun _ y => y = Vector.replicate n 0) _ rfl fun j y holds => ?_
  rw [if_neg (Nat.not_lt_zero _)]
  exact holds

namespace Factorization

variable (F : Factorization α m n)

theorem triangle_entry (c : Vector α n) : (F.triangle c).entry = F.r := by
  funext i j
  rw [Triangle.entry, triangle, Vector.get_ofFn, Vector.get_ofFn]

theorem dampedTriangle_of_zero (c : Vector α n) {d : Vector α n}
    (zeros : ∀ p, (d p == 0) = true) : F.dampedTriangle c d = F.triangle c := by
  refine foldl_carries _ (fun _ S => S = F.triangle c) _ rfl fun j S holds => ?_
  rw [S.fold_of_zero j (zeros _)]
  exact holds

theorem triangle_leading (c : Vector α n)
    (made : ∀ j : Fin n, j.val < F.rank → (F.diag j != 0) = true)
    (zero : ((0 : α) == 0) = true) : (F.triangle c).leading = F.rank := by
  refine Triangle.leading_eq (F.rank_le.trans (Nat.min_le_right m n)) (fun j inside => ?_)
    fun j outside => ?_
  · rw [F.triangle_entry, F.r_diag inside]
    simpa [bne] using made j inside
  · rw [F.triangle_entry, r_of_rank_le F outside]
    exact zero

theorem dampedTriangle_solve_of_zero (c : Vector α n) {d : Vector α n}
    (made : ∀ j : Fin n, j.val < F.rank → (F.diag j != 0) = true)
    (zero : ((0 : α) == 0) = true) (zeros : ∀ p, (d p == 0) = true) :
    (F.dampedTriangle c d).solve = backSubstitute F.rank F.r c := by
  rw [F.dampedTriangle_of_zero c zeros, Triangle.solve, F.triangle_leading c made zero,
    F.triangle_entry]
  refine backSubstitute_congr _ fun j inside => ?_
  rw [triangle, Vector.get_ofFn, if_pos inside]

/-! ## Doubles -/

theorem beq_zero_of_zero {z : Float} (zero : z = 0 ∨ z = -0) : (z == 0) = true := by
  rcases zero with rfl | rfl <;> decide

/-- Whatever was factored, a solve with a damping of zeros of either sign leaves the table of `R`
and just what the plain solve leaves, and at rank zero, where the plain solve is refused, zeros. -/
theorem Made.dampedInto_undamped {F : Factorization Float m n} {A : DenseMatrix Float m n}
    (made : Made F A) {c d : Array Float} {workspace : Workspace Float} {B : DampedBuffers Float}
    (enough : F.rank ≤ c.size) (length : d.size = n) (zeros : ∀ z ∈ d, z = 0 ∨ z = -0)
    (room : B.x.size = n) (rows : B.s.nrows = n) (cols : B.s.ncols = n)
    (fits : workspace.ncols = n) :
    ∃ x, F.dampedInto c d workspace B =
        { buffers := { s := ⟨.ofFn F.r⟩, x }, result := .ok () } ∧
      (1 ≤ F.rank → ∀ before, before.size = n →
        F.rSolveInto c before = { buffers := x, result := .ok () }) ∧
      (F.rank = 0 → x = Array.replicate n 0) := by
  let damping : Vector Float n := ⟨d, length⟩
  have undamped (p : Fin n) : (damping p == 0) = true :=
    beq_zero_of_zero (zeros _ (Array.getElem_mem _))
  have solves := F.dampedTriangle_solve_of_zero (leading n c) made.tells.made (by decide) undamped
  refine ⟨(F.rSolve (leading n c)).toArray, ?_, fun positive before size => ?_, fun none => ?_⟩
  · have table : (F.dampedTriangle (leading n c) damping).toMatrix = .ofFn F.r := by
      rw [F.dampedTriangle_of_zero _ undamped, Triangle.toMatrix, F.triangle_entry]
    have leaves := F.dampedInto_ok damping workspace room rows cols fits enough
    rw [table, dampedSolve, solves] at leaves
    exact leaves
  · exact F.rSolveInto_ok size enough (Nat.one_le_iff_ne_zero.mp positive)
  · rw [rSolve, none, backSubstitute_zero, Permutation.restore_zero made.tells.perm_bijective,
      Vector.toArray_replicate]
    rfl

theorem alike_undamped : ∃ F x, allocate alike = .ok F ∧ F.rank = 1 ∧
    F.dampedInto #[5] #[0, -0] ⟨(blank : Factorization Float 2 2)⟩
        { s := ⟨(.zeros : DenseMatrix Float 2 2)⟩, x := #[7, 8] } =
      { buffers := { s := ⟨.ofFn F.r⟩, x }, result := .ok () } ∧
    F.rSolveInto #[5] #[9, 6] = { buffers := x, result := .ok () } := by
  let workspace : Workspace Float := ⟨(blank : Factorization Float 2 2)⟩
  let B : DampedBuffers Float := { s := ⟨(.zeros : DenseMatrix Float 2 2)⟩, x := #[7, 8] }
  have made : Made (ofMatrix alike) alike := .allocated rfl
  have rank : (ofMatrix alike).rank = 1 := by decide +kernel
  have enough : (ofMatrix alike).rank ≤ #[(5 : Float)].size := rank.le
  have zeros : ∀ z ∈ #[(0 : Float), -0], z = 0 ∨ z = -0 := by simp
  have room : B.x.size = 2 := rfl
  have fits : workspace.ncols = 2 := rfl
  obtain ⟨x, leaves, plain, _⟩ := made.dampedInto_undamped enough rfl zeros room rfl rfl fits
  exact ⟨_, x, rfl, rank, leaves, plain rank.ge _ rfl⟩

end Factorization

end LeastSquares
