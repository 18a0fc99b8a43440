import LeastSquares.QR.Buffers
import LeastSquares.Proofs.Double.Signs
import LeastSquares.Proofs.QR.Factorization

/-!
# The diagonal of a factorization of doubles

Whatever the entries of a matrix are, `NaN` and infinities among them, the diagonal of its
factorization tells the rank: no entry in front of the rank is zero and every entry from the rank on
is. A step is only made with a pivot whose norm does not equal zero, and a norm keeps that when it
takes a sign. Steps exchange whole columns, so the sources of the columns stay a permutation.

`Made F A` says that `F` was made from the matrix `A` by a caller's operations, and `Tells F A` what
the fields of such an `F` say about `A`.
-/

set_option autoImplicit false

namespace LeastSquares

open Double

variable {m n : Nat}

namespace Reflector

theorem not_isZero_neg_signedLike {norm : Float} (nonzero : ¬ IsZero norm) (lead : Float) :
    ¬ IsZero (-signedLike lead norm) := by
  intro zero
  have signed := zero.of_neg
  rw [signedLike] at signed
  split at signed
  · exact nonzero signed.of_neg
  · exact nonzero signed

end Reflector

/-! ## What a step keeps -/

namespace Reduction

/-- What holds after `k` steps: the columns are those of the matrix in some order, and the diagonal
shows which steps were made. -/
structure Marked (S : Reduction Float m n) (k : Nat) : Prop where
  source_injective : Function.Injective fun j => (S.cols j).source
  made : ∀ j : Fin n, j.val < k → ¬ IsZero (S.diag j)
  rest : ∀ j : Fin n, k ≤ j.val → S.diag j = 0

variable {S : Reduction Float m n} {k : Nat}

theorem ofMatrix_marked (A : DenseMatrix Float m n) : (ofMatrix A).Marked 0 where
  source_injective := ofMatrix_sourced A
  made _ below := absurd below (Nat.not_lt_zero _)
  rest _ _ := Vector.get_replicate _ _

theorem Marked.bringPivot (marked : S.Marked k) (s : Fin n) : (S.bringPivot s).Marked k where
  source_injective := Sourced.bringPivot marked.source_injective s
  made := marked.made
  rest := marked.rest

theorem Marked.eliminate {s : Fin (min m n)} (marked : S.Marked s)
    (usable : S.exhausted s = false) : (S.eliminate s).Marked (s + 1) := by
  have norm : ¬ IsZero (Reflector.tailNorm (S.cols (stepCol s)).entries (stepRow s)) := by
    rw [← beq_zero_iff]
    simp only [exhausted, Bool.or_eq_false_iff] at usable
    exact Bool.eq_false_iff.mp usable.1
  have diag (j : Fin n) : (S.eliminate s).diag j = if stepCol s = j then
      -Reflector.signedLike ((S.cols (stepCol s)).entries (stepRow s))
        (Reflector.tailNorm (S.cols (stepCol s)).entries (stepRow s))
      else S.diag j := by
    rw [Reduction.eliminate, Vector.get_set]
  refine ⟨Sourced.eliminate marked.source_injective s, fun j below => ?_, fun j behind => ?_⟩
  · rw [diag]
    split
    · exact Reflector.not_isZero_neg_signedLike norm _
    · rename_i other
      have before : j.val ≠ s.val := fun same => other (Fin.ext same.symm)
      exact marked.made j (by omega)
  · have other : stepCol s ≠ j := fun same => by
      have value : s.val = j.val := congrArg Fin.val same
      omega
    rw [diag, if_neg other]
    exact marked.rest j (by omega)

theorem Marked.reduceFrom (t k : Nat) (h : k + t = min m n) (marked : S.Marked k) :
    (reduceFrom t k h S).toReduction.Marked (reduceFrom t k h S).rank := by
  induction t generalizing k S with
  | zero => exact marked
  | succ t ih =>
      let step : Fin (min m n) := ⟨k, by omega⟩
      have brought := marked.bringPivot (stepCol step)
      rw [Reduction.reduceFrom]
      by_cases exhausted : (S.bringPivot (stepCol step)).exhausted step = true
      · rw [if_pos exhausted]
        exact brought
      · rw [if_neg exhausted]
        exact ih (k + 1) _ (Marked.eliminate brought (Bool.eq_false_iff.mpr exhausted))

end Reduction

/-! ## What the fields tell -/

namespace Factorization

/-- What the fields of a factorization say about the matrix they were computed from. Norms are
compared as doubles are, since a norm kept for a blank matrix may be a zero of the other sign. -/
structure Tells (F : Factorization Float m n) (A : DenseMatrix Float m n) : Prop where
  diag_size : F.diag.toArray.size = n
  norms_size : F.norms.toArray.size = n
  perm_length : F.perm.toList.length = n
  perm_bijective : Function.Bijective F.perm.get
  rank_le : F.rank ≤ min m n
  made : ∀ j : Fin n, j.val < F.rank → (F.diag j != 0) = true
  rest : ∀ j : Fin n, F.rank ≤ j.val → F.diag j = 0
  norms : ∀ p, F.norms p = Scalar.norm (fun _ => true) (A.col p) ∨
    (F.norms p == Scalar.norm (fun _ => true) (A.col p)) = true
  fullRank_iff : F.fullRank = true ↔ 0 < n ∧ F.rank = n

theorem fullRank_iff_of_diag {F : Factorization Float m n}
    (made : ∀ j : Fin n, j.val < F.rank → (F.diag j != 0) = true)
    (rest : ∀ j : Fin n, F.rank ≤ j.val → F.diag j = 0) :
    F.fullRank = true ↔ 0 < n ∧ F.rank = n := by
  have bound : F.rank ≤ n := F.rank_le.trans (Nat.min_le_right m n)
  rw [fullRank]
  split
  · rename_i some
    constructor
    · intro nonzero
      refine ⟨some, ?_⟩
      by_contra deficient
      have zero := rest ⟨n - 1, by omega⟩ (show F.rank ≤ n - 1 by omega)
      rw [zero] at nonzero
      exact absurd nonzero (by decide)
    · rintro ⟨-, full⟩
      exact made _ (show n - 1 < F.rank by omega)
  · rename_i none
    exact iff_of_false Bool.false_ne_true fun full => none full.1

theorem ofMatrix_tells (A : DenseMatrix Float m n) : (ofMatrix A).Tells A := by
  have marked : A.reduce.toReduction.Marked A.reduce.rank :=
    (Reduction.ofMatrix_marked A).reduceFrom _ _ _
  have made (j : Fin n) (inside : j.val < (ofMatrix A).rank) :
      ((ofMatrix A).diag j != 0) = true := by
    have nonzero := marked.made j inside
    rw [← beq_zero_iff] at nonzero
    exact congrArg (!·) (Bool.eq_false_iff.mpr nonzero)
  exact
    { diag_size := Vector.size_toArray _
      norms_size := Vector.size_toArray _
      perm_length := by simp [Permutation.toList]
      perm_bijective := ofMatrix_bijective A
      rank_le := (ofMatrix A).rank_le
      made := made
      rest := marked.rest
      norms := fun p => .inl (Vector.get_ofFn _ p)
      fullRank_iff := fullRank_iff_of_diag made marked.rest }

theorem blank_tells : (blank : Factorization Float m n).Tells .zeros := by
  have made (j : Fin n) (inside : j.val < (blank : Factorization Float m n).rank) :
      ((blank : Factorization Float m n).diag j != 0) = true :=
    absurd inside (Nat.not_lt_zero _)
  have rest (j : Fin n) (_ : (blank : Factorization Float m n).rank ≤ j.val) :
      (blank : Factorization Float m n).diag j = 0 := Vector.get_replicate _ _
  have norms (p : Fin n) : ((blank : Factorization Float m n).norms p ==
      Scalar.norm (fun _ => true) ((.zeros : DenseMatrix Float m n).col p)) = true := by
    have kept : (blank : Factorization Float m n).norms p = 0 := Vector.get_replicate _ _
    rw [kept]
    refine isZero_zero.beq (isZero_sumSquares fun i _ => ?_).sqrt
    rw [DenseMatrix.col, Vector.get_ofFn, DenseMatrix.zeros, DenseMatrix.get_replicate]
    exact isZero_zero
  exact
    { diag_size := Vector.size_toArray _
      norms_size := Vector.size_toArray _
      perm_length := by simp [Permutation.toList]
      perm_bijective := blank_bijective
      rank_le := Nat.zero_le _
      made := made
      rest := rest
      norms := fun p => .inr (norms p)
      fullRank_iff := fullRank_iff_of_diag made rest }

/-! ## Factorizations a caller can make -/

theorem allocate_ok {F : Factorization Float m n} {A : DenseMatrix Float m n}
    (allocated : allocate A = .ok F) : F = ofMatrix A := by
  simp only [allocate, bind, Except.bind] at allocated
  split at allocated
  · cases allocated
  · exact (Except.ok.inj allocated).symm

theorem allocateBlank_ok {F : Factorization Float m n} (allocated : allocateBlank m n = .ok F) :
    F = blank := by
  simp only [allocateBlank, bind, Except.bind] at allocated
  split at allocated
  · cases allocated
  · split at allocated
    · cases allocated
    · exact (Except.ok.inj allocated).symm

theorem refactorWith_ok {F F' : Factorization Float m n}
    {fill : DenseMatrix Float m n → AnyMatrix Float} (refilled : F.refactorWith fill = .ok F') :
    ∃ A : DenseMatrix Float m n, fill F.packed = ⟨A⟩ ∧ F' = ofMatrix A := by
  rw [refactorWith] at refilled
  generalize fill F.packed = filled at refilled ⊢
  obtain ⟨A⟩ := filled
  dsimp only at refilled
  split at refilled
  · rename_i sameRows
    subst sameRows
    split at refilled
    · rename_i sameCols
      subst sameCols
      cases refilled
      exact ⟨A, rfl, rfl⟩
    · cases refilled
  · cases refilled

/-- `Made F A`: a caller has made `F`, and the matrix that was factored last is `A`. A refill sees
what the factorization before it has stored. -/
inductive Made : Factorization Float m n → DenseMatrix Float m n → Prop
  | allocated {A : DenseMatrix Float m n} {F : Factorization Float m n}
      (allocated : allocate A = .ok F) : Made F A
  | blank {F : Factorization Float m n} (allocated : allocateBlank m n = .ok F) : Made F .zeros
  | refactored {F F' : Factorization Float m n} {A B : DenseMatrix Float m n}
      {fill : DenseMatrix Float m n → AnyMatrix Float} (made : Made F A)
      (filled : fill F.packed = ⟨B⟩) (refactored : F.refactorWith fill = .ok F') : Made F' B

theorem Made.refactorWith {F F' : Factorization Float m n} {A : DenseMatrix Float m n}
    {fill : DenseMatrix Float m n → AnyMatrix Float} (made : Made F A)
    (refilled : F.refactorWith fill = .ok F') :
    ∃ B : DenseMatrix Float m n, fill F.packed = ⟨B⟩ ∧ Made F' B := by
  obtain ⟨B, filled, -⟩ := refactorWith_ok refilled
  exact ⟨B, filled, .refactored made filled refilled⟩

/-- However often a factorization has been reused, its fields describe the matrix it was filled with
last, and the last entry of the diagonal says whether the rank is full. -/
theorem Made.tells {F : Factorization Float m n} {A : DenseMatrix Float m n} (made : Made F A) :
    F.Tells A := by
  cases made with
  | allocated allocated =>
      rw [allocate_ok allocated]
      exact ofMatrix_tells A
  | blank allocated =>
      rw [allocateBlank_ok allocated]
      exact blank_tells
  | refactored made filled refactored =>
      obtain ⟨B, same, rfl⟩ := refactorWith_ok refactored
      cases filled.symm.trans same
      exact ofMatrix_tells _

def holes : DenseMatrix Float 2 2 :=
  .ofFn fun i j => if i = 0 then (if j = 0 then 0 / 0 else 1 / 0) else 1

def alike : DenseMatrix Float 2 2 := .ofFn fun i _ => if i = 0 then 3 else 4

/-- A factorization of a matrix with holes has full rank, and refilled with equal columns it has
rank one. -/
theorem alike_tells : (∃ F, allocate holes = .ok F ∧ F.Tells holes ∧ F.fullRank = true) ∧
    ∃ F F', allocate holes = .ok F ∧ F.refactorWith (fun _ => ⟨alike⟩) = .ok F' ∧
      F'.Tells alike ∧ F'.rank = 1 ∧ F'.fullRank = false := by
  have begun : Made (ofMatrix holes) holes := .allocated rfl
  have again : (ofMatrix holes).refactorWith (fun _ => ⟨alike⟩) = .ok (ofMatrix alike) := rfl
  have refilled : Made (ofMatrix alike) alike := .refactored begun rfl again
  exact ⟨⟨_, rfl, begun.tells, by decide +kernel⟩,
    _, _, rfl, again, refilled.tells, by decide +kernel, by decide +kernel⟩

end Factorization

end LeastSquares
