import LeastSquares.Proofs.QR.Lengths

/-!
# Refusals that come late

Two operations are made of others and check after the first of them. A refill has replaced the
stored matrix before its shape is looked at, and a least-squares solve has turned the right-hand
side before the other lengths are. What they leave is then neither the old state nor a new one.

Storage torn by a refused refill combines the rank and the diagonal of one matrix with the entries
of another, and the next refill is held to the shape that was refused. If this has another number of
columns than the storage was made for, it cannot be factored, and the rank is lost as well.
-/

set_option autoImplicit false

namespace LeastSquares

open Storage

variable {α : Type} [Scalar α] {m n : Nat}

def AnyMatrix.SameShape (A B : AnyMatrix α) : Prop := A.nrows = B.nrows ∧ A.ncols = B.ncols

instance (A B : AnyMatrix α) : Decidable (A.SameShape B) :=
  inferInstanceAs (Decidable (_ ∧ _))

/-! ## Storage with refused refills -/

namespace Stored

/-- Storage that a caller can have, made for `n` columns: allocated for a matrix and factored, or
allocated for zeros and not factored, and refilled any number of times since, whether the refills
were refused or not. -/
inductive Held (n : Nat) : Stored α → Prop
  | allocated {m : Nat} {A : DenseMatrix α m n} {K : Scratch α n} {S : Stored α} {rank : Nat}
      (allocated : allocate ⟨A⟩ K.stack = some { buffers := S, result := .ok rank }) : Held n S
  | blank {m : Nat} : Held n (around ⟨(.zeros : DenseMatrix α m n)⟩)
  | refilled {S : Stored α} {refill : AnyMatrix α → Option (AnyMatrix α)} {K : Scratch α n}
      {out : InPlace (Stored α) Nat} (held : Held n S)
      (refilled : S.refactorWith refill K.stack = some out) : Held n out.buffers

/-- The vectors are those for `n` columns, whatever has become of the matrix. -/
structure MadeFor (n : Nat) (S : Stored α) : Prop where
  diag : S.diag.size = n
  perm : S.permLength = n
  norms : S.norms.size = n

omit [Scalar α] in
theorem madeFor_storage (F : Factorization α m n) : F.storage.MadeFor n :=
  ⟨F.diag.size_toArray, rfl, F.norms.size_toArray⟩

variable {S : Stored α} {refill : AnyMatrix α → Option (AnyMatrix α)} {filled : AnyMatrix α}
  {stack : Array α}

theorem MadeFor.factorize_fits {A : DenseMatrix α m n} (made : S.MadeFor n)
    (fits : S.matrix = ⟨A⟩) (room : 3 * n ≤ stack.size) : S.factorize stack =
      some { buffers := (Factorization.ofMatrix A).storage
             result := .ok (Factorization.ofMatrix A).rank } := by
  obtain @⟨matrix, diag, p, perm, norms, rank⟩ := S
  obtain rfl : matrix = ⟨A⟩ := fits
  obtain ⟨diagonal, width, lengths⟩ := made
  obtain rfl : p = n := width
  exact Factorization.factorize_ok A ⟨diag, diagonal⟩ ⟨norms, lengths⟩ perm rank room

theorem MadeFor.factorize_misfits (made : S.MadeFor n) (other : S.ncols ≠ n) :
    S.factorize stack = some
      { buffers := { S with rank := 0 }, result := .error (.dimensionMismatch S.ncols n) } := by
  let B : FactorBuffers α :=
    { matrix := S.matrix, diag := S.diag, perm := S.perm, norms := some S.norms }
  have diagonal : checkLength S.diag.size S.ncols = .error (.dimensionMismatch S.ncols n) := by
    rw [made.diag]
    exact checkLength_other other.symm
  have check : B.checkFirst = .error (.dimensionMismatch S.ncols n) :=
    congrArg (Except.bind · fun _ => checkLength S.permLength S.ncols) diagonal
  have refused : B.factorStored stack =
      some { buffers := B, result := .error (.dimensionMismatch S.ncols n) } := by
    rw [FactorBuffers.factorStored, check]
    rfl
  simp only [factorize]
  rw [refused]
  rfl

theorem refactorWith_reshaped (fills : refill S.matrix = some filled)
    (other : ¬ filled.SameShape S.matrix) (stack : Array α) :
    ∃ error, S.refactorWith refill stack =
      some { buffers := { S with matrix := filled }, result := .error error } := by
  simp only [refactorWith, fills, bind, Option.bind]
  by_cases rows : filled.nrows = S.nrows
  · have columns : filled.ncols ≠ S.ncols := fun columns => other ⟨rows, columns⟩
    refine ⟨.dimensionMismatch S.ncols filled.ncols, ?_⟩
    have check : (checkLength filled.nrows S.nrows).bind (fun _ =>
        checkLength filled.ncols S.ncols) = .error (.dimensionMismatch S.ncols filled.ncols) := by
      rw [checkLength_self rows]
      exact checkLength_other columns
    exact congrArg (InPlace.attempt _ · _) check
  · refine ⟨.dimensionMismatch S.nrows filled.nrows, ?_⟩
    have check : (checkLength filled.nrows S.nrows).bind (fun _ =>
        checkLength filled.ncols S.ncols) = .error (.dimensionMismatch S.nrows filled.nrows) := by
      rw [checkLength_other rows]
      rfl
    exact congrArg (InPlace.attempt _ · _) check

theorem refactorWith_kept (fills : refill S.matrix = some filled)
    (same : filled.SameShape S.matrix) (stack : Array α) :
    S.refactorWith refill stack = Stored.factorize { S with matrix := filled } stack := by
  have check : (checkLength filled.nrows S.nrows).bind (fun _ =>
      checkLength filled.ncols S.ncols) = .ok () := by
    rw [checkLength_self (show filled.nrows = S.nrows from same.1)]
    exact checkLength_self same.2
  simp only [refactorWith, fills, bind, Option.bind]
  exact congrArg (InPlace.attempt _ · _) check

end Stored

/-- What a refill with `filled` comes to in storage that was made for `n` columns. It fails if the
shape changes, and if it does not but is that of an earlier refill that was refused for its number
of columns. What it leaves then is never the old storage, unless it has refilled a matrix that
cannot be factored with itself. -/
structure RefillEnds (S : Stored α) (n : Nat) (filled : AnyMatrix α)
    (out : InPlace (Stored α) Nat) : Prop where
  fails : (∃ error, out.result = .error error) ↔ ¬ filled.SameShape S.matrix ∨ filled.ncols ≠ n
  torn : ¬ filled.SameShape S.matrix → out.buffers = { S with matrix := filled }
  lost : ¬ filled.SameShape S.matrix → out.buffers ≠ S
  misfit : filled.SameShape S.matrix → filled.ncols ≠ n →
    out.buffers = { S with matrix := filled, rank := 0 }
  factored : ∀ {m : Nat} {A : DenseMatrix α m n}, filled = ⟨A⟩ → filled.SameShape S.matrix → out =
    { buffers := (Factorization.ofMatrix A).storage, result := .ok (Factorization.ofMatrix A).rank }

theorem Stored.MadeFor.refactorWith_ends {S : Stored α} (made : S.MadeFor n)
    {refill : AnyMatrix α → Option (AnyMatrix α)} {filled : AnyMatrix α}
    (fills : refill S.matrix = some filled) {stack : Array α} (room : 3 * n ≤ stack.size) :
    ∃ out, S.refactorWith refill stack = some out ∧ RefillEnds S n filled out := by
  by_cases same : filled.SameShape S.matrix
  · rw [refactorWith_kept fills same]
    have still : MadeFor n { S with matrix := filled } := ⟨made.diag, made.perm, made.norms⟩
    by_cases fits : filled.ncols = n
    · obtain @⟨rows, columns, A⟩ := filled
      obtain rfl : columns = n := fits
      refine ⟨_, still.factorize_fits rfl room, ?_, absurd same, absurd same,
        fun _ other => absurd rfl other, ?_⟩
      · refine iff_of_false ?_ (not_or_intro (not_not.mpr same) (not_not.mpr rfl))
        rintro ⟨error, failed⟩
        cases failed
      · rintro _ _ ⟨rfl⟩ -
        rfl
    · refine ⟨_, still.factorize_misfits fits, iff_of_true ⟨_, rfl⟩ (.inr fits), absurd same,
        absurd same, fun _ _ => rfl, ?_⟩
      rintro m A rfl -
      exact absurd rfl fits
  · obtain ⟨error, refused⟩ := refactorWith_reshaped fills same stack
    refine ⟨_, refused, iff_of_true ⟨error, rfl⟩ (.inl same), fun _ => rfl, fun _ kept => same ?_,
      fun kept => absurd kept same, fun _ kept => absurd kept same⟩
    have matrices : filled = S.matrix := congrArg Stored.matrix kept
    rw [matrices]
    exact ⟨rfl, rfl⟩

theorem Stored.Held.madeFor {S : Stored α} (held : S.Held n) : S.MadeFor n := by
  induction held with
  | @allocated m A K S rank allocated =>
      rw [Factorization.allocate_storage A K.stack_room] at allocated
      obtain rfl := congrArg InPlace.buffers (Option.some.inj allocated)
      exact madeFor_storage _
  | @blank m => exact madeFor_storage (Factorization.blank : Factorization α m n)
  | @refilled S refill K out held refilled made =>
      cases fills : refill S.matrix with
      | none => simp [refactorWith, fills] at refilled
      | some filled =>
          obtain ⟨out', ran, ends⟩ := made.refactorWith_ends fills K.stack_room
          obtain rfl := Option.some.inj (ran.symm.trans refilled)
          by_cases same : filled.SameShape S.matrix
          · by_cases fits : filled.ncols = n
            · obtain @⟨rows, columns, A⟩ := filled
              obtain rfl : columns = n := fits
              rw [ends.factored rfl same]
              exact madeFor_storage _
            · rw [ends.misfit same fits]
              exact ⟨made.diag, made.perm, made.norms⟩
          · rw [ends.torn same]
            exact ⟨made.diag, made.perm, made.norms⟩

/-! ## Solves on any storage -/

namespace Stored

theorem reflect_inside {S : Stored α} {k : Nat} {b b' : Array α} (ran : S.reflect k b = some b') :
    k < min S.nrows S.ncols := by
  simp only [reflect, bind, Option.bind_eq_some_iff] at ran
  obtain ⟨v, column, -, -, dot, -, lead, led, -⟩ := ran
  obtain ⟨inside, -⟩ := Array.getElem?_eq_some_iff.mp led
  rw [AnyMatrix.col?] at column
  split at column
  · rename_i narrow
    obtain rfl := Option.some.inj column
    exact lt_min (by simpa [nrows] using inside) narrow
  · split at column
    · obtain rfl := Option.some.inj column
      exact absurd inside (Nat.not_lt_zero k)
    · cases column

theorem reflect_some (S : Stored α) {k : Nat} (inside : k < min S.nrows S.ncols)
    (b : Vector α S.nrows) : ∃ b' : Vector α S.nrows, S.reflect k b.toArray = some b'.toArray := by
  let F : Factorization α S.nrows S.ncols :=
    { (.blank : Factorization α S.nrows S.ncols) with
      packed := S.matrix.entries, rank := min S.nrows S.ncols, rank_le := le_rfl }
  exact ⟨_, F.storage_reflect ⟨k, inside⟩ b⟩

theorem qtMul_isSome_iff (S : Stored α) {b : Array α} (length : b.size = S.nrows) :
    (S.qtMul b).isSome ↔ S.rank ≤ min S.nrows S.ncols := by
  have runs : (S.qtMul b).isSome ↔ ∃ b', ascend 0 S.rank b S.reflect = some b' := by
    rw [qtMul, checkLength_self length, InPlace.attempt]
    cases ascend 0 S.rank b S.reflect <;> simp
  rw [runs]
  constructor
  · rintro ⟨b', ran⟩
    cases rank : S.rank with
    | zero => exact Nat.zero_le _
    | succ r =>
        rw [rank, ascend_succ (Nat.zero_le r), Option.bind_eq_some_iff] at ran
        obtain ⟨turned, -, last⟩ := ran
        exact reflect_inside last
  · intro possible
    have turns (r : Nat) (le : r ≤ min S.nrows S.ncols) :
        ∃ b' : Vector α S.nrows, ascend 0 r b S.reflect = some b'.toArray := by
      induction r with
      | zero => exact ⟨⟨b, length⟩, ascend_none le_rfl _ _⟩
      | succ r ih =>
          obtain ⟨turned, ran⟩ := ih (Nat.le_of_succ_le le)
          rw [ascend_succ (Nat.zero_le r), ran]
          exact S.reflect_some le turned
    obtain ⟨b', ran⟩ := turns S.rank possible
    exact ⟨b'.toArray, ran⟩

theorem qtMul_succeeds {S : Stored α} {b : Array α} {out : InPlace (Array α) Unit}
    (length : b.size = S.nrows) (ran : S.qtMul b = some out) : ∃ turned, out = .succeed turned := by
  rw [qtMul, checkLength_self length, InPlace.attempt] at ran
  obtain ⟨turned, -, last⟩ := Option.bind_eq_some_iff.mp ran
  exact ⟨turned, (Option.some.inj last).symm⟩

theorem fullRank_isSome_iff (S : Stored α) : S.fullRank.isSome ↔ S.ncols ≤ S.diag.size := by
  rw [fullRank]
  by_cases columns : 0 < S.ncols
  · rw [if_pos columns]
    cases last : S.diag[S.ncols - 1]? with
    | none =>
        have short := Array.getElem?_eq_none_iff.mp last
        exact iff_of_false Bool.false_ne_true (by omega)
    | some d =>
        obtain ⟨inside, -⟩ := Array.getElem?_eq_some_iff.mp last
        exact iff_of_true rfl (by omega)
  · rw [if_neg columns]
    exact iff_of_true rfl (by omega)

/-- The solution or the workspace has the wrong length for a least-squares solve, which looks at the
workspace only if the rank is not full. -/
def WrongLengths (S : Stored α) (before : StoredLeastSquares α) : Prop :=
  before.x.size ≠ S.ncols ∨ S.fullRank = some false ∧ before.transposed.ncols ≠ S.ncols

variable {S : Stored α} {before : StoredLeastSquares α} {stack cells : Array α}

theorem rSolve_refused {x : Array α} (other : x.size ≠ S.ncols) (c : Array α) :
    ∃ error, S.rSolve c x = some { buffers := x, result := .error error } := by
  rw [rSolve, checkLength_other other]
  exact ⟨_, rfl⟩

theorem solve_refused (other : before.b.size ≠ S.nrows) (stack cells : Array α) :
    ∃ error, S.solve before stack cells = some { buffers := before, result := .error error } := by
  have refused : S.qtMul before.b =
      some
        { buffers := before.b
          result := .error (.dimensionMismatch S.nrows before.b.size) } := by
    rw [qtMul, checkLength_other other]
    rfl
  rw [solve, refused]
  exact ⟨_, rfl⟩

theorem solve_turned {out : InPlace (StoredLeastSquares α) Unit} (length : before.b.size = S.nrows)
    (ran : S.solve before stack cells = some out) :
    S.qtMul before.b = some (.succeed out.buffers.b) ∧ S.fullRank.isSome := by
  obtain ⟨_, reflected, ran⟩ := Option.bind_eq_some_iff.mp ran
  obtain ⟨turned, rfl⟩ := qtMul_succeeds length reflected
  obtain ⟨full, flag, ran⟩ := Option.bind_eq_some_iff.mp ran
  rw [reflected, flag]
  cases full with
  | true =>
      obtain ⟨solved, -, last⟩ := Option.bind_eq_some_iff.mp ran
      obtain rfl := Option.some.inj last
      exact ⟨rfl, rfl⟩
  | false =>
      obtain ⟨solved, -, last⟩ := Option.bind_eq_some_iff.mp ran
      obtain rfl := Option.some.inj last
      exact ⟨rfl, rfl⟩

theorem solve_wrong {turned : Array α} (reflected : S.qtMul before.b = some (.succeed turned))
    (flag : S.fullRank.isSome) (wrong : S.WrongLengths before) (stack cells : Array α) :
    ∃ error, S.solve before stack cells =
      some { buffers := { before with b := turned }, result := .error error } := by
  obtain ⟨full, flag⟩ := Option.isSome_iff_exists.mp flag
  rw [WrongLengths, flag] at wrong
  rw [solve, reflected]
  simp only [InPlace.succeed, InPlace.attempt, bind, Option.bind, flag]
  cases full with
  | true =>
      have other := wrong.resolve_right (by simp)
      obtain ⟨error, refused⟩ := rSolve_refused other turned
      rw [if_pos rfl, refused]
      exact ⟨error, rfl⟩
  | false =>
      obtain ⟨error, refused⟩ := minimumNorm_refused (wrong.imp_right And.right) turned stack cells
      rw [if_neg Bool.false_ne_true, refused]
      exact ⟨error, rfl⟩

theorem solve_wrong_isSome_iff (length : before.b.size = S.nrows) (wrong : S.WrongLengths before)
    (stack cells : Array α) : (S.solve before stack cells).isSome ↔
      S.rank ≤ min S.nrows S.ncols ∧ S.ncols ≤ S.diag.size := by
  rw [← S.qtMul_isSome_iff length, ← S.fullRank_isSome_iff]
  constructor
  · intro ends
    obtain ⟨out, ran⟩ := Option.isSome_iff_exists.mp ends
    obtain ⟨reflected, flag⟩ := solve_turned length ran
    exact ⟨Option.isSome_of_eq_some reflected, flag⟩
  · rintro ⟨reflected, flag⟩
    obtain ⟨_, reflected⟩ := Option.isSome_iff_exists.mp reflected
    obtain ⟨turned, rfl⟩ := qtMul_succeeds length reflected
    obtain ⟨error, refused⟩ := solve_wrong reflected flag wrong stack cells
    exact Option.isSome_of_eq_some refused

end Stored

/-- What a least-squares solve leaves on any storage, if it ends: once `b` has passed, it is turned,
whatever happens to the rest. -/
structure SolveLeaves (S : Stored α) (before : StoredLeastSquares α)
    (out : InPlace (StoredLeastSquares α) Unit) : Prop where
  refused : before.b.size ≠ S.nrows → (∃ error, out.result = .error error) ∧ out.buffers = before
  turned : before.b.size = S.nrows → S.qtMul before.b = some (.succeed out.buffers.b)
  kept : before.b.size = S.nrows → S.WrongLengths before →
    (∃ error, out.result = .error error) ∧ out.buffers.toStoredSolve = before.toStoredSolve

theorem Stored.solve_leaves {S : Stored α} {before : StoredLeastSquares α} {stack cells : Array α}
    {out : InPlace (StoredLeastSquares α) Unit} (ran : S.solve before stack cells = some out) :
    SolveLeaves S before out := by
  refine ⟨fun other => ?_, fun length => (solve_turned length ran).1, fun length wrong => ?_⟩
  · obtain ⟨error, refused⟩ := solve_refused other stack cells
    obtain rfl := Option.some.inj (refused.symm.trans ran)
    exact ⟨⟨error, rfl⟩, rfl⟩
  · obtain ⟨reflected, flag⟩ := solve_turned length ran
    generalize out.buffers.b = turned at reflected
    obtain ⟨error, refused⟩ := solve_wrong reflected flag wrong stack cells
    obtain rfl := Option.some.inj (refused.symm.trans ran)
    exact ⟨⟨error, rfl⟩, rfl⟩

/-! ## Solves without refused refills -/

/-- What a least-squares solve for `b` and `x` in a workspace of width `w` comes to, if no refill
was refused before it. -/
structure SolveEnds (F : Factorization α m n) (w : Nat) (before : StoredLeastSquares α)
    (out : InPlace (StoredLeastSquares α) Unit) : Prop where
  fails : (∃ error, out.result = .error error) ↔ before.b.size ≠ m ∨ before.x.size ≠ n ∨
    F.fullRank = false ∧ (w ≠ n ∨ F.rank < F.inner.rank)
  refused : before.b.size ≠ m → out.buffers = before
  turned : before.b.size = m → out.buffers.b = (F.qtMul (leading m before.b)).toArray
  kept : before.b.size = m → before.x.size ≠ n ∨ F.fullRank = false ∧ w ≠ n →
    out.buffers.toStoredSolve = before.toStoredSolve

theorem Stored.Reached.rank_ne_zero {F : Factorization Float m n} (reached : F.storage.Reached m n)
    (full : F.fullRank = true) : F.rank ≠ 0 := by
  obtain ⟨F', same, made⟩ := reached.origin
  have ranks : F.rank = F'.rank := congrArg Stored.rank same
  have full' : F'.fullRank = true := by
    have diagonal := F.storage_fullRank
    rw [same, F'.storage_fullRank] at diagonal
    exact (Option.some.inj diagonal).trans full
  have some : 0 < n ∧ F'.rank = n := by
    obtain ⟨A, rfl⟩ | rfl := made
    · exact (Factorization.ofMatrix_tells A).fullRank_iff.mp full'
    · exact Factorization.blank_tells.fullRank_iff.mp full'
  rw [ranks, some.2]
  exact some.1.ne'

theorem Factorization.late_iff (F : Factorization Float m n) :
    F.rank ≠ 0 ∧ F.rank < F.inner.rank ↔ F.rank < F.inner.rank := by
  refine and_iff_right_of_imp fun more zero => ?_
  have finite : F.FiniteInner := fun step early => absurd early (zero ▸ Nat.not_lt_zero _)
  exact more.not_ge (F.inner_rank_le_of_finite finite)

theorem solve_ends {F : Factorization Float m n} (reached : F.storage.Reached m n) {w : Nat}
    {W : Stored Float} (used : W.Used w) (K : Scratch Float w) (b x : Array Float) :
    ∃ out, F.storage.solve { x, transposed := W, b } K.stack K.cells = some out ∧
      SolveEnds F w { x, transposed := W, b } out := by
  rw [Stored.solve, F.storage_qtMul, F.storage_fullRank, Factorization.qtInto]
  by_cases length : b.size = m
  · let c := (F.qtMul (leading m b)).toArray
    have enough : F.rank ≤ c.size := by
      simpa [c] using F.rank_le.trans (Nat.min_le_left m n)
    simp only [checkLength_self length, InPlace.checked, InPlace.attempt, bind, Option.bind]
    cases full : F.fullRank with
    | true =>
        have nonzero := reached.rank_ne_zero full
        obtain ⟨out, ran, fails, keeps⟩ := rSolve_fails reached.bijective c x
        rw [if_pos rfl, ran]
        refine ⟨_, rfl, fails.trans ?_, absurd length, fun _ => rfl, fun _ failing => ?_⟩
        · simp [length, nonzero, enough, full]
        · have failing : x.size ≠ n := failing.resolve_right (by simp [full])
          exact congrArg (StoredSolve.mk · W) (keeps (.inl failing))
    | false =>
        obtain ⟨out, ran, fails, keeps⟩ := minimumNorm_ends used c x K
        rw [if_neg Bool.false_ne_true, ran]
        refine ⟨_, rfl, fails.trans ?_, absurd length, fun _ => rfl, fun _ failing => ?_⟩
        · rw [F.late_iff]
          simp [length, enough.not_gt, full, or_assoc]
        · exact keeps (failing.imp_right fun other => .inl other.2)
  · simp only [checkLength_other length, InPlace.checked, InPlace.attempt]
    exact ⟨_, rfl, iff_of_true ⟨_, rfl⟩ (.inl length), fun _ => rfl, fun same => absurd same length,
      fun same => absurd same length⟩

/-- What refills and solves leave that are refused after they have begun, in any storage that a
caller can have. A refill leaves the new matrix, with everything else as it was unless the rank is
lost as well, and a least-squares solve the turned right-hand side. A solve with a wrong length is
in range as far as the old rank and diagonal fit the stored matrix. Without refused refills before
it, a solve always ends. -/
theorem refused_refill_and_solve_leave {S : Stored Float} (held : S.Held n) :
    (∀ {refill : AnyMatrix Float → Option (AnyMatrix Float)} {filled : AnyMatrix Float}
      (K : Scratch Float n), refill S.matrix = some filled →
        ∃ out, S.refactorWith refill K.stack = some out ∧ RefillEnds S n filled out) ∧
    (∀ (before : StoredLeastSquares Float) (stack cells : Array Float),
      (∀ out, S.solve before stack cells = some out → SolveLeaves S before out) ∧
      (before.b.size ≠ S.nrows → (S.solve before stack cells).isSome) ∧
      (before.b.size = S.nrows → S.WrongLengths before →
        ((S.solve before stack cells).isSome ↔ S.rank ≤ min S.nrows S.ncols ∧ S.ncols ≤ n))) ∧
    ∀ {m : Nat} {F : Factorization Float m n}, S = F.storage → S.Reached m n →
      ∀ {w : Nat} {W : Stored Float}, W.Used w → ∀ (K : Scratch Float w) (b x : Array Float),
        ∃ out, S.solve { x, transposed := W, b } K.stack K.cells = some out ∧
          SolveEnds F w { x, transposed := W, b } out := by
  have made := held.madeFor
  refine ⟨fun K fills => made.refactorWith_ends fills K.stack_room,
    fun before stack cells => ⟨fun out ran => Stored.solve_leaves ran, fun other => ?_,
      fun length wrong => ?_⟩, ?_⟩
  · obtain ⟨error, refused⟩ := Stored.solve_refused other stack cells
    exact Option.isSome_of_eq_some refused
  · rw [← made.diag]
    exact Stored.solve_wrong_isSome_iff length wrong stack cells
  · rintro m F rfl reached w W used K b x
    exact solve_ends reached used K b x

def Factorization.lengthFive : DenseMatrix Float 2 1 := .ofFn fun i _ => if i.val = 0 then 3 else 4

/-- A refill of the column with a row is refused and leaves the row under a rank of one. Refilling
that with itself is refused too, and leaves a rank of zero. A solve for `x` of length two is refused
and leaves the turned column for the right-hand side. -/
theorem lengthFive_refused :
    let S := (Factorization.ofMatrix Factorization.lengthFive).storage
    let row : AnyMatrix Float := ⟨(.zeros : DenseMatrix Float 1 2)⟩
    let refill : AnyMatrix Float → Option (AnyMatrix Float) := fun _ => some row
    let W : Stored Float := .around ⟨(.zeros : DenseMatrix Float 1 1)⟩
    let K : Scratch Float 1 := .filled 0
    let before : StoredLeastSquares Float := { x := #[9, 9], transposed := W, b := #[3, 4] }
    S.Held 1 ∧
      (∃ torn, S.refactorWith refill K.stack = some torn ∧ RefillEnds S 1 row torn ∧
        torn.buffers.rank = 1 ∧ ∃ out, torn.buffers.refactorWith some K.stack = some out ∧
          RefillEnds torn.buffers 1 row out ∧ out.buffers.rank = 0) ∧
      ∃ out, S.solve before K.stack K.cells = some out ∧ SolveLeaves S before out ∧
        out.buffers.b = #[-5, 0] := by
  intro S row refill W K before
  have allocated := Factorization.allocate_storage Factorization.lengthFive K.stack_room
  have held : S.Held 1 := .allocated allocated
  have fills : refill S.matrix = some row := rfl
  obtain ⟨refills, solves, intact⟩ := refused_refill_and_solve_leave held
  obtain ⟨torn, refilled, ends⟩ := refills K fills
  have left : torn.buffers = { S with matrix := row } := ends.torn (by decide)
  have again : some torn.buffers.matrix = some row := by rw [left]
  obtain ⟨refillsTorn, -⟩ := refused_refill_and_solve_leave (held.refilled refilled)
  obtain ⟨lost, refilledTorn, endsTorn⟩ := refillsTorn K again
  have same : row.SameShape torn.buffers.matrix := by
    rw [left]
    exact ⟨rfl, rfl⟩
  obtain ⟨out, solved, solvedEnds⟩ :=
    intact rfl (.allocated allocated) .fresh K before.b before.x
  refine ⟨held, ⟨torn, refilled, ends, ?_, lost, refilledTorn, endsTorn, ?_⟩, out, solved,
    (solves before K.stack K.cells).1 out solved, ?_⟩
  · rw [left]
    decide +kernel
  · rw [endsTorn.misfit same (by decide)]
  · exact (solvedEnds.turned rfl).trans (by decide +kernel)

/-- Neither refused call has left the column what it was given. -/
theorem lengthFive_changed :
    let S := (Factorization.ofMatrix Factorization.lengthFive).storage
    let row : AnyMatrix Float := ⟨(.zeros : DenseMatrix Float 1 2)⟩
    let refill : AnyMatrix Float → Option (AnyMatrix Float) := fun _ => some row
    let W : Stored Float := .around ⟨(.zeros : DenseMatrix Float 1 1)⟩
    let K : Scratch Float 1 := .filled 0
    (∃ out, S.refactorWith refill K.stack = some out ∧
      (∃ error, out.result = .error error) ∧ out.buffers.nrows ≠ 2 ∧ out.buffers.ncols ≠ 1) ∧
    ∃ out, S.solve { x := #[9, 9], transposed := W, b := #[3, 4] } K.stack K.cells =
        some out ∧ (∃ error, out.result = .error error) ∧ out.buffers.b ≠ #[3, 4] := by
  intro S row refill W K
  have allocated := Factorization.allocate_storage Factorization.lengthFive K.stack_room
  have made := Stored.madeFor_storage (Factorization.ofMatrix Factorization.lengthFive)
  have fills : refill S.matrix = some row := rfl
  obtain ⟨torn, refilled, ends⟩ := made.refactorWith_ends fills K.stack_room
  obtain ⟨turned, solved, ends'⟩ := solve_ends (.allocated allocated) .fresh K #[3, 4] #[9, 9]
  refine ⟨⟨torn, refilled, ends.fails.mpr (by decide), ?_⟩, turned, solved, ?_, ?_⟩
  · rw [ends.torn (by decide)]
    exact ⟨show 1 ≠ 2 by decide, show 2 ≠ 1 by decide⟩
  · exact ends'.fails.mpr (.inr (.inl (by decide)))
  · rw [ends'.turned rfl]
    decide +kernel

end LeastSquares
