import LeastSquares.Proofs.QR.Reducing
import LeastSquares.QR.Stored

/-!
# A factorization on its storage

What the programs on the storage of a factorization leave, whatever the caller's arrays held before.
No access is out of range.
-/

set_option autoImplicit false

namespace LeastSquares

open Storage

variable {α : Type} {m n : Nat}

theorem checkLength_other {actual expected : Nat} (other : actual ≠ expected) :
    checkLength actual expected = .error (.dimensionMismatch expected actual) := if_neg other

theorem checks_ok {first rest : Except LinalgError Unit} :
    (first >>= fun _ => rest) = .ok () ↔ first = .ok () ∧ rest = .ok () := by
  cases first <;> simp [bind, Except.bind]

theorem solve_check_ok {actual expected given rank : Nat} {e : LinalgError} : (do
      checkLength actual expected
      checkAtLeast given rank
      if rank = 0 then throw e) = .ok () ↔ actual = expected ∧ rank ≤ given ∧ rank ≠ 0 := by
  rw [checks_ok, checks_ok, checkLength_eq_ok, checkAtLeast_eq_ok]
  by_cases zero : rank = 0 <;> simp [zero, throw, throwThe, MonadExceptOf.throw, pure, Except.pure]

theorem Factorization.storage_entry (F : Factorization α m n) (i : Fin m) (j : Fin n) :
    F.storage.matrix.get? i j = some (F.packed.get i j) :=
  AnyMatrix.get?_mk F.packed i j

namespace Permutation

theorem restore_set [Zero α] {P : Permutation n} (bijective : Function.Bijective P.get)
    (v : Vector α n) (j : Fin n) (x : α) :
    P.restore (v.set j x j.isLt) = (P.restore v).set (P.get j) x (P.get j).isLt := by
  refine Vector.ext_get fun q => ?_
  obtain ⟨k, rfl⟩ := bijective.surjective q
  rw [restore_get bijective, Vector.get_set, Vector.get_set, restore_get bijective]
  exact if_congr bijective.injective.eq_iff.symm rfl rfl

theorem restore_zero [Zero α] {P : Permutation n} (bijective : Function.Bijective P.get) :
    P.restore (Vector.replicate n (0 : α)) = Vector.replicate n 0 := by
  refine Vector.ext_get fun q => ?_
  obtain ⟨k, rfl⟩ := bijective.surjective q
  rw [restore_get bijective, Vector.get_replicate, Vector.get_replicate]

end Permutation

variable [Scalar α]

theorem leading_of_size {a : Array α} (length : a.size = n) : (leading n a).toArray = a := by
  subst length
  apply Array.ext
  · simp
  · intro i _ inside
    simp [leading]

theorem InPlace.attempt_checked {β : Type} {before : β} {check : Except LinalgError Unit}
    {program : Unit → Option (InPlace β Unit)} {after : Unit → β}
    (writes : check = .ok () → program () = some (.succeed (after ()))) :
    attempt before check program = some (checked before check after) := by
  cases check with
  | error e => rfl
  | ok _ => exact writes rfl

namespace Factorization

variable (F : Factorization α m n)

/-! ## The orthogonal factor -/

theorem storage_reflect (k : Fin F.rank) (b : Vector α m) :
    F.storage.reflect k b.toArray = some (F.reflect k b).toArray := by
  let step : Fin (min m n) := k.castLE F.rank_le
  let v := F.packed.col (stepCol step)
  have column : F.storage.matrix.col? k = some v.toArray := AnyMatrix.col?_mk _ (stepCol step)
  let dot := Scalar.addOver (-0) (fun i => stepRow step ≤ i) fun i => v i * b i
  have summed : ascend k m (-0) (fun i sum => do
      return sum + (← v.toArray[i]?) * (← b.toArray[i]?)) = some dot := by
    refine ascend_addOver (fun i => ?_) le_rfl (fun i sum _ => ?_) _
    · rw [decide_eq_true_eq, and_iff_left i.isLt]
      rfl
    · simp only [read, bind, Option.bind, pure]
  have lead : v.toArray[k.val]? = some (v (stepRow step)) := read v (stepRow step)
  let reflected : Vector α m := Vector.ofFn fun i => b i - dot / v (stepRow step) * v i
  have swept : splice b reflected k m = Reflector.apply (-0) v (stepRow step) b := by
    refine Vector.ext_get fun i => ?_
    rw [splice_get, Vector.get_ofFn, Reflector.apply, Vector.get_ofFn]
    exact if_congr (and_iff_left i.isLt) rfl rfl
  have inside : k.val ≤ m := (stepRow step).isLt.le
  rw [Stored.reflect, column]
  simp only [bind, Option.bind, pure, guard, Vector.size_toArray, inside, and_self, if_true,
    min_self] at summed ⊢
  simp only [summed, lead]
  refine (ascend_writes Vector.toArray le_rfl fun i _ _ => ?_).trans
    (congrArg (some ∘ Vector.toArray) swept)
  have fresh : splice b reflected k i i = b i := by
    rw [splice_get, if_neg fun both => Nat.lt_irrefl _ both.2]
  simp only [read, write_toArray, fresh, reflected, Vector.get_ofFn]

theorem storage_qtMul (b : Array α) : F.storage.qtMul b = some (F.qtInto b) := by
  refine InPlace.attempt_checked fun passed => ?_
  have length : b.size = m := checkLength_eq_ok.mp passed
  have loop := ascend_foldl Vector.toArray F.storage_reflect (leading m b)
  rw [leading_of_size length] at loop
  exact congrArg (Option.bind · fun b => some (InPlace.succeed b)) loop

theorem storage_qMul (b : Array α) : F.storage.qMul b = some (F.qInto b) := by
  refine InPlace.attempt_checked fun passed => ?_
  have length : b.size = m := checkLength_eq_ok.mp passed
  have loop := descend_fold Vector.toArray le_rfl (fun k b _ => F.storage_reflect k b) (leading m b)
  simp only [Fin.is_lt, if_true] at loop
  rw [leading_of_size length] at loop
  exact congrArg (Option.bind · fun b => some (InPlace.succeed b)) loop

end Factorization

/-! ## Triangular solves -/

/-- Back substitution that scatters its solution as it goes. Each pass reads entries that the passes
before it have written, and all positions differ. -/
theorem substitute_ok {P : Permutation n} (bijective : Function.Bijective P.get) {bound : Nat}
    (le : bound ≤ n) {U : Fin n → Fin n → α} {entry : Nat → Nat → Option α}
    {diagonal : Nat → Option α} {rhs : Vector α n} {cells x : Array α}
    (entries : ∀ j i : Fin n, j < i → i.val < bound → entry j i = some (U j i))
    (pivots : ∀ j : Fin n, j.val < bound → diagonal j = some (U j j))
    (given : ∀ j : Fin n, j.val < bound → cells[j.val]? = some (rhs j)) (length : x.size = n) :
    substitute bound entry diagonal P cells x =
      some (P.restore (backSubstitute bound U rhs)).toArray := by
  rw [substitute, fill_all length, ← Permutation.restore_zero bijective]
  refine descend_fold (fun y => (P.restore y).toArray) le (fun j y inside => ?_) _
  have sum : ascend (j + 1) bound (rhs j) (fun i sum => do
      return sum - (← entry j i) * (← (P.restore y).toArray[← P.get? i]?)) =
      some (Scalar.subOver (rhs j) (fun i => j < i && i.val < bound) fun i => U j i * y i) := by
    refine ascend_subOver (fun i => ?_) le (fun i sum late => ?_) _
    · rw [Bool.and_eq_true, decide_eq_true_eq, decide_eq_true_eq]
      rfl
    · rw [Bool.and_eq_true, decide_eq_true_eq, decide_eq_true_eq] at late
      simp only [entries j i late.1 late.2, Permutation.get?_mk, bind, Option.bind, read,
        Permutation.restore_get bijective, pure]
  simp only [bind, Option.bind, pure] at sum ⊢
  simp only [given j inside, sum, Permutation.get?_mk, pivots j inside, write_toArray,
    Permutation.restore_set bijective]

namespace Factorization

variable (F : Factorization α m n)

theorem storage_above {i j : Fin n} (inside : i.val < F.rank) (above : i < j) :
    F.storage.matrix.get? i j = some (F.r i j) := by
  have row : i.val < m := inside.trans_le (F.rank_le.trans (Nat.min_le_left m n))
  rw [r, dif_pos ⟨inside, above.le⟩, if_neg above.ne]
  exact F.storage_entry ⟨i, row⟩ j

theorem storage_diag {j : Fin n} (inside : j.val < F.rank) :
    F.storage.diag[j.val]? = some (F.r j j) := by
  rw [r, dif_pos ⟨inside, le_rfl⟩, if_pos rfl]
  exact read F.diag j

theorem storage_r (i j : Fin n) : F.storage.r i j = some (F.r i j) := by
  rw [Stored.r]
  split
  · rename_i outside
    rw [r, dif_neg fun inside => outside.elim inside.1.not_ge inside.2.not_gt]
  · rename_i inside
    have row : i.val < F.rank := not_le.mp fun late => inside (.inl late)
    split
    · rename_i same
      rw [← Fin.ext same]
      exact F.storage_diag row
    · rename_i other
      have above : i < j := by
        rw [Fin.lt_def]
        omega
      exact F.storage_above row above

theorem read_enough {a : Array α} {j : Fin n} (inside : j.val < a.size) :
    a[j.val]? = some (leading n a j) := by
  simp [leading_get, inside]

theorem storage_rSolve {F : Factorization α m n} (bijective : Function.Bijective F.perm.get)
    (c x : Array α) : F.storage.rSolve c x = some (F.rSolveInto c x) := by
  rw [Stored.rSolve, rSolveInto]
  refine InPlace.attempt_checked fun passed => ?_
  obtain ⟨length, enough, -⟩ := solve_check_ok.mp passed
  have inside : F.rank ≤ n := F.rank_le.trans (Nat.min_le_right m n)
  have solved : substitute F.rank F.storage.matrix.get? (F.storage.diag[·]?) F.perm c x =
      some (F.rSolve (leading n c)).toArray := by
    refine substitute_ok bijective inside (fun j i behind row => ?_) (fun j row => ?_)
      (fun j row => read_enough (row.trans_le enough)) length
    · exact F.storage_above (lt_trans behind row) behind
    · exact F.storage_diag row
  exact congrArg (Option.bind · fun x => some (InPlace.succeed x)) solved

section OtherLength

variable {length : Nat} (v : Vector α n)

theorem read_leading {j : Fin n} (fits : j.val < length) :
    (leading length v.toArray).toArray[j.val]? = some (v j) :=
  (read _ (⟨j, fits⟩ : Fin length)).trans (congrArg some (leading_toArray v _ j rfl))

theorem write_leading {j : Fin n} (fits : j.val < length) (x : α) :
    write (leading length v.toArray).toArray j x =
      some (leading length (v.set j x j.isLt).toArray).toArray := by
  refine (write_toArray _ (⟨j, fits⟩ : Fin length) x).trans (congrArg (some ∘ Vector.toArray) ?_)
  refine Vector.ext_get fun i => ?_
  rw [Vector.get_set, leading_get, leading_get]
  by_cases same : j.val = i.val
  · have here : (⟨j, fits⟩ : Fin length) = i := Fin.ext same
    rw [if_pos here, Array.getD_eq_getD_getElem?, ← same, read, Vector.get_set, if_pos rfl]
    rfl
  · have elsewhere : (⟨j, fits⟩ : Fin length) ≠ i := fun here => same (congrArg Fin.val here)
    rw [if_neg elsewhere]
    simp [Array.getD_eq_getD_getElem?, same]

theorem leading_zero : leading length (Vector.replicate n (0 : α)).toArray =
    Vector.replicate length 0 := by
  refine Vector.ext_get fun i => ?_
  rw [leading_get, Vector.get_replicate, Array.getD_eq_getD_getElem?]
  by_cases inside : i.val < n <;> simp [inside]

theorem fill_leading (a : Array α) :
    fill a 0 0 = some (leading a.size (Vector.replicate n (0 : α)).toArray).toArray := by
  rw [fill_all rfl, leading_zero]

end OtherLength

theorem storage_rtSolve (rhs y : Array α) :
    F.storage.rtSolve rhs y = some (F.rtSolveInto rhs y) := by
  refine InPlace.attempt_checked fun passed => ?_
  have enough : F.rank ≤ min y.size rhs.size := checkAtLeast_eq_ok.mp passed
  have inside : F.rank ≤ n := F.rank_le.trans (Nat.min_le_right m n)
  let stored (v : Vector α n) : Array α := (leading y.size v.toArray).toArray
  have start : fill y 0 0 = some (stored (Vector.replicate n 0)) := fill_leading y
  have loop : ascend 0 F.rank (stored (Vector.replicate n 0)) (fun j y => do
      let sum ← ascend 0 j (← rhs[j]?) fun i sum => do
        return sum - (← F.storage.matrix.get? i j) * (← y[i]?)
      write y j (sum / (← F.storage.diag[j]?))) = some (stored (F.rtSolve (leading n rhs))) := by
    refine ascend_fold stored (fun j => (and_iff_right (Nat.zero_le _)).symm) inside
      (fun j v row => ?_) _
    have fits : j.val < min y.size rhs.size := row.trans_le enough
    have sum : ascend 0 j (leading n rhs j) (fun i sum => do
        return sum - (← F.storage.matrix.get? i j) * (← (stored v)[i]?)) =
        some (Scalar.subOver (leading n rhs j) (fun i => i < j) fun i => F.r i j * v i) := by
      refine ascend_subOver (fun i => ?_) j.isLt.le (fun i sum early => ?_) _
      · rw [decide_eq_true_eq, and_iff_right (Nat.zero_le _)]
        rfl
      · have early : i < j := of_decide_eq_true early
        have above : i.val < F.rank := lt_trans early row
        simp only [F.storage_above above early, stored, read_leading v (by omega : i.val < y.size),
          bind, Option.bind, pure]
    simp only [bind, Option.bind, pure] at sum ⊢
    simp only [read_enough (fits.trans_le (Nat.min_le_right _ _)), sum, F.storage_diag row]
    exact write_leading v (fits.trans_le (Nat.min_le_left _ _)) _
  simp only [start, bind, Option.bind] at loop ⊢
  exact congrArg (Option.bind · fun y => some (InPlace.succeed y)) loop

theorem storage_rMul (x out : Array α) : F.storage.rMul x out = some (F.rMulInto x out) := by
  rw [Stored.rMul, rMulInto]
  refine InPlace.attempt_checked fun passed => ?_
  rw [checks_ok, checkLength_eq_ok, checkAtLeast_eq_ok] at passed
  obtain ⟨length, enough⟩ := passed
  have length : x.size = n := length
  have enough : F.rank ≤ out.size := enough
  have inside : F.rank ≤ n := F.rank_le.trans (Nat.min_le_right m n)
  let stored (v : Vector α n) : Array α := (leading out.size v.toArray).toArray
  let product := F.rMul (leading n x)
  have start : fill out 0 0 = some (stored (Vector.replicate n 0)) := fill_leading out
  have whole : splice (Vector.replicate n 0) product 0 F.rank = product := by
    refine Vector.ext_get fun i => ?_
    rw [splice_get]
    by_cases row : i.val < F.rank
    · rw [if_pos ⟨Nat.zero_le _, row⟩]
    · rw [if_neg fun both => row both.2, Vector.get_replicate]
      simp only [product, rMul, Vector.get_ofFn, if_neg row]
  have loop : ascend 0 F.rank (stored (Vector.replicate n 0)) (fun i out => do
      let sum ← ascend i n 0 fun j sum => do
        return sum + (← F.storage.r i j) * (← x[← F.perm.get? j]?)
      write out i sum) = some (stored product) := by
    refine (ascend_writes stored inside fun i _ row => ?_).trans (congrArg (some ∘ stored) whole)
    have sum : ascend i n 0 (fun j sum => do
        return sum + (← F.storage.r i j) * (← x[← F.perm.get? j]?)) = some (product i) := by
      simp only [product, rMul, Vector.get_ofFn, if_pos row, rMulRow]
      refine ascend_addOver (fun j => ?_) le_rfl (fun j sum _ => ?_) _
      · rw [decide_eq_true_eq, and_iff_left j.isLt]
        rfl
      · have fits : (F.perm.get j).val < x.size := length ▸ (F.perm.get j).isLt
        simp only [F.storage_r, Permutation.get?_mk, read_enough fits, bind, Option.bind, pure]
    simp only [bind, Option.bind, pure] at sum ⊢
    simp only [sum]
    exact write_leading _ (row.trans_le enough) _
  simp only [start, bind, Option.bind] at loop ⊢
  exact congrArg (Option.bind · fun out => some (InPlace.succeed out)) loop

/-! ## Factoring again -/

def refilled (F : Factorization α m n) (filled : AnyMatrix α) : InPlace (Stored α) Nat :=
  match F.refactorWith fun _ => filled with
  | .ok F' => { buffers := F'.storage, result := .ok F'.rank }
  | .error (e, R) => { buffers := R.storage, result := .error e }

theorem factorize_ok (A : DenseMatrix α m n) (diag norms : Vector α n) (perm : Permutation n)
    (rank : Nat) {stack : Array α} (room : 3 * n ≤ stack.size) :
    Stored.factorize { matrix := ⟨A⟩, diag := diag.toArray, perm, norms := norms.toArray, rank }
      stack = some { buffers := (ofMatrix A).storage, result := .ok (ofMatrix A).rank } := by
  let B : FactorBuffers α :=
    { matrix := ⟨A⟩, diag := diag.toArray, perm, norms := some norms.toArray }
  have lengths : B.check = .ok () := by
    rw [FactorBuffers.check_eq, FactorBuffers.checkFirst_eq_ok.mpr ⟨diag.size_toArray, rfl⟩]
    exact checkLength_self norms.size_toArray
  have factored : B.factorStored stack = some B.factor := B.factorStored_ok room
  rw [FactorBuffers.factor, lengths] at factored
  simp only [Stored.factorize]
  rw [factored]
  rfl

theorem storage_refactorWith {refill : AnyMatrix α → Option (AnyMatrix α)} {stack : Array α}
    {filled : AnyMatrix α} (fills : refill ⟨F.packed⟩ = some filled) (room : 3 * n ≤ stack.size) :
    F.storage.refactorWith refill stack = some (F.refilled filled) := by
  obtain @⟨rows, cols, A⟩ := filled
  simp only [Stored.refactorWith, bind, Option.bind, Except.bind, Stored.nrows, Stored.ncols,
    Factorization.storage, fills, refilled, refactorWith]
  by_cases sameRows : rows = m
  · subst sameRows
    by_cases sameCols : cols = n
    · subst sameCols
      simp only [checkLength_self rfl, InPlace.attempt, dite_true]
      exact factorize_ok A F.diag F.norms F.perm F.rank room
    · simp only [checkLength_self rfl, checkLength_other sameCols, InPlace.attempt, dite_true,
        dif_neg sameCols]
      rfl
  · simp only [checkLength_other sameRows, InPlace.attempt, dif_neg sameRows]
    rfl

end Factorization

end LeastSquares
