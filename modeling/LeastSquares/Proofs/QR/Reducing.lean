import LeastSquares.Proofs.QR.Solve
import LeastSquares.Proofs.Storage
import LeastSquares.QR.Reducing

/-!
# The reduction in place

Whatever stands in the buffers when it begins, the program on storage is in range and leaves what
the reduction of the matrix is. Each part of a step is a square: what the program does to the
storage of a reduction is the storage of what the step does to the reduction.
-/

set_option autoImplicit false

namespace LeastSquares

open Storage

variable {α : Type} {m n : Nat}

/-! ## Columns in storage -/

theorem Vector.map_swap {β γ : Type} (f : β → γ) (v : Vector β n) (i j : Fin n) :
    (v.swap i j i.isLt j.isLt).map f = (v.map f).swap i j i.isLt j.isLt := by
  refine Vector.ext_get fun k => ?_
  simp only [Vector.get_map, Vector.get_swap, apply_ite f]

namespace AnyMatrix

theorem get?_set_col (cols : Vector (Vector α m) n) (j : Fin n) (w : Vector α m) (i : Fin m) :
    (⟨.ofCols (cols.set j w j.isLt)⟩ : AnyMatrix α).get? i j = some (w i) := by
  rw [get?_mk, DenseMatrix.get_ofCols, Vector.get_set, if_pos rfl]

theorem get?_other_col (cols : Vector (Vector α m) n) {j k : Fin n} (other : j ≠ k)
    (w : Vector α m) (i : Fin m) :
    (⟨.ofCols (cols.set j w j.isLt)⟩ : AnyMatrix α).get? i k = some (cols k i) := by
  rw [get?_mk, DenseMatrix.get_ofCols, Vector.get_set, if_neg other]

theorem set?_set_col (cols : Vector (Vector α m) n) (j : Fin n) (w : Vector α m) (i : Fin m)
    (x : α) : (⟨.ofCols (cols.set j w j.isLt)⟩ : AnyMatrix α).set? i j x =
      some ⟨.ofCols (cols.set j (w.set i x i.isLt) j.isLt)⟩ := by
  rw [set?_mk, DenseMatrix.set_ofCols, Vector.get_set, if_pos rfl, Vector.set_set]

theorem swapCols?_mk (cols : Vector (Vector α m) n) {a b : Fin n} (other : a ≠ b) :
    (⟨.ofCols cols⟩ : AnyMatrix α).swapCols? a b =
      some ⟨.ofCols (cols.swap a b a.isLt b.isLt)⟩ := by
  have values : a.val ≠ b.val := fun same => other (Fin.ext same)
  rw [swapCols?]
  split
  · rename_i still
    obtain rfl : m = 0 := still.resolve_left values
    refine congrArg (fun A => some (AnyMatrix.mk A)) (DenseMatrix.ext_get fun i _ => i.elim0)
  · rw [dif_pos ⟨a.isLt, b.isLt⟩, ← DenseMatrix.swapCols_ofCols]

end AnyMatrix

namespace Permutation

theorem get?_mk (P : Permutation n) (k : Fin n) : P.get? k = some (P.get k).val :=
  dif_pos k.isLt

theorem swap?_mk (P : Permutation n) (a b : Fin n) : P.swap? a b = some (P.swap a b) :=
  dif_pos ⟨a.isLt, b.isLt⟩

end Permutation

/-! ## The storage of a reduction -/

namespace Reduction

/-- The columns side by side, and their bookkeeping in arrays. -/
def storage (S : Reduction α m n) : Reducing α :=
  { matrix := ⟨.ofCols (S.cols.map (·.entries))⟩
    perm := ⟨S.cols.map (·.source)⟩
    original := (S.cols.map (·.norm)).toArray
    remaining := (S.cols.map (·.remaining)).toArray
    reference := (S.cols.map (·.reference)).toArray
    diag := S.diag.toArray }

def put (S : Reduction α m n) (j : Fin n) (c : PivotColumn α m n) : Reduction α m n :=
  { S with cols := S.cols.set j c j.isLt }

variable (S : Reduction α m n)

theorem set_field {β : Type} (f : PivotColumn α m n → β) (j : Fin n) :
    (S.cols.map f).set j (f (S.cols j)) j.isLt = S.cols.map f := by
  rw [← Vector.get_map f]
  exact Vector.set_getElem_self j.isLt

theorem storage_put (j : Fin n) (c : PivotColumn α m n) : (S.put j c).storage =
    { matrix := ⟨.ofCols ((S.cols.map (·.entries)).set j c.entries j.isLt)⟩
      perm := ⟨(S.cols.map (·.source)).set j c.source j.isLt⟩
      original := ((S.cols.map (·.norm)).set j c.norm j.isLt).toArray
      remaining := ((S.cols.map (·.remaining)).set j c.remaining j.isLt).toArray
      reference := ((S.cols.map (·.reference)).set j c.reference j.isLt).toArray
      diag := S.diag.toArray } := by
  simp only [storage, put, Vector.map_set]

theorem storage_put_entries (j : Fin n) (w : Vector α m) :
    { S.storage with matrix := ⟨.ofCols ((S.cols.map (·.entries)).set j w j.isLt)⟩ } =
      (S.put j { S.cols j with entries := w }).storage := by
  simp only [storage_put, set_field]
  rfl

theorem storage_entry (i : Fin m) (j : Fin n) :
    S.storage.matrix.get? i j = some ((S.cols j).entries i) := by
  rw [storage, AnyMatrix.get?_mk, DenseMatrix.get_ofCols, Vector.get_map]

theorem storage_remaining (j : Fin n) :
    S.storage.remaining[j.val]? = some (S.cols j).remaining := by
  rw [storage, read, Vector.get_map]

end Reduction

/-! ## Checks -/

namespace FactorBuffers

theorem check_eq (B : FactorBuffers α) : B.check = B.checkFirst.bind fun _ => B.checkNorms := by
  rw [check, checkFirst, checkNorms]
  cases checkLength B.diag.size B.matrix.ncols with
  | error e => rfl
  | ok _ => cases B.norms <;> rfl

theorem checkFirst_eq_ok {B : FactorBuffers α} : B.checkFirst = .ok () ↔
    B.diag.size = B.matrix.ncols ∧ B.permLength = B.matrix.ncols := by
  rw [checkFirst, ← checkLength_eq_ok, ← checkLength_eq_ok]
  cases checkLength B.diag.size B.matrix.ncols <;> simp [bind, Except.bind]

end FactorBuffers

variable [Scalar α]

theorem AnyMatrix.sumSquares?_mk (A : DenseMatrix α m n) (j : Fin n) {first : Nat}
    (le : first ≤ m) {p : Fin m → Bool} (inside : ∀ i, p i = true ↔ first ≤ i.val) :
    (⟨A⟩ : AnyMatrix α).sumSquares? j first = some (Scalar.sumSquares p (A.col j)) := by
  simp only [sumSquares?, col?_mk, bind, Option.bind, Vector.size_toArray, guard, if_pos le, pure]
  refine ascend_addOver (fun i => ?_) le_rfl (fun i sum _ => ?_) _
  · rw [inside, and_iff_left i.isLt]
  · rw [read]

/-! ## The parts of a step on a matrix -/

namespace Reducing

variable (cols : Vector (Vector α m) n)

theorem normalize_ok (k : Fin (min m n)) (norm : α) :
    normalize (⟨.ofCols cols⟩ : AnyMatrix α) m k norm =
      some ⟨.ofCols (cols.set (stepCol k)
        (Reflector.normalize norm (cols (stepCol k)) (stepRow k)) (stepCol k).isLt)⟩ := by
  let w := cols (stepCol k)
  let quotients : Vector α m := Vector.ofFn fun i => w i / norm
  let stored (w : Vector α m) : AnyMatrix α := ⟨.ofCols (cols.set (stepCol k) w (stepCol k).isLt)⟩
  have read (w : Vector α m) (i : Fin m) : (stored w).get? i k = some (w i) :=
    AnyMatrix.get?_set_col cols (stepCol k) w i
  have write (w : Vector α m) (i : Fin m) (x : α) :
      (stored w).set? i k x = some (stored (w.set i x i.isLt)) :=
    AnyMatrix.set?_set_col cols (stepCol k) w i x
  have start : (⟨.ofCols cols⟩ : AnyMatrix α) = stored w :=
    congrArg (fun cols => AnyMatrix.mk (.ofCols cols))
      (Vector.set_getElem_self (stepCol k).isLt).symm
  have divided : ascend k m (stored w) (fun i A => do A.set? i k ((← A.get? i k) / norm)) =
      some (stored (splice w quotients k m)) := by
    refine ascend_writes stored le_rfl fun i _ _ => ?_
    have fresh : splice w quotients k i i = w i := by
      rw [splice_get, if_neg (by omega)]
    simp only [read, write, bind, Option.bind, fresh, quotients, Vector.get_ofFn]
  have lead : (stored (splice w quotients k m)).get? k k = some (w (stepRow k) / norm) := by
    refine (read _ (stepRow k)).trans (congrArg some ?_)
    rw [splice_get, if_pos ⟨le_rfl, (stepRow k).isLt⟩, Vector.get_ofFn]
  have finished : (splice w quotients k m).set (stepRow k) (w (stepRow k) / norm + 1)
      (stepRow k).isLt = Reflector.normalize norm w (stepRow k) := by
    refine Vector.ext_get fun i => ?_
    rw [Vector.get_set, splice_get, Vector.get_ofFn, Reflector.normalize, Vector.get_ofFn]
    rcases lt_trichotomy (stepRow k) i with behind | same | before
    · rw [if_neg behind.ne, if_neg behind.ne', if_pos behind, if_pos ⟨behind.le, i.isLt⟩]
    · rw [if_pos same, if_pos same.symm, same]
    · rw [if_neg before.ne', if_neg before.ne, if_neg before.not_gt,
        if_neg fun late => before.not_ge late.1]
  rw [normalize, start, divided]
  simp only [bind, Option.bind, lead]
  exact (write _ (stepRow k) _).trans (congrArg (some ∘ stored) finished)

theorem reflect_ok (k : Fin (min m n)) {j : Fin n} (other : j ≠ stepCol k) :
    reflect (⟨.ofCols cols⟩ : AnyMatrix α) m k j =
      some ⟨.ofCols (cols.set j
        (Reflector.apply 0 (cols (stepCol k)) (stepRow k) (cols j)) j.isLt)⟩ := by
  let v := cols (stepCol k)
  let w := cols j
  let stored (w : Vector α m) : AnyMatrix α := ⟨.ofCols (cols.set j w j.isLt)⟩
  have pivot (w : Vector α m) (i : Fin m) : (stored w).get? i k = some (v i) :=
    AnyMatrix.get?_other_col cols other w i
  have read (w : Vector α m) (i : Fin m) : (stored w).get? i j = some (w i) :=
    AnyMatrix.get?_set_col cols j w i
  have write (w : Vector α m) (i : Fin m) (x : α) :
      (stored w).set? i j x = some (stored (w.set i x i.isLt)) :=
    AnyMatrix.set?_set_col cols j w i x
  have start : (⟨.ofCols cols⟩ : AnyMatrix α) = stored w :=
    congrArg (fun cols => AnyMatrix.mk (.ofCols cols)) (Vector.set_getElem_self j.isLt).symm
  let sum := Scalar.addOver 0 (fun i => stepRow k ≤ i) fun i => v i * w i
  have summed : ascend k m 0 (fun i sum => do
      return sum + (← (stored w).get? i k) * (← (stored w).get? i j)) = some sum := by
    refine ascend_addOver (fun i => ?_) le_rfl (fun i sum _ => ?_) 0
    · rw [decide_eq_true_eq, and_iff_left i.isLt]
      rfl
    · simp only [pivot, read, bind, Option.bind, pure]
  let reflected : Vector α m := Vector.ofFn fun i => w i - sum / v (stepRow k) * v i
  have lead : (stored w).get? k k = some (v (stepRow k)) := pivot w (stepRow k)
  have swept : splice w reflected k m = Reflector.apply 0 v (stepRow k) w := by
    refine Vector.ext_get fun i => ?_
    rw [splice_get, Vector.get_ofFn, Reflector.apply, Vector.get_ofFn]
    exact if_congr (and_iff_left i.isLt) rfl rfl
  rw [reflect, start]
  simp only [bind, Option.bind, pure] at summed ⊢
  simp only [lead, summed]
  rw [← swept]
  refine ascend_writes stored le_rfl fun i _ _ => ?_
  have fresh : splice w reflected k i i = w i := by
    rw [splice_get, if_neg (by omega)]
  simp only [pivot, read, write, fresh, reflected, Vector.get_ofFn]

end Reducing

/-! ## The parts of a step on a reduction -/

namespace Reduction

variable (S : Reduction α m n)

theorem storage_pivot (k : Fin n) : S.storage.pivot n k = some (S.pivot k).val := by
  have scan : S.pivot k = Fin.foldl n (fun best j => if k < j then
      (if (S.cols best).remaining < (S.cols j).remaining then j else best) else best) k := by
    simp only [pivot, ite_and]
  rw [scan]
  refine ascend_fold Fin.val (fun j => ?_) le_rfl (fun j best _ => ?_) k
  · rw [and_iff_left j.isLt]
    rfl
  · simp only [storage, read, Vector.get_map, bind, Option.bind, pure]
    split <;> rfl

theorem storage_bringPivot (k : Fin n) :
    S.storage.bringPivot n k = some (S.bringPivot k).storage := by
  rw [Reducing.bringPivot, storage_pivot]
  by_cases still : S.pivot k = k
  · have same : S.bringPivot k = S := by
      have cols : (S.bringPivot k).cols = S.cols := Vector.ext_get fun j => by
        rw [bringPivot_cols, still, Equiv.swap_self, Equiv.refl_apply]
      exact congrArg (fun cols => { S with cols }) cols
    simp only [bind, Option.bind, if_pos (congrArg Fin.val still), same]
    rfl
  · have moved : (S.pivot k).val ≠ k.val := fun value => still (Fin.ext value)
    simp only [bind, Option.bind, if_neg moved, pure, storage, exchange_toArray,
      AnyMatrix.swapCols?_mk _ (Ne.symm still), Permutation.swap?_mk, Permutation.swap, bringPivot,
      Vector.map_swap]

theorem storage_square (j : Fin n) {first : Nat} (le : first ≤ m) {p : Fin m → Bool}
    (inside : ∀ i, p i = true ↔ first ≤ i.val) :
    S.storage.matrix.sumSquares? j first = some (Scalar.sumSquares p (S.cols j).entries) := by
  rw [storage, AnyMatrix.sumSquares?_mk _ j le inside, DenseMatrix.col_ofCols, Vector.get_map]

theorem storage_finishRow (k : Fin (min m n)) (j : Fin n) : S.storage.finishRow k j =
    some (S.put j ((S.cols j).finishRow (stepRow k))).storage := by
  have reference : S.storage.reference[j.val]? = some (S.cols j).reference := by
    rw [storage, read, Vector.get_map]
  have top : S.storage.matrix.get? k j = some ((S.cols j).entries (stepRow k)) := by
    refine (AnyMatrix.get?_mk _ (stepRow k) j).trans (congrArg some ?_)
    rw [DenseMatrix.get_ofCols, Vector.get_map]
  have square : S.storage.matrix.sumSquares? j (k + 1) =
      some (Scalar.sumSquares (fun i => stepRow k < i) (S.cols j).entries) :=
    S.storage_square j (stepRow k).isLt fun i => decide_eq_true_iff
  have lower (x : α) : write S.storage.remaining j x =
      some ((S.cols.map (·.remaining)).set j x j.isLt).toArray := write_toArray _ j x
  have renew (x : α) : write S.storage.reference j x =
      some ((S.cols.map (·.reference)).set j x j.isLt).toArray := write_toArray _ j x
  simp only [Reducing.finishRow, reference, bind, Option.bind, PivotColumn.finishRow]
  by_cases counted : 0 < (S.cols j).reference
  · simp only [if_pos counted, top, storage_remaining, lower, storage_put]
    split
    · simp only [square, write_toArray, Vector.set_set, renew, pure, set_field]
      rfl
    · simp only [pure, set_field]
      rfl
  · simp only [if_neg counted, storage_put, set_field, pure]
    rfl

theorem storage_reflectColumn (k : Fin (min m n)) {j : Fin n} (other : j ≠ stepCol k) :
    Reducing.reflectColumn m k j S.storage =
      some (S.put j ((S.cols j).reflect (S.cols (stepCol k)).entries (stepRow k))).storage := by
  let reflected := Reflector.apply 0 (S.cols (stepCol k)).entries (stepRow k) (S.cols j).entries
  let S' := S.put j { S.cols j with entries := reflected }
  have swept : Reducing.reflect S.storage.matrix m k j =
      some ⟨.ofCols ((S.cols.map (·.entries)).set j reflected j.isLt)⟩ := by
    refine (Reducing.reflect_ok _ k other).trans ?_
    simp only [Vector.get_map, reflected]
  have column : S'.cols j = { S.cols j with entries := reflected } := by
    simp only [S', put, Vector.get_set, if_pos]
  have twice (c : PivotColumn α m n) : S'.put j c = S.put j c := by
    simp only [S', put, Vector.set_set]
  simp only [Reducing.reflectColumn, swept, bind, Option.bind]
  rw [S.storage_put_entries, storage_finishRow, column, twice, PivotColumn.reflect]

theorem storage_reflectColumns (k : Fin (min m n)) :
    ascend (k + 1) n S.storage (Reducing.reflectColumn m k) =
      some { S with cols := splice S.cols (Vector.ofFn fun j =>
        (S.cols j).reflect (S.cols (stepCol k)).entries (stepRow k)) (k + 1) n }.storage := by
  let stored (cols : Vector (PivotColumn α m n) n) : Reducing α := { S with cols }.storage
  refine ascend_writes stored le_rfl fun j late _ => ?_
  have other : j ≠ stepCol k := fun same => absurd late (same ▸ Nat.not_succ_le_self k.val)
  refine (storage_reflectColumn _ k other).trans ?_
  have reflector (new : Vector (PivotColumn α m n) n) :
      splice S.cols new (k + 1) j (stepCol k) = S.cols (stepCol k) := by
    rw [splice_get, if_neg fun both => Nat.not_succ_le_self _ both.1]
  have fresh (new : Vector (PivotColumn α m n) n) : splice S.cols new (k + 1) j j = S.cols j := by
    rw [splice_get, if_neg fun both => Nat.lt_irrefl _ both.2]
  simp only [reflector, fresh, Vector.get_ofFn]
  rfl

theorem storage_eliminate (k : Fin (min m n)) : S.storage.eliminate m n k
    (Reflector.tailNorm (S.cols (stepCol k)).entries (stepRow k)) =
      some (S.eliminate k).storage := by
  let c := S.cols (stepCol k)
  let norm := Reflector.signedLike (c.entries (stepRow k))
    (Reflector.tailNorm c.entries (stepRow k))
  let v := Reflector.normalize norm c.entries (stepRow k)
  let begun := S.put (stepCol k) { c with entries := v }
  have lead : S.storage.matrix.get? k k = some ((S.cols (stepCol k)).entries (stepRow k)) :=
    S.storage_entry (stepRow k) (stepCol k)
  have signed : (if (S.cols (stepCol k)).entries (stepRow k) < 0 then
      -Reflector.tailNorm (S.cols (stepCol k)).entries (stepRow k)
      else Reflector.tailNorm (S.cols (stepCol k)).entries (stepRow k)) = norm := rfl
  have normalized : Reducing.normalize S.storage.matrix m k norm =
      some ⟨.ofCols ((S.cols.map (·.entries)).set (stepCol k) v (stepCol k).isLt)⟩ := by
    refine (Reducing.normalize_ok _ k norm).trans ?_
    simp only [Vector.get_map]
    rfl
  have pivot : begun.cols (stepCol k) = { c with entries := v } := by
    simp only [begun, put, Vector.get_set, if_pos]
  have rest (j : Fin n) (other : j ≠ stepCol k) : begun.cols j = S.cols j := by
    simp only [begun, put, Vector.get_set, if_neg (Ne.symm other)]
  have cols : splice begun.cols (Vector.ofFn fun j =>
      (begun.cols j).reflect (begun.cols (stepCol k)).entries (stepRow k)) (k + 1) n =
        (S.eliminate k).cols := by
    refine Vector.ext_get fun j => ?_
    rw [splice_get, eliminate, Vector.get_ofFn, Vector.get_ofFn, pivot]
    rcases lt_trichotomy j (stepCol k) with before | same | later
    · rw [if_neg fun both => before.not_gt both.1, if_neg before.ne, if_neg before.not_gt,
        rest j before.ne]
    · rw [if_neg fun both => same.not_gt both.1, if_pos same, same, pivot]
    · rw [if_pos ⟨later, j.isLt⟩, if_neg later.ne', if_pos later, rest j later.ne']
  have loop := begun.storage_reflectColumns k
  rw [cols, ← S.storage_put_entries (stepCol k) v] at loop
  have finished : write S.diag.toArray k (-norm) =
      some (S.diag.set (stepCol k) (-norm) (stepCol k).isLt).toArray :=
    write_toArray S.diag (stepCol k) (-norm)
  simp only [Reducing.eliminate, lead, bind, Option.bind, signed, normalized, loop]
  exact congrArg (Option.bind · _) finished

theorem storage_reduceFrom_succ (step : Fin (min m n)) (t : Nat) :
    let brought := S.bringPivot (stepCol step)
    Reducing.reduceFrom m n (t + 1) step S.storage =
      if brought.exhausted step then some (step.val, brought.storage)
      else Reducing.reduceFrom m n t (step + 1) (brought.eliminate step).storage := by
  intro brought
  let c := brought.cols (stepCol step)
  have bring : S.storage.bringPivot n step = some brought.storage :=
    S.storage_bringPivot (stepCol step)
  have square : brought.storage.matrix.sumSquares? step step =
      some (Scalar.sumSquares (fun i => stepRow step ≤ i) c.entries) :=
    brought.storage_square (stepCol step) (stepRow step).isLt.le fun i => decide_eq_true_iff
  have original : brought.storage.original[step.val]? = some c.norm := by
    refine (read _ (stepCol step)).trans (congrArg some ?_)
    rw [Vector.get_map]
  have norm : Scalar.sqrt (Scalar.sumSquares (fun i => stepRow step ≤ i) c.entries) =
      Reflector.tailNorm c.entries (stepRow step) := rfl
  have stops : (Reflector.tailNorm c.entries (stepRow step) == 0 || decide
      (Reflector.tailNorm c.entries (stepRow step) ≤ tolerance m n * c.norm)) =
      brought.exhausted step := rfl
  rw [Reducing.reduceFrom]
  simp only [bring, bind, Option.bind, square, original, norm, stops]
  by_cases exhausted : brought.exhausted step = true
  · rw [if_pos exhausted, if_pos exhausted]
    rfl
  · have eliminated : brought.storage.eliminate m n step
        (Reflector.tailNorm c.entries (stepRow step)) = some (brought.eliminate step).storage :=
      brought.storage_eliminate step
    rw [if_neg exhausted, if_neg exhausted, eliminated]

theorem storage_reduceFrom (t k : Nat) (h : k + t = min m n) :
    Reducing.reduceFrom m n t k S.storage =
      some ((reduceFrom t k h S).rank, (reduceFrom t k h S).toReduction.storage) := by
  induction t generalizing k S with
  | zero => rfl
  | succ t ih =>
      let step : Fin (min m n) := ⟨k, by omega⟩
      let brought := S.bringPivot (stepCol step)
      refine (S.storage_reduceFrom_succ step t).trans ?_
      rw [reduceFrom]
      by_cases exhausted : brought.exhausted step = true
      · rw [if_pos exhausted, if_pos exhausted]
      · rw [if_neg exhausted, if_neg exhausted]
        exact ih _ (k + 1) (by omega)

end Reduction

/-! ## The whole program -/

def columnSquares (A : DenseMatrix α m n) : Vector α n :=
  Vector.ofFn fun j => Scalar.sumSquares (fun _ => true) (A.col j)

/-- Every cell is written, so that nothing is left of what the three arrays held. -/
theorem Reducing.measure_ok (A : DenseMatrix α m n) {p : Nat} (perm : Permutation p)
    (diag : Array α) (original remaining reference : Vector α n) :
    measure n { matrix := ⟨A⟩, perm, diag, original := original.toArray
                remaining := remaining.toArray, reference := reference.toArray } =
      some { matrix := ⟨A⟩, perm, diag, original := ((columnSquares A).map Scalar.sqrt).toArray
             remaining := (columnSquares A).toArray, reference := (columnSquares A).toArray } := by
  let squares := columnSquares A
  let roots := squares.map Scalar.sqrt
  let state (i : Nat) : Reducing α :=
    { matrix := ⟨A⟩, perm, diag, original := (splice original roots 0 i).toArray
      remaining := (splice remaining squares 0 i).toArray
      reference := (splice reference squares 0 i).toArray }
  have loop : measure n (state 0) = some (state n) := by
    refine ascend_states (Nat.zero_le n) fun i _ early => ?_
    let j : Fin n := ⟨i, early⟩
    have square : (state i).matrix.sumSquares? i 0 = some (squares j) := by
      have all (i : Fin m) : true = true ↔ 0 ≤ i.val := iff_of_true rfl (Nat.zero_le _)
      refine (AnyMatrix.sumSquares?_mk A j (Nat.zero_le m) (p := fun _ => true) all).trans ?_
      simp only [squares, columnSquares, Vector.get_ofFn]
    have rewritten (old new : Vector α n) : write (splice old new 0 i).toArray i (new j) =
        some (splice old new 0 (i + 1)).toArray := by
      rw [← splice_succ old new j (Nat.zero_le i)]
      exact write_toArray _ j _
    have root : Scalar.sqrt (squares j) = roots j := (Vector.get_map _ _ j).symm
    simp only [square, bind, Option.bind, root]
    simp only [state, rewritten, pure]
  simpa only [state, splice_none _ _ le_rfl, splice_all] using loop

theorem Reduction.ofMatrix_storage (A : DenseMatrix α m n) : (Reduction.ofMatrix A).storage =
    { matrix := ⟨A⟩, perm := (.identity : Permutation n)
      original := ((columnSquares A).map Scalar.sqrt).toArray
      remaining := (columnSquares A).toArray, reference := (columnSquares A).toArray
      diag := (Vector.replicate n 0).toArray } := by
  have matrix : DenseMatrix.ofCols ((Vector.ofFn fun j =>
      PivotColumn.ofColumn (A.col j) j).map (·.entries)) = A := by
    rw [Vector.map_ofFn]
    exact A.ofCols_col
  simp only [storage, ofMatrix, matrix]
  simp only [Vector.map_ofFn, columnSquares]
  rfl

namespace FactorBuffers

variable {stack : Array α}

theorem factorStored_fits (A : DenseMatrix α m n) (perm : Permutation n) {diag : Array α}
    (fits : diag.size = n) (norms : Option (Array α)) (room : 3 * n ≤ stack.size) :
    let B : FactorBuffers α := { matrix := ⟨A⟩, diag, perm, norms }
    let F := Factorization.ofMatrix A
    B.factorStored stack = InPlace.attempt B B.checkNorms fun _ => some
      { buffers :=
          { matrix := ⟨F.packed⟩, diag := F.diag.toArray, perm := F.perm
            norms := norms.map fun _ => F.norms.toArray }
        result := .ok F.rank } := by
  intro B F
  have reduced : Reducing.reduceFrom m n (min m n) 0 (Reduction.ofMatrix A).storage =
      some (A.reduce.rank, A.reduce.toReduction.storage) :=
    (Reduction.ofMatrix A).storage_reduceFrom _ 0 (Nat.zero_add _)
  rw [Reduction.ofMatrix_storage] at reduced
  have kept : F.norms = (columnSquares A).map Scalar.sqrt := by
    rw [columnSquares, Vector.map_ofFn]
    rfl
  rw [← kept] at reduced
  have first : n ≤ stack.size := by omega
  have second : n ≤ (stack.extract n).size := by simp; omega
  have third : n ≤ ((stack.extract n).extract n).size := by simp; omega
  have passed : B.checkFirst = .ok () := by
    simp only [checkFirst, B, fits, checkLength_self, bind, Except.bind]
  rw [factorStored, passed]
  simp only [InPlace.attempt, bind, Option.bind, B, carve_replicate first, carve_replicate second,
    carve_replicate third, Reducing.measure_ok, fill_all fits, Permutation.reset, reduced, ← kept]
  rfl

/-- Factoring in place is in range and gives what factoring gives, whatever the buffers and the
scratch space hold. -/
theorem factorStored_ok (B : FactorBuffers α) (room : 3 * B.matrix.ncols ≤ stack.size) :
    B.factorStored stack = some B.factor := by
  rw [factor, check_eq]
  cases first : B.checkFirst with
  | error e =>
      rw [factorStored, first]
      rfl
  | ok _ =>
      obtain ⟨diagFits, permFits⟩ := checkFirst_eq_ok.mp first
      obtain @⟨@⟨m, n, A⟩, diag, p, perm, norms⟩ := B
      obtain rfl : p = n := permFits
      refine (factorStored_fits A perm diagFits norms room).trans ?_
      simp only [InPlace.attempt, Except.bind]
      cases checkNorms { matrix := ⟨A⟩, diag, perm, norms } <;> rfl

end FactorBuffers

end LeastSquares
