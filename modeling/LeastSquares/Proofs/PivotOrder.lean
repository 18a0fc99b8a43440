import Mathlib.Data.Fintype.EquivFin
import LeastSquares.PivotOrder
import LeastSquares.Proofs.FlatMatrix
import LeastSquares.Proofs.QR.Reducing

/-!
# Moving vectors back and forth

Exchanging and resetting indices composes permutations, so that each index stays in range and none
comes twice. This is why a vector is what it was after being moved to the order of the pivots and
back, and also why a part of a vector is moved without anything being overwritten.
-/

set_option autoImplicit false

namespace LeastSquares

open Storage

variable {α : Type} {n : Nat}

/-! ## Writes to distinct positions -/

namespace Storage

variable {count : Nat} {position : Nat → Option Nat} {value : Nat → Option α}
  {cells out : Array α}

/-- Each value is at its position, and all other cells are as they were. -/
structure Delivered (count : Nat) (position : Nat → Option Nat) (value : Nat → Option α)
    (cells out : Array α) : Prop where
  size : out.size = cells.size
  placed : ∀ k < count, ∃ p x, position k = some p ∧ value k = some x ∧ out[p]? = some x
  kept : ∀ p, (∀ k < count, position k ≠ some p) → out[p]? = cells[p]?

def Apart (count : Nat) (position : Nat → Option Nat) : Prop :=
  ∀ k l p, k < l → l < count → position k = some p → position l ≠ some p

theorem write_eq_some {i : Nat} {x : α} : write cells i x = some out ↔
    ∃ inside : i < cells.size, cells.set i x inside = out := by
  unfold write
  split <;> simp_all

theorem write_eq (cells : Array α) (i : Nat) (x : α) : write cells i x =
    if i < cells.size then some (cells.setIfInBounds i x) else none := by
  unfold write Array.setIfInBounds
  split <;> rfl

theorem deliver_succ : deliver (count + 1) position value cells =
    (deliver count position value cells).bind fun cells =>
      (position count).bind fun p => (value count).bind fun x => write cells p x :=
  ascend_succ (Nat.zero_le count) cells _

theorem deliver_eq_some (apart : Apart count position)
    (done : deliver count position value cells = some out) :
    Delivered count position value cells out := by
  induction count generalizing out with
  | zero =>
      rw [deliver, ascend_none le_rfl] at done
      cases done
      exact ⟨rfl, fun k none => absurd none (Nat.not_lt_zero k), fun _ _ => rfl⟩
  | succ count ih =>
      rw [deliver_succ] at done
      obtain ⟨before, earlier, done⟩ := Option.bind_eq_some_iff.mp done
      obtain ⟨p, there, done⟩ := Option.bind_eq_some_iff.mp done
      obtain ⟨x, given, done⟩ := Option.bind_eq_some_iff.mp done
      obtain ⟨inside, rfl⟩ := write_eq_some.mp done
      obtain ⟨size, placed, kept⟩ :=
        ih (fun k l p first second => apart k l p first (Nat.lt_succ_of_lt second)) earlier
      refine ⟨(Array.size_set inside).trans size, fun k below => ?_, fun q none => ?_⟩
      · rcases Nat.lt_succ_iff_lt_or_eq.mp below with below | rfl
        · obtain ⟨q, y, here, known, now⟩ := placed k below
          -- the last write does not reach what an earlier one has left
          have other : p ≠ q := fun same =>
            apart k count q below (Nat.lt_succ_self count) here (same ▸ there)
          exact ⟨q, y, here, known, (Array.getElem?_set_ne inside other).trans now⟩
        · exact ⟨p, x, there, given, Array.getElem?_set_self inside⟩
      · have other : p ≠ q := fun same => none count (Nat.lt_succ_self count) (same ▸ there)
        rw [Array.getElem?_set_ne inside other]
        exact kept q fun k below => none k (Nat.lt_succ_of_lt below)

theorem deliver_ready (ready : ∀ k < count, ∃ p x, position k = some p ∧ value k = some x ∧
    p < cells.size) : ∃ out, deliver count position value cells = some out ∧
      out.size = cells.size := by
  induction count with
  | zero => exact ⟨cells, ascend_none le_rfl _ _, rfl⟩
  | succ count ih =>
      obtain ⟨before, earlier, size⟩ := ih fun k below => ready k (Nat.lt_succ_of_lt below)
      obtain ⟨p, x, there, given, inside⟩ := ready count (Nat.lt_succ_self count)
      rw [← size] at inside
      refine ⟨before.set p x inside, ?_, (Array.size_set inside).trans size⟩
      rw [deliver_succ, earlier, there, given]
      exact dif_pos inside

theorem Delivered.ready (delivered : Delivered count position value cells out) :
    ∀ k < count, ∃ p x, position k = some p ∧ value k = some x ∧ p < cells.size := by
  intro k below
  obtain ⟨p, x, there, given, now⟩ := delivered.placed k below
  exact ⟨p, x, there, given, delivered.size ▸ (Array.getElem?_eq_some_iff.mp now).1⟩

theorem Delivered.unique {out' : Array α} (delivered : Delivered count position value cells out)
    (delivered' : Delivered count position value cells out') : out = out' := by
  refine Array.ext_getElem? fun p => ?_
  by_cases written : ∃ k < count, position k = some p
  · obtain ⟨k, below, there⟩ := written
    obtain ⟨q, x, here, given, now⟩ := delivered.placed k below
    obtain ⟨q', x', here', given', now'⟩ := delivered'.placed k below
    obtain rfl : p = q := Option.some.inj (there.symm.trans here)
    obtain rfl : p = q' := Option.some.inj (there.symm.trans here')
    rw [now, now', ← given, given']
  · have none : ∀ k < count, position k ≠ some p := fun k below there => written ⟨k, below, there⟩
    rw [delivered.kept p none, delivered'.kept p none]

/-- Writes to distinct positions go through where there is something to write, and a cell for it. -/
theorem deliver_runs (apart : Apart count position) :
    (∃ out, deliver count position value cells = some out) ↔
      ∀ k < count, ∃ p x, position k = some p ∧ value k = some x ∧ p < cells.size := by
  constructor
  · rintro ⟨out, done⟩
    exact (deliver_eq_some apart done).ready
  · intro ready
    obtain ⟨out, done, -⟩ := deliver_ready ready
    exact ⟨out, done⟩

theorem deliver_iff (apart : Apart count position) :
    deliver count position value cells = some out ↔ Delivered count position value cells out := by
  refine ⟨deliver_eq_some apart, fun delivered => ?_⟩
  obtain ⟨out', done⟩ := (deliver_runs apart).mpr delivered.ready
  rw [done, (deliver_eq_some apart done).unique delivered]

end Storage

/-! ## The programs come to the operations on permutations -/

namespace Permutation

variable (P : Permutation n)

theorem storage_indices (k : Nat) : P.storage.indices[k]? = P.get? k := by
  by_cases inside : k < n
  · obtain ⟨k, rfl⟩ : ∃ k' : Fin n, k = k' := ⟨⟨k, inside⟩, rfl⟩
    rw [get?_mk, storage, Storage.read, Vector.get_map]
    rfl
  · rw [get?, dif_neg inside]
    exact Array.getElem?_eq_none (by simpa [storage] using inside)

@[simp] theorem storage_size : P.storage.indices.size = n := Vector.size_toArray _

theorem storage_identity : PivotOrder.identity n =
    (Permutation.allocate n).map Permutation.storage := by
  rw [PivotOrder.identity, allocate, checkAllocatable]
  have indices : Array.range n = (identity : Permutation n).storage.indices := by
    refine Array.ext (by simp) fun k _ _ => ?_
    simp [storage, identity]
  by_cases room : Allocatable n
  · rw [if_pos room, indices]
    rfl
  · rw [if_neg room]
    rfl

theorem storage_swap (a b : Nat) : P.storage.swap a b = (P.swap? a b).map storage := by
  by_cases inside : a < n ∧ b < n
  · obtain ⟨a, rfl⟩ : ∃ a' : Fin n, a = a' := ⟨⟨a, inside.1⟩, rfl⟩
    obtain ⟨b, rfl⟩ : ∃ b' : Fin n, b = b' := ⟨⟨b, inside.2⟩, rfl⟩
    rw [swap?_mk, PivotOrder.swap, storage, exchange_toArray, ← Vector.map_swap]
    rfl
  · rw [swap?, dif_neg inside, Option.map_none, Option.eq_none_iff_forall_ne_some]
    intro S swapped
    obtain ⟨indices, exchanged, -⟩ := Option.bind_eq_some_iff.mp swapped
    obtain ⟨first, second⟩ := exchange_inside exchanged
    exact inside ⟨P.storage_size ▸ first, P.storage_size ▸ second⟩

theorem storage_reset : P.storage.reset = some P.reset.storage := by
  have loop : ascend 0 n P.storage.indices
      (fun position indices => write indices position position) = some P.reset.storage.indices := by
    let counted : Vector Nat n := Vector.ofFn Fin.val
    have same : counted = P.reset.indices.map Fin.val := by
      refine Vector.ext_get fun k => ?_
      rw [Vector.get_map, reset, identity, Vector.get_ofFn, Vector.get_ofFn]
    rw [storage, storage, ← same, ← splice_none (P.indices.map Fin.val) counted (le_refl 0)]
    refine (ascend_writes Vector.toArray le_rfl fun i _ _ => ?_).trans
      (congrArg (some ∘ Vector.toArray) (splice_all _ counted))
    rw [write_toArray, Vector.get_ofFn]
  rw [PivotOrder.reset, storage_size, loop]
  rfl

end Permutation

/-! ## Loops over lists -/

theorem Storage.foldlM_eq_ascend {β σ : Type} (l : List β) (step : σ → β → Option σ) (start : σ) :
    l.foldlM step start = ascend 0 l.length start fun k s => l[k]?.bind (step s) := by
  have elements : l.map some = (List.range' 0 l.length).map (l[·]?) := by
    refine List.ext_getElem (by simp) fun k _ _ => ?_
    simp
  have each : l.foldlM step start = (l.map some).foldlM (fun s x => x.bind (step s)) start := by
    rw [List.foldlM_map]
    rfl
  rw [each, elements, List.foldlM_map]
  rfl

theorem Storage.ascend_congr {σ : Type} {last : Nat} {pass pass' : Nat → σ → Option σ}
    (I : σ → Prop) (same : ∀ i < last, ∀ s, I s → pass i s = pass' i s)
    (next : ∀ i s s', I s → pass i s = some s' → I s') {start : σ} (holds : I start) :
    ascend 0 last start pass = ascend 0 last start pass' := by
  induction last with
  | zero => rw [ascend_none le_rfl, ascend_none le_rfl]
  | succ last ih =>
      have before := ih fun i below => same i (Nat.lt_succ_of_lt below)
      rw [ascend_succ (Nat.zero_le last), ascend_succ (Nat.zero_le last), ← before]
      cases reached : ascend 0 last start pass with
      | none => rfl
      | some s => exact same last (Nat.lt_succ_self last) s (ascend_keeps I next holds reached)

namespace Permutation

variable (P : Permutation n)

theorem storage_scatter (pivoted target : Array α) :
    P.storage.scatter pivoted target = P.scatter pivoted target := by
  have length : (P.indices.toList.zip pivoted.toList).length = min pivoted.size n := by
    simp [Nat.min_comm]
  rw [scatter, foldlM_eq_ascend, length, PivotOrder.scatter, deliver, storage_size]
  refine ascend_congr (fun _ => True) (fun k below out _ => ?_) (fun _ _ _ _ _ => trivial) trivial
  obtain ⟨given, inside⟩ := Nat.lt_min.mp below
  have entry : (P.indices.toList.zip pivoted.toList)[k]? =
      some (P.get ⟨k, inside⟩, pivoted[k]) := by
    rw [List.getElem?_eq_getElem (length ▸ below), List.getElem_zip]
    rfl
  have index : P.get? k = some (P.get ⟨k, inside⟩).val := P.get?_mk ⟨k, inside⟩
  rw [entry, storage_indices, index, Array.getElem?_eq_getElem given]
  exact write_eq _ _ _

theorem storage_gather (source pivoted : Array α) :
    P.storage.gather source pivoted = P.gather source pivoted := by
  have length : (P.indices.toList.zipIdx.take pivoted.size).length = min pivoted.size n := by simp
  rw [gather, foldlM_eq_ascend, length, PivotOrder.gather, deliver, storage_size]
  refine ascend_congr (fun out => out.size = pivoted.size) (fun k below out size => ?_)
    (fun k out out' size passed => ?_) rfl
  · obtain ⟨given, inside⟩ := Nat.lt_min.mp below
    have slot : (P.indices.toList.zipIdx.take pivoted.size)[k]? = some (P.get ⟨k, inside⟩, k) := by
      rw [List.getElem?_eq_getElem (length ▸ below), List.getElem_take, List.getElem_zipIdx]
      simp [get, Vector.get_eq]
    have index : P.get? k = some (P.get ⟨k, inside⟩).val := P.get?_mk ⟨k, inside⟩
    rw [slot, storage_indices, index]
    simp only [bind, Option.bind_some]
    cases source[(P.get ⟨k, inside⟩).val]? with
    | none => rfl
    | some x => exact (write_eq out k x).trans (if_pos (size ▸ given))
  · obtain ⟨p, -, passed⟩ := Option.bind_eq_some_iff.mp passed
    obtain ⟨x, -, passed⟩ := Option.bind_eq_some_iff.mp passed
    obtain ⟨inside, rfl⟩ := write_eq_some.mp passed
    exact (Array.size_set inside).trans size

end Permutation

/-! ## Both ways -/

namespace Permutation

variable {P : Permutation n} {source pivoted target out : Array α}

theorem apart_some (count : Nat) : Apart count some := fun k l p less _ here there => by
  obtain rfl : k = p := Option.some.inj here
  exact less.ne' (Option.some.inj there)

theorem get?_eq_some {k p : Nat} :
    P.get? k = some p ↔ ∃ inside : k < n, (P.get ⟨k, inside⟩).val = p := by
  unfold get?
  split <;> simp_all

theorem apart_get? (bijective : Function.Bijective P.get) (count : Nat) : Apart count P.get? := by
  intro k l p less _ here there
  obtain ⟨_, index⟩ := get?_eq_some.mp here
  obtain ⟨_, index'⟩ := get?_eq_some.mp there
  have same := bijective.injective (Fin.ext (index.trans index'.symm))
  exact less.ne (congrArg Fin.val same)

theorem gather_iff : P.storage.gather source pivoted = some out ↔
    Delivered (min pivoted.size n) some (fun k => (P.get? k).bind (source[·]?)) pivoted out := by
  rw [PivotOrder.gather, storage_size, deliver_iff (apart_some _)]
  simp only [storage_indices, bind]

theorem scatter_iff (bijective : Function.Bijective P.get) :
    P.storage.scatter pivoted target = some out ↔
      Delivered (min pivoted.size n) P.get? (pivoted[·]?) target out := by
  rw [PivotOrder.scatter, storage_size, funext P.storage_indices,
    deliver_iff (apart_get? bijective _)]

theorem gather_runs : (∃ out, P.storage.gather source pivoted = some out) ↔
    ∀ k : Fin n, k.val < pivoted.size → (P.get k).val < source.size := by
  rw [PivotOrder.gather, storage_size, deliver_runs (apart_some _)]
  simp only [storage_indices, bind]
  constructor
  · intro ready k given
    obtain ⟨p, x, -, moved, -⟩ := ready k (Nat.lt_min.mpr ⟨given, k.isLt⟩)
    rw [get?_mk, Option.bind_some] at moved
    exact (Array.getElem?_eq_some_iff.mp moved).1
  · intro inside k below
    obtain ⟨given, within⟩ := Nat.lt_min.mp below
    have there := inside ⟨k, within⟩ given
    refine ⟨k, source[(P.get ⟨k, within⟩).val], rfl, ?_, given⟩
    rw [P.get?_mk ⟨k, within⟩, Option.bind_some, Array.getElem?_eq_getElem there]

theorem scatter_runs (bijective : Function.Bijective P.get) :
    (∃ out, P.storage.scatter pivoted target = some out) ↔
      ∀ k : Fin n, k.val < pivoted.size → (P.get k).val < target.size := by
  rw [PivotOrder.scatter, storage_size, funext P.storage_indices,
    deliver_runs (apart_get? bijective _)]
  constructor
  · intro ready k given
    obtain ⟨p, x, index, -, there⟩ := ready k (Nat.lt_min.mpr ⟨given, k.isLt⟩)
    obtain ⟨_, rfl⟩ := get?_eq_some.mp index
    exact there
  · intro inside k below
    obtain ⟨given, within⟩ := Nat.lt_min.mp below
    exact ⟨_, _, P.get?_mk ⟨k, within⟩, Array.getElem?_eq_getElem given,
      inside ⟨k, within⟩ given⟩

theorem scatter_gather (bijective : Function.Bijective P.get) {v w : Array α}
    (length : v.size = n) (slots : pivoted.size = n) (cells : target.size = n)
    (moved : P.storage.gather v pivoted = some w) : P.storage.scatter w target = some v := by
  obtain ⟨size, placed, -⟩ := gather_iff.mp moved
  rw [slots, Nat.min_self] at placed
  refine (scatter_iff bijective).mpr ⟨length.trans cells.symm, fun k below => ?_, fun p none => ?_⟩
  · rw [size, slots, Nat.min_self] at below
    obtain ⟨slot, x, same, given, now⟩ := placed k below
    obtain rfl : k = slot := Option.some.inj same
    obtain ⟨p, index, there⟩ := Option.bind_eq_some_iff.mp given
    exact ⟨p, x, index, now, there⟩
  · rw [size, slots, Nat.min_self] at none
    have outside : n ≤ p := by
      by_contra within
      obtain ⟨k, hit⟩ := bijective.surjective ⟨p, not_le.mp within⟩
      exact none k k.isLt (get?_eq_some.mpr ⟨k.isLt, congrArg Fin.val hit⟩)
    rw [Array.getElem?_eq_none (length ▸ outside), Array.getElem?_eq_none (cells ▸ outside)]

theorem gather_scatter (bijective : Function.Bijective P.get) {v w : Array α}
    (length : v.size = n) (slots : pivoted.size = n)
    (moved : P.storage.scatter v target = some w) : P.storage.gather w pivoted = some v := by
  obtain ⟨-, placed, -⟩ := (scatter_iff bijective).mp moved
  rw [length, Nat.min_self] at placed
  refine gather_iff.mpr ⟨length.trans slots.symm, fun k below => ?_, fun k none => ?_⟩
  · rw [slots, Nat.min_self] at below
    obtain ⟨p, x, index, given, now⟩ := placed k below
    exact ⟨k, x, rfl, Option.bind_eq_some_iff.mpr ⟨p, index, now⟩, given⟩
  · rw [slots, Nat.min_self] at none
    have outside : n ≤ k := not_lt.mp fun within => none k within rfl
    rw [Array.getElem?_eq_none (length ▸ outside), Array.getElem?_eq_none (slots ▸ outside)]

/-- What moving arrays of any lengths by `P` comes to: a vector of the length of `P` is restored by
the way back, and otherwise the pivots that both sides reach are the only ones that count. -/
structure Moves (α : Type) (P : Permutation n) : Prop where
  gather_back (v pivoted target : Array α) :
    v.size = n → pivoted.size = n → target.size = n →
      ∃ w, P.storage.gather v pivoted = some w ∧ P.storage.scatter w target = some v
  scatter_back (v pivoted target : Array α) :
    v.size = n → pivoted.size = n → target.size = n →
      ∃ w, P.storage.scatter v target = some w ∧ P.storage.gather w pivoted = some v
  gather_runs (source pivoted : Array α) :
    (∃ out, P.storage.gather source pivoted = some out) ↔
      ∀ k : Fin n, k.val < pivoted.size → (P.get k).val < source.size
  gather_writes (source pivoted out : Array α) :
    P.storage.gather source pivoted = some out ↔
      Delivered (min pivoted.size n) some (fun k => (P.get? k).bind (source[·]?)) pivoted out
  scatter_runs (pivoted target : Array α) :
    (∃ out, P.storage.scatter pivoted target = some out) ↔
      ∀ k : Fin n, k.val < pivoted.size → (P.get k).val < target.size
  scatter_writes (pivoted target out : Array α) :
    P.storage.scatter pivoted target = some out ↔
      Delivered (min pivoted.size n) P.get? (pivoted[·]?) target out
  gather_checked (source pivoted : Array α) :
    P.storage.gather source pivoted = P.gather source pivoted
  scatter_checked (pivoted target : Array α) :
    P.storage.scatter pivoted target = P.scatter pivoted target

theorem moves (bijective : Function.Bijective P.get) : P.Moves α where
  gather_back v pivoted target length slots cells := by
    obtain ⟨w, gathered⟩ : ∃ w, P.storage.gather v pivoted = some w :=
      gather_runs.mpr fun k _ => length ▸ (P.get k).isLt
    exact ⟨w, gathered, scatter_gather bijective length slots cells gathered⟩
  scatter_back v pivoted target length slots cells := by
    obtain ⟨w, scattered⟩ : ∃ w, P.storage.scatter v target = some w :=
      (scatter_runs bijective).mpr fun k _ => cells ▸ (P.get k).isLt
    exact ⟨w, scattered, gather_scatter bijective length slots scattered⟩
  gather_runs _ _ := gather_runs
  gather_writes _ _ _ := gather_iff
  scatter_runs _ _ := scatter_runs bijective
  scatter_writes _ _ _ := scatter_iff bijective
  gather_checked := P.storage_gather
  scatter_checked := P.storage_scatter

end Permutation

/-! ## Edits -/

inductive OrderEdit where
  | swap (a b : Nat)
  | reset

namespace OrderEdit

def InRange (n : Nat) : OrderEdit → Prop
  | swap a b => a < n ∧ b < n
  | reset => True

def apply : OrderEdit → Equiv.Perm Nat → Equiv.Perm Nat
  | swap a b, π => (Equiv.swap a b).trans π
  | reset, _ => Equiv.refl Nat

end OrderEdit

def Permutation.edit (P : Permutation n) : OrderEdit → Option (Permutation n)
  | .swap a b => P.swap? a b
  | .reset => some P.reset

def PivotOrder.edit (S : PivotOrder) : OrderEdit → Option PivotOrder
  | .swap a b => S.swap a b
  | .reset => S.reset

namespace Permutation

/-- The indices spell out a permutation of all numbers, as far as they go. -/
def Spells (P : Permutation n) (π : Equiv.Perm Nat) : Prop := ∀ k, (P.get k).val = π k

variable {P : Permutation n} {π : Equiv.Perm Nat}

theorem Spells.bijective (spells : P.Spells π) : Function.Bijective P.get := by
  refine Finite.injective_iff_bijective.mp fun k l same => Fin.ext (π.injective ?_)
  rw [← spells k, ← spells l, same]

theorem spells_identity : (identity : Permutation n).Spells (Equiv.refl Nat) := fun k =>
  congrArg Fin.val (Vector.get_ofFn _ k)

theorem Spells.edit (spells : P.Spells π) {edit : OrderEdit} (inside : edit.InRange n) :
    ∃ Q : Permutation n, P.edit edit = some Q ∧ Q.Spells (edit.apply π) := by
  cases edit with
  | swap a b =>
      obtain ⟨a, rfl⟩ : ∃ a' : Fin n, a = a' := ⟨⟨a, inside.1⟩, rfl⟩
      obtain ⟨b, rfl⟩ : ∃ b' : Fin n, b = b' := ⟨⟨b, inside.2⟩, rfl⟩
      refine ⟨P.swap a b, P.swap?_mk a b, fun k => ?_⟩
      have moved : (P.swap a b).get k = P.get (Equiv.swap a b k) := swap_get P.indices a b k
      rw [moved, spells, ← swap_val]
      rfl
  | reset => exact ⟨P.reset, rfl, spells_identity⟩

theorem storage_edit (P : Permutation n) (edit : OrderEdit) :
    P.storage.edit edit = (P.edit edit).map storage := by
  cases edit with
  | swap a b => exact P.storage_swap a b
  | reset => exact P.storage_reset

theorem Spells.editAll {edits : List OrderEdit} (spells : P.Spells π)
    (inside : ∀ edit ∈ edits, edit.InRange n) :
    ∃ Q : Permutation n, edits.foldlM Permutation.edit P = some Q ∧
      edits.foldlM PivotOrder.edit P.storage = some Q.storage ∧
      Q.Spells (edits.foldl (fun π edit => edit.apply π) π) := by
  induction edits generalizing P π with
  | nil => exact ⟨P, rfl, rfl, spells⟩
  | cons edit rest ih =>
      obtain ⟨first, others⟩ := List.forall_mem_cons.mp inside
      obtain ⟨Q, once, spells⟩ := spells.edit first
      obtain ⟨R, done, stored, spells⟩ := ih spells others
      refine ⟨R, ?_, ?_, spells⟩
      · rw [List.foldlM_cons, once]
        exact done
      · rw [List.foldlM_cons, storage_edit, once]
        exact stored

end Permutation

/-- `P` is where edits take an order: on the stored indices, on the checked ones, and as a product
of permutations. -/
structure Permutation.EditedFrom (start : PivotOrder) (edits : List OrderEdit)
    (P : Permutation n) : Prop where
  stored : edits.foldlM PivotOrder.edit start = some P.storage
  checked : edits.foldlM Permutation.edit .identity = some P
  bijective : Function.Bijective P.get
  spells : P.Spells (edits.foldl (fun π edit => edit.apply π) (Equiv.refl Nat))

/-- Whatever exchanges and resets an order has been through, its indices are those in range, each
once. A vector of its length comes back from being moved, either way. Of a shorter or longer vector
in the order of the pivots, the first entries are moved, as far as both go: each to or from the
place of its pivot, and nothing else is written. -/
theorem PivotOrder.moves_back_and_forth {start : PivotOrder}
    (made : PivotOrder.identity n = .ok start) {edits : List OrderEdit}
    (inside : ∀ edit ∈ edits, edit.InRange n) :
    ∃ P : Permutation n, P.EditedFrom start edits ∧ P.Moves α := by
  have identity : start = (Permutation.identity : Permutation n).storage := by
    rw [Permutation.storage_identity, Permutation.allocate, checkAllocatable] at made
    split at made <;> cases made
    rfl
  obtain ⟨P, checked, stored, spells⟩ := Permutation.spells_identity.editAll inside
  exact ⟨P, { stored := identity ▸ stored, checked, bijective := spells.bijective, spells },
    P.moves spells.bijective⟩

theorem PivotOrder.moves_back_and_forth_three :
    ∃ (start : PivotOrder) (P : Permutation 3), PivotOrder.identity 3 = .ok start ∧
      [OrderEdit.swap 0 2, .swap 1 2].foldlM PivotOrder.edit start = some P.storage ∧
      P.storage.indices = #[2, 0, 1] ∧
      P.storage.gather #[10, 20, 30] #[0, 0, 0] = some #[30, 10, 20] ∧
      P.storage.scatter #[30, 10, 20] #[0, 0, 0] = some #[10, 20, 30] := by
  have made : PivotOrder.identity 3 = .ok { indices := #[0, 1, 2] } := rfl
  have inside : ∀ edit ∈ [OrderEdit.swap 0 2, .swap 1 2], edit.InRange 3 := by
    simp [OrderEdit.InRange]
  obtain ⟨P, edited, moves⟩ := PivotOrder.moves_back_and_forth (α := Nat) made inside
  have reached : P.storage = { indices := #[2, 0, 1] } := (Option.some.inj edited.stored).symm
  obtain ⟨w, gathered, scattered⟩ :=
    moves.gather_back #[10, 20, 30] #[0, 0, 0] #[0, 0, 0] rfl rfl rfl
  have moved : w = #[30, 10, 20] := by
    rw [reached] at gathered
    exact (Option.some.inj gathered).symm
  rw [moved] at gathered scattered
  exact ⟨_, P, made, edited.stored, congrArg PivotOrder.indices reached, gathered, scattered⟩

end LeastSquares
