import LeastSquares.Fit.Setting
import LeastSquares.Proofs.Fit.Caches
import LeastSquares.Proofs.Fit.Enclosure
import LeastSquares.Proofs.Storage

/-!
# Setting all or nothing

A setter looks at all of its arguments before it writes anything, and refuses them for the first
thing that is wrong about them. So the limits of a fit are in order at every moment, and a prepared
fit whose tags have changed is what preparing would have made of the same values under the new tags.
-/

set_option autoImplicit false

namespace LeastSquares

open Storage

variable {α σ ε : Type} {n m k : Nat}

/-! ## Cells and lists -/

section Cells

variable {β γ : Type}

theorem put_ok (cells : Vector β k) (i : Fin k) (x : β) :
    put cells i x = some (cells.set i x i.isLt) :=
  dif_pos i.isLt

theorem getElem?_get (cells : Vector β k) (i : Fin k) : cells[i.val]? = some (cells i) := by
  simp [Vector.get_eq]

theorem overwrite_eq (cells : Vector β k) {source : Nat → Option β} {new : Vector β k}
    (reads : ∀ i : Fin k, source i = some (new i)) : overwrite cells source = some new := by
  have loop : overwrite cells source = some (splice cells new 0 k) := by
    refine ascend_writes id le_rfl fun i _ _ => ?_
    simp only [reads, bind, Option.bind, id, put_ok]
  rw [loop, splice_all]

def filled (given : Option (Vector γ k)) (f : γ → β) (missing : β) : Vector β k :=
  match given with
  | some list => list.map f
  | none => Vector.replicate k missing

theorem entry_filled (given : Option (Vector γ k)) (f : γ → β) (missing : β) (i : Fin k) :
    entry (given.map (·.toArray)) f missing i = some (filled given f missing i) := by
  cases given with
  | none => simp only [entry, filled, Option.map_none, Vector.get_replicate]
  | some list => simp only [entry, filled, Option.map_some, read, Vector.get_map]

theorem foldl_prod (f : β → Fin k → β) (g : γ → Fin k → γ) (b : β) (c : γ) :
    Fin.foldl k (fun s i => (f s.1 i, g s.2 i)) (b, c) = (Fin.foldl k f b, Fin.foldl k g c) := by
  induction k with
  | zero => rfl
  | succ k ih =>
      have front := ih (fun s i => f s i.castSucc) fun s i => g s i.castSucc
      rw [Fin.foldl_succ_last, front, Fin.foldl_succ_last, Fin.foldl_succ_last]

theorem foldl_set (cells new : Vector β k) :
    Fin.foldl k (fun cells i => cells.set i (new i) i.isLt) cells = new := by
  have written : ∀ i : Fin k, i.val < k →
      Fin.foldl k (fun cells i => cells.set i (new i) i.isLt) cells i = new i := by
    refine foldl_carries _ (fun t v => ∀ i : Fin k, i.val < t → v i = new i) cells
      (fun i none => absurd none (Nat.not_lt_zero _)) fun t v before i below => ?_
    rw [Vector.get_set]
    split
    · rename_i same
      rw [same]
    · rename_i other
      exact before i (by omega)
  exact Vector.ext_get fun i => written i i.isLt

theorem foldl_found (f : β → Option γ) (list : List β) (found : Option γ) :
    list.foldl (fun found x => if found.isSome then found else f x) found =
      found.or (list.findSome? f) := by
  induction list generalizing found with
  | nil => simp
  | cons x rest ih =>
      rw [List.foldl_cons, ih, List.findSome?_cons]
      cases found with
      | some y => rfl
      | none => cases f x <;> rfl

/-- A search through all positions finds something at the first position that has anything. -/
theorem findSome?_finRange {f : Fin k → Option γ} {y : γ} :
    (List.finRange k).findSome? f = some y ↔ ∃ q, f q = some y ∧ ∀ r < q, f r = none := by
  have first {y : γ} (found : (List.finRange k).findSome? f = some y) :
      ∃ q, f q = some y ∧ ∀ r < q, f r = none := by
    obtain ⟨front, q, rest, split, here, none⟩ := List.findSome?_eq_some_iff.mp found
    refine ⟨q, here, fun r before => none r ?_⟩
    have member : r ∈ front ++ q :: rest := split ▸ List.mem_finRange r
    have sorted : (front ++ q :: rest).Pairwise (· < ·) := split ▸ List.pairwise_lt_finRange k
    rcases List.mem_append.mp member with early | late
    · exact early
    · rcases List.mem_cons.mp late with rfl | behind
      · exact (lt_irrefl r before).elim
      · have later := List.rel_of_pairwise_cons (List.pairwise_append.mp sorted).2.1 behind
        exact (lt_asymm before later).elim
  refine ⟨first, fun ⟨q, here, before⟩ => ?_⟩
  cases found : (List.finRange k).findSome? f with
  | none =>
      have nothing := List.findSome?_eq_none_iff.mp found q (List.mem_finRange q)
      cases here.symm.trans nothing
  | some z =>
      obtain ⟨p, there, empty⟩ := first found
      rcases lt_trichotomy p q with early | rfl | late
      · cases there.symm.trans (before p early)
      · exact there.symm.trans here
      · cases here.symm.trans (empty q late)

end Cells

/-! ## Arguments -/

def Fits {β : Type} (k : Nat) (given : Option (Array β)) : Prop :=
  ∀ list, given = some list → list.size = k

theorem fits_toArray {β : Type} (given : Option (Vector β k)) :
    Fits k (given.map (·.toArray)) := by
  intro list same
  obtain ⟨v, -, rfl⟩ := Option.map_eq_some_iff.mp same
  exact v.size_toArray

namespace Fit

theorem checkArgument_toArray {β : Type} (what : String) (given : Option (Vector β k)) :
    checkArgument (α := α) what k (given.map (·.toArray)) = .ok given := by
  cases given with
  | none => rfl
  | some v => exact dif_pos v.size_toArray

theorem checkArgument_cases {β : Type} (what : String) (k : Nat) (given : Option (Array β)) :
    (∃ list, given = some list ∧ list.size ≠ k ∧
      checkArgument (α := α) what k given = .error (.dimensionMismatch what k list.size)) ∨
    ∃ v : Option (Vector β k), given = v.map (·.toArray) := by
  cases given with
  | none => exact .inr ⟨none, rfl⟩
  | some list =>
      by_cases fits : list.size = k
      · exact .inr ⟨some ⟨list, fits⟩, rfl⟩
      · exact .inl ⟨list, rfl, fits, dif_neg fits⟩

end Fit

def wanted {β : Type} (given : Option (Array β)) (missing : Option β) (i : Nat) : Option β :=
  match given with
  | some list => list[i]?
  | none => missing

theorem filled_wanted_id {β : Type} (given : Option (Vector β k)) (missing : β) (i : Fin k) :
    wanted (given.map (·.toArray)) (some missing) i = some (filled given id missing i) := by
  cases given with
  | none => exact congrArg some (Vector.get_replicate missing i).symm
  | some list => exact (read list i).trans (congrArg some (Vector.get_map id list i).symm)

theorem filled_wanted (given : Option (Vector α n)) (end? : Option α) (p : Fin n) :
    filled given some end? p = wanted (given.map (·.toArray)) end? p := by
  cases given with
  | none => exact Vector.get_replicate end? p
  | some limits => exact (Vector.get_map some limits p).trans (read limits p).symm

variable [Scalar α]

/-! ## What is wrong about limits -/

namespace Limits

/-- The first thing that is wrong about limits for `n` parameters. -/
inductive Offence (n : Nat) (lower upper : Option (Array α)) : SetupError α → Prop
  | lowerLength {given : Array α} (asked : lower = some given) (other : given.size ≠ n) :
      Offence n lower upper (.dimensionMismatch "a_min" n given.size)
  | upperLength {given : Array α} (fits : Fits n lower) (asked : upper = some given)
      (other : given.size ≠ n) : Offence n lower upper (.dimensionMismatch "a_max" n given.size)
  | inverted {p : Nat} {min max : α} (fitsLower : Fits n lower) (fitsUpper : Fits n upper)
      (inside : p < n) (below : wanted lower Scalar.least? p = some min)
      (above : wanted upper Scalar.greatest? p = some max) (inverted : ¬ min ≤ max)
      (before : ∀ q < p, ∀ min max, wanted lower Scalar.least? q = some min →
        wanted upper Scalar.greatest? q = some max → min ≤ max) :
      Offence n lower upper (.invalidLimits p min max)

theorem ofVectors_eq (lower upper : Option (Vector α n)) : ofVectors lower upper =
    { lower := filled lower some Scalar.least?, upper := filled upper some Scalar.greatest? } := by
  cases lower <;> cases upper <;> rfl

theorem ofVectors_wanted (lower upper : Option (Vector α n)) (p : Fin n) :
    (ofVectors lower upper).lower p = wanted (lower.map (·.toArray)) Scalar.least? p ∧
      (ofVectors lower upper).upper p = wanted (upper.map (·.toArray)) Scalar.greatest? p := by
  rw [ofVectors_eq]
  exact ⟨filled_wanted lower _ p, filled_wanted upper _ p⟩

section Inverted

variable {L : Limits α n}

theorem inverted?_eq_some {p : Fin n} {min max : α} : L.inverted? p = some (min, max) ↔
    L.lower p = some min ∧ L.upper p = some max ∧ ¬ min ≤ max := by
  rw [inverted?]
  cases L.lower p with
  | none => simp
  | some lower =>
      cases L.upper p with
      | none => simp
      | some upper =>
          by_cases ordered : lower ≤ upper
          · simp only [if_pos ordered, Option.some.injEq, reduceCtorEq, false_iff]
            rintro ⟨rfl, rfl, inverted⟩
            exact inverted ordered
          · simp only [if_neg ordered, Option.some.injEq, Prod.mk.injEq]
            constructor
            · rintro ⟨rfl, rfl⟩
              exact ⟨rfl, rfl, ordered⟩
            · rintro ⟨rfl, rfl, _⟩
              exact ⟨rfl, rfl⟩

theorem inverted?_eq_none {p : Fin n} : L.inverted? p = none ↔
    ∀ min max, L.lower p = some min → L.upper p = some max → min ≤ max := by
  rw [Option.eq_none_iff_forall_ne_some]
  constructor
  · intro none min max below above
    by_contra inverted
    exact none (min, max) (inverted?_eq_some.mpr ⟨below, above, inverted⟩)
  · rintro ordered ⟨min, max⟩ found
    obtain ⟨below, above, inverted⟩ := inverted?_eq_some.mp found
    exact inverted (ordered min max below above)

theorem firstInverted?_eq_some {p : Nat} {min max : α} :
    L.firstInverted? = some (p, min, max) ↔ ∃ q : Fin n, q.val = p ∧
      L.inverted? q = some (min, max) ∧ ∀ r < q, L.inverted? r = none := by
  rw [firstInverted?, findSome?_finRange]
  refine exists_congr fun q => ?_
  simp only [Option.map_eq_some_iff, Option.map_eq_none_iff, Prod.mk.injEq]
  constructor
  · rintro ⟨⟨limits, inverted, position, rfl⟩, before⟩
    exact ⟨position, inverted, before⟩
  · rintro ⟨position, inverted, before⟩
    exact ⟨⟨(min, max), inverted, position, rfl⟩, before⟩

end Inverted

theorem offence_iff (lower upper : Option (Vector α n)) (error : SetupError α) :
    Offence n (lower.map (·.toArray)) (upper.map (·.toArray)) error ↔
      ∃ p min max, (ofVectors lower upper).firstInverted? = some (p, min, max) ∧
        error = .invalidLimits p min max := by
  have set := ofVectors_wanted lower upper
  constructor
  · intro offence
    cases offence with
    | lowerLength given other => exact absurd (fits_toArray lower _ given) other
    | upperLength _ given other => exact absurd (fits_toArray upper _ given) other
    | @inverted p min max _ _ inside below above inverted before =>
        refine ⟨p, min, max, firstInverted?_eq_some.mpr ⟨⟨p, inside⟩, rfl, ?_, ?_⟩, rfl⟩
        · exact inverted?_eq_some.mpr
            ⟨(set _).1.trans below, (set _).2.trans above, inverted⟩
        · intro r early
          refine inverted?_eq_none.mpr fun min max below above => ?_
          exact before r early min max ((set r).1.symm.trans below)
            ((set r).2.symm.trans above)
  · rintro ⟨_, min, max, found, rfl⟩
    obtain ⟨q, rfl, here, before⟩ := firstInverted?_eq_some.mp found
    obtain ⟨below, above, inverted⟩ := inverted?_eq_some.mp here
    refine .inverted (fits_toArray lower) (fits_toArray upper) q.isLt ((set q).1.symm.trans below)
      ((set q).2.symm.trans above) inverted fun r early min max below above => ?_
    let position : Fin n := ⟨r, early.trans q.isLt⟩
    exact inverted?_eq_none.mp (before position early) min max ((set position).1.trans below)
      ((set position).2.trans above)

end Limits

namespace Fit

variable {fit next : Fit α σ n m} {lower upper : Option (Array α)}

theorem setLimits_toArray (fit : Fit α σ n m) (lower upper : Option (Vector α n)) :
    fit.setLimits (lower.map (·.toArray)) (upper.map (·.toArray)) =
      match (Limits.ofVectors lower upper).firstInverted? with
      | some (p, min, max) => .error (.invalidLimits p min max)
      | none => .ok { fit with limits := Limits.ofVectors lower upper } := by
  rw [setLimits, checkArgument_toArray, checkArgument_toArray]
  rfl

theorem setLimits_error_iff {error : SetupError α} :
    fit.setLimits lower upper = .error error ↔ Limits.Offence n lower upper error := by
  rcases checkArgument_cases (α := α) "a_min" n lower with ⟨list, rfl, other, refused⟩ | ⟨v, rfl⟩
  · rw [setLimits, refused]
    constructor
    · rintro ⟨⟩
      exact .lowerLength rfl other
    · intro offence
      cases offence with
      | lowerLength asked => cases asked; rfl
      | upperLength fits => exact absurd (fits list rfl) other
      | inverted fits => exact absurd (fits list rfl) other
  · rcases checkArgument_cases (α := α) "a_max" n upper with ⟨list, rfl, other, refused⟩ | ⟨w, rfl⟩
    · rw [setLimits, checkArgument_toArray, refused]
      constructor
      · rintro ⟨⟩
        exact .upperLength (fits_toArray v) rfl other
      · intro offence
        cases offence with
        | lowerLength asked different => exact absurd (fits_toArray v _ asked) different
        | upperLength _ asked => cases asked; rfl
        | inverted _ fits => exact absurd (fits list rfl) other
    · rw [setLimits_toArray, Limits.offence_iff]
      cases (Limits.ofVectors v w).firstInverted? with
      | none => simp
      | some found => simp [Prod.ext_iff, eq_comm]

/-- New limits are the given ones, and a missing list leaves its side unbounded. -/
structure Relimited (fit : Fit α σ n m) (lower upper : Option (Array α)) (next : Fit α σ n m) :
    Prop where
  rest : next = { fit with limits := next.limits }
  lower (p : Fin n) : next.limits.lower p = wanted lower Scalar.least? p
  upper (p : Fin n) : next.limits.upper p = wanted upper Scalar.greatest? p

theorem setLimits_ok (set : fit.setLimits lower upper = .ok next) :
    fit.Relimited lower upper next := by
  rcases checkArgument_cases (α := α) "a_min" n lower with ⟨_, rfl, _, refused⟩ | ⟨v, rfl⟩
  · rw [setLimits, refused] at set
    cases set
  · rcases checkArgument_cases (α := α) "a_max" n upper with ⟨_, rfl, _, refused⟩ | ⟨w, rfl⟩
    · rw [setLimits, checkArgument_toArray, refused] at set
      cases set
    · rw [setLimits_toArray] at set
      split at set
      · cases set
      · cases set
        exact ⟨rfl, fun p => (Limits.ofVectors_wanted v w p).1,
          fun p => (Limits.ofVectors_wanted v w p).2⟩

/-- What new tags make of a fit. The caches of a prepared fit follow them, to where preparing would
have taken the same values. -/
structure Retagged (fit : Fit α σ n m) (tags : Option (Array Inequality)) (next : Fit α σ n m) :
    Prop where
  tags : ∀ i : Fin m, wanted tags (some .equal) i = some (next.targets.tags i)
  targets : next.targets = { fit.targets with tags := next.targets.tags }
  unprepared : fit.prepared = false → next = { fit with targets := next.targets }
  prepared : fit.prepared = true → next =
    { fit with targets := next.targets, active := next.active, chiSquare := next.chiSquare }
  refreshed : fit.prepared = true → ∀ {τ δ : Type} (M : Model α τ δ n m) (other : Fit α τ n m),
    other.prepared = false → other.targets = next.targets → (other.prepare M).result = .ok () →
      (other.prepare M).fit.values = next.values →
        next.active = (other.prepare M).fit.active ∧
          next.chiSquare = (other.prepare M).fit.chiSquare

theorem prepare_refreshes {M : Model α σ ε n m} (unprepared : fit.prepared = false)
    (ready : (fit.prepare M).result = .ok ()) : (fit.prepare M).fit.targets = fit.targets ∧
      (fit.prepare M).fit = (fit.prepare M).fit.refresh := by
  obtain ⟨answer, -, ⟨error, -, failed, -⟩ | ⟨-, -, same⟩⟩ := prepare_outcome M unprepared
  · rw [failed] at ready
    cases ready
  · rw [same]
    exact ⟨rfl, rfl⟩

theorem setInequalities_toArray (fit : Fit α σ n m) (tags : Option (Vector Inequality m)) :
    fit.setInequalities (tags.map (·.toArray)) =
      let targets := { fit.targets with tags := filled tags id .equal }
      .ok (if fit.prepared then ({ fit with targets } : Fit α σ n m).refresh
        else { fit with targets }) := by
  have same : filled tags id Inequality.equal = tags.getD (Vector.replicate m .equal) := by
    cases tags with
    | none => rfl
    | some tags => exact Vector.map_id tags
  rw [setInequalities, checkArgument_toArray, same]
  rfl

theorem setInequalities_error_iff {tags : Option (Array Inequality)} {error : SetupError α} :
    fit.setInequalities tags = .error error ↔
      ∃ given, tags = some given ∧ given.size ≠ m ∧
        error = .dimensionMismatch "inequalities" m given.size := by
  rcases checkArgument_cases (α := α) "inequalities" m tags with
    ⟨list, rfl, other, refused⟩ | ⟨v, rfl⟩
  · rw [setInequalities, refused]
    constructor
    · rintro ⟨⟩
      exact ⟨list, rfl, other, rfl⟩
    · rintro ⟨given, ⟨⟩, -, rfl⟩
      rfl
  · rw [setInequalities_toArray]
    constructor
    · rintro ⟨⟩
    · rintro ⟨given, same, other, -⟩
      exact absurd (fits_toArray v given same) other

theorem setInequalities_ok {tags : Option (Array Inequality)}
    (set : fit.setInequalities tags = .ok next) : fit.Retagged tags next := by
  rcases checkArgument_cases (α := α) "inequalities" m tags with ⟨_, rfl, _, refused⟩ | ⟨v, rfl⟩
  · rw [setInequalities, refused] at set
    cases set
  · rw [setInequalities_toArray] at set
    cases set
    have tags (i : Fin m) := filled_wanted_id v Inequality.equal i
    by_cases prepared : fit.prepared = true
    · rw [if_pos prepared]
      refine ⟨tags, rfl, fun unprepared => absurd prepared (ne_true_of_eq_false unprepared),
        fun _ => rfl, fun _ _ _ M other unprepared same ready values => ?_⟩
      obtain ⟨targets, refreshed⟩ := prepare_refreshes unprepared ready
      rw [same] at targets
      rw [refreshed, refresh, refresh, targets, values]
      exact ⟨rfl, rfl⟩
    · rw [if_neg prepared]
      exact ⟨tags, rfl, fun _ => rfl, fun ready => absurd ready prepared,
        fun ready => absurd ready prepared⟩

end Fit

/-! ## The programs -/

def Setting.of (fit : Fit α σ n m) : Except (SetupError α) (Fit α σ n m) → Setting α σ n m
  | .ok next => { fit := next, result := .ok () }
  | .error error => { fit, result := .error error }

/-- A setter ends as `set` does. It refuses its arguments as `offence` says, and then the whole fit
is as it was, or it leaves a fit that is as `done` says. -/
structure Setting.Atomic (fit : Fit α σ n m) (set : Except (SetupError α) (Fit α σ n m))
    (offence : SetupError α → Prop) (done : Fit α σ n m → Prop) (call : Setting α σ n m) :
    Prop where
  ends : call = .of fit set
  refuses (error : SetupError α) : call.result = .error error ↔ offence error
  keeps (error : SetupError α) : call.result = .error error → call.fit = fit
  sets : call.result = .ok () → done call.fit

omit [Scalar α] in
theorem Setting.of_atomic {fit : Fit α σ n m} {set : Except (SetupError α) (Fit α σ n m)}
    {offence : SetupError α → Prop} {done : Fit α σ n m → Prop}
    (refuses : ∀ error, set = .error error ↔ offence error)
    (sets : ∀ next, set = .ok next → done next) : (of fit set).Atomic fit set offence done := by
  cases set with
  | error other =>
      refine ⟨rfl, fun error => ?_, fun _ _ => rfl, nofun⟩
      rw [← refuses error]
      simp [of]
  | ok next =>
      refine ⟨rfl, fun error => ?_, nofun, fun _ => sets next rfl⟩
      rw [← refuses error]
      simp [of]

theorem findInverted_ok (lower upper : Option (Vector α n)) :
    findInverted n (lower.map (·.toArray)) (upper.map (·.toArray)) =
      some ((Limits.ofVectors lower upper).firstInverted?.map fun found =>
        .invalidLimits found.1 found.2.1 found.2.2) := by
  let L := Limits.ofVectors lower upper
  let error (p : Fin n) : Option (SetupError α) :=
    (L.inverted? p).map fun limits => .invalidLimits p limits.1 limits.2
  have loop : findInverted n (lower.map (·.toArray)) (upper.map (·.toArray)) =
      some (Fin.foldl n (fun found p => if found.isSome then found else error p) none) := by
    refine ascend_foldl id (fun p found => ?_) none
    have sides : L.lower p = filled lower some Scalar.least? p ∧
        L.upper p = filled upper some Scalar.greatest? p := by
      rw [show L = _ from Limits.ofVectors_eq lower upper]
      exact ⟨rfl, rfl⟩
    simp only [entry_filled, ← sides.1, ← sides.2, bind, Option.bind, id, error, Limits.inverted?]
    cases found with
    | some earlier => rfl
    | none =>
        cases L.lower p with
        | none => rfl
        | some min =>
            cases L.upper p with
            | none => rfl
            | some max =>
                by_cases ordered : min ≤ max
                · simp [ordered]
                · simp [ordered]
  rw [loop, foldl_finRange, foldl_found, Option.none_or, Limits.firstInverted?, List.map_findSome?]
  refine congrArg (fun f => some ((List.finRange n).findSome? f)) (funext fun p => ?_)
  simp only [Function.comp_apply, Option.map_map, error]
  rfl

namespace Fit

variable (fit : Fit α σ n m)

theorem setLimitsInPlace_eq (lower upper : Option (Array α)) :
    fit.setLimitsInPlace lower upper = some (.of fit (fit.setLimits lower upper)) := by
  rcases checkArgument_cases (α := α) "a_min" n lower with ⟨list, rfl, other, refused⟩ | ⟨v, rfl⟩
  · rw [setLimitsInPlace, setLimits, refused]
    rfl
  · rcases checkArgument_cases (α := α) "a_max" n upper with ⟨list, rfl, other, refused⟩ | ⟨w, rfl⟩
    · rw [setLimitsInPlace, setLimits, checkArgument_toArray, refused]
      rfl
    · have below := overwrite_eq fit.limits.lower (entry_filled v some Scalar.least?)
      have above := overwrite_eq fit.limits.upper (entry_filled w some Scalar.greatest?)
      rw [setLimits_toArray, setLimitsInPlace, checkArgument_toArray, checkArgument_toArray]
      simp only [discard, Functor.discard, bind, Except.bind, Option.bind, findInverted_ok, below,
        above]
      cases (Limits.ofVectors v w).firstInverted? with
      | some found => rfl
      | none => simp only [Limits.ofVectors_eq]; rfl

theorem refreshInPlace_eq : fit.refreshInPlace = some fit.refresh := by
  let active := fit.targets.active fit.values
  let square (i : Fin m) : α :=
    let residual := fit.targets.residual fit.values i
    residual * residual
  have pass (i : Fin m) (s : Vector Bool m × α) : fit.refreshPoint i s =
      some (s.1.set i (active i) i.isLt, if active i then s.2 + square i else s.2) := by
    have decided : (fit.targets.tags i).isActive (fit.values i) (fit.targets.target i) = active i :=
      (Vector.get_ofFn (fun i =>
        (fit.targets.tags i).isActive (fit.values i) (fit.targets.target i)) i).symm
    simp only [refreshPoint, getElem?_get, put_ok, bind, Option.bind, decided, Vector.get_set,
      if_pos]
    cases active i with
    | true => rfl
    | false => rfl
  have apart := foldl_prod (fun (cells : Vector Bool m) i => cells.set i (active i) i.isLt)
    (fun (sum : α) i => if active i then sum + square i else sum) fit.active 0
  rw [foldl_set] at apart
  have loop : ascend 0 m (fit.active, 0) fit.refreshPoint =
      some (active, fit.targets.chiSquare active fit.values) :=
    (ascend_foldl id pass (fit.active, 0)).trans (congrArg some apart)
  rw [refreshInPlace, loop]
  rfl

theorem setInequalitiesInPlace_eq (tags : Option (Array Inequality)) :
    fit.setInequalitiesInPlace tags = some (.of fit (fit.setInequalities tags)) := by
  rcases checkArgument_cases (α := α) "inequalities" m tags with ⟨list, rfl, _, refused⟩ | ⟨v, rfl⟩
  · rw [setInequalitiesInPlace, setInequalities, refused]
    rfl
  · have written := overwrite_eq fit.targets.tags (entry_filled v id Inequality.equal)
    rw [setInequalitiesInPlace, setInequalities_toArray, checkArgument_toArray]
    simp only [bind, Option.bind, written]
    cases prepared : fit.prepared with
    | true =>
        simp only [if_true, refreshInPlace_eq]
        rfl
    | false => rfl

end Fit

/-! ## Every moment of a session -/

namespace Fit

variable {M : Model α σ ε n m} {fit : Fit α σ n m}

theorem Reachable.upright [Products α] [Scalar.Ordered α] (reachable : Reachable M fit) :
    fit.limits.Upright := by
  induction reachable with
  | start started =>
      rw [(start_fresh started).2]
      exact Limits.unbounded_upright
  | setCriteria criteria _ upright => exact upright
  | setLimits _ set _ => exact setLimits_upright set
  | setInequalities _ set upright => rwa [setInequalities_limits set]
  | prepare _ upright => rwa [prepare_limits]
  | iterate _ ends upright => rwa [iterate_limits ends]
  | correlation budget _ upright => rwa [(correlation_stays M budget _).limits]

/-- Doubles have infinities, so that no limit is missing. -/
theorem Reachable.ordered [Products Float] {M : Model Float σ ε n m} {fit : Fit Float σ n m}
    (reachable : Reachable M fit) (p : Fin n) :
    ∃ min max, fit.limits.lower p = some min ∧ fit.limits.upper p = some max ∧ min ≤ max ∧
      Scalar.isNaN min = false ∧ Scalar.isNaN max = false := by
  have upright := reachable.upright
  obtain ⟨min, below⟩ := Option.ne_none_iff_exists'.mp fun missing =>
    Option.some_ne_none _ (upright.lowerless p missing)
  obtain ⟨max, above⟩ := Option.ne_none_iff_exists'.mp fun missing =>
    Option.some_ne_none _ (upright.upperless p missing)
  exact ⟨min, max, below, above, upright.ordered p min below max above,
    Limits.limit_number upright (.inl below), Limits.limit_number upright (.inr above)⟩

/-- Whatever arguments a setter is called with, on whatever fit, no position is out of range. It
refuses them just for the first thing that is wrong about them, and then leaves the whole fit as it
was. Otherwise the limits are the given ones, a missing list leaving its side unbounded; and new
tags make of a prepared fit what preparing would have made of its values. So the limits of a fit are
in order, and numbers, after any calls. -/
theorem setters_atomic [Products Float] (M : Model Float σ ε n m) :
    (∀ (fit : Fit Float σ n m) (lower upper : Option (Array Float)), ∃ call,
      fit.setLimitsInPlace lower upper = some call ∧
      call.Atomic fit (fit.setLimits lower upper) (Limits.Offence n lower upper)
        (fit.Relimited lower upper)) ∧
    (∀ (fit : Fit Float σ n m) (tags : Option (Array Inequality)), ∃ call,
      fit.setInequalitiesInPlace tags = some call ∧
      call.Atomic fit (fit.setInequalities tags)
        (fun error => ∃ given, tags = some given ∧ given.size ≠ m ∧
          error = .dimensionMismatch "inequalities" m given.size) (fit.Retagged tags)) ∧
    ∀ fit, Reachable M fit → ∀ p, ∃ min max, fit.limits.lower p = some min ∧
      fit.limits.upper p = some max ∧ min ≤ max ∧
      Scalar.isNaN min = false ∧ Scalar.isNaN max = false := by
  refine ⟨fun fit lower upper => ?_, fun fit tags => ?_, fun fit reachable p => reachable.ordered p⟩
  · exact ⟨_, fit.setLimitsInPlace_eq lower upper,
      Setting.of_atomic (fun _ => setLimits_error_iff) fun _ => setLimits_ok⟩
  · exact ⟨_, fit.setInequalitiesInPlace_eq tags,
      Setting.of_atomic (fun _ => setInequalities_error_iff) fun _ => setInequalities_ok⟩

/-- Limits the wrong way round and too many tags are refused; a lower limit alone is set. -/
theorem setters_atomic_line :
    ∃ inverted limited tagged : Setting Float Unit 1 1,
      lineStart.setLimitsInPlace (some #[2]) (some #[1]) = some inverted ∧
      inverted.result = .error (.invalidLimits 0 2 1) ∧ inverted.fit = lineStart ∧
      lineStart.setInequalitiesInPlace (some #[.equal, .equal]) = some tagged ∧
      tagged.result = .error (.dimensionMismatch "inequalities" 1 2) ∧ tagged.fit = lineStart ∧
      lineStart.setLimitsInPlace (some #[2]) none = some limited ∧ limited.result = .ok () ∧
      Reachable line limited.fit ∧ limited.fit.limits.lower 0 = some 2 ∧
      ∃ max, limited.fit.limits.upper 0 = some max ∧ 2 ≤ max := by
  obtain ⟨limits, tags, ordered⟩ := setters_atomic line
  obtain ⟨inverted, ran, refused⟩ := limits lineStart (some #[2]) (some #[1])
  obtain ⟨tagged, retagged, mismatched⟩ := tags lineStart (some #[.equal, .equal])
  obtain ⟨limited, set, atomic⟩ := limits lineStart (some #[2]) none
  have offence : Limits.Offence 1 (some #[(2 : Float)]) (some #[1]) (.invalidLimits 0 2 1) :=
    .inverted (fun _ same => by cases same; rfl) (fun _ same => by cases same; rfl) one_pos rfl rfl
      (by decide) fun q before => absurd before (Nat.not_lt_zero q)
  have failed := (refused.refuses _).mpr offence
  have mismatch := (mismatched.refuses (.dimensionMismatch "inequalities" 1 2)).mpr
    ⟨#[.equal, .equal], rfl, by decide, rfl⟩
  have passes : (lineStart.setLimits (some #[(2 : Float)]) none).toOption.isSome = true := by
    decide +kernel
  obtain ⟨next, passed⟩ : ∃ next, lineStart.setLimits (some #[(2 : Float)]) none = .ok next := by
    cases set : lineStart.setLimits (some #[(2 : Float)]) none with
    | error error =>
        rw [set] at passes
        cases passes
    | ok next => exact ⟨next, rfl⟩
  have ends := atomic.ends
  rw [passed] at ends
  have reached : Reachable line limited.fit := by
    rw [ends]
    exact .setLimits (.start lineStart_started) passed
  obtain ⟨min, max, below, above, order, -, -⟩ := ordered limited.fit reached 0
  have result : limited.result = .ok () := by rw [ends]; rfl
  have lower := (atomic.sets result).lower 0
  obtain rfl : min = 2 := Option.some.inj (below.symm.trans lower)
  exact ⟨inverted, limited, tagged, ran, failed, refused.keeps _ failed, retagged, mismatch,
    mismatched.keeps _ mismatch, set, result, reached, lower, max, above, order⟩

end Fit

end LeastSquares
