import LeastSquares.Proofs.Fit.Outcome
import LeastSquares.Proofs.Fit.TrialLoop

/-!
# The trial steps of an iteration

An iteration of a prepared fit is over before its first trial step, or it makes trial steps with one
fit and one linear problem. Then it returns if one of them is not rejected, and what it comes to is
what that trial comes to. All of this holds over any scalars.

At the end stands the smallest of fits, over doubles, to see iterations on that do not go well.
-/

set_option autoImplicit false

namespace LeastSquares.Fit

variable {α σ ε : Type} {n m : Nat} [Scalar α] {M : Model α σ ε n m} {L : Linearization α n m}
  {fit first : Fit α σ n m}

/-! ## Loops of trials -/

theorem trials_last {fuel : Nat} {call : Call α σ ε n m Status}
    (ends : trials M L fuel fit = some call) :
    ∃ k later last events, retried M L k fit = some later ∧ later.trial M L = .settled last ∧
      call = last.after events := by
  induction fuel generalizing fit call with
  | zero => cases ends
  | succ fuel ih =>
      rcases trials_ended ends with ended | ⟨next, events, rest, rejected, found, rfl⟩
      · exact ⟨0, fit, call, [], rfl, ended, rfl⟩
      · obtain ⟨k, later, last, others, reached, settled, rfl⟩ := ih found
        refine ⟨k + 1, later, last, events ++ others, ?_, settled, ?_⟩
        · rw [retried_succ, retry_of_rejected rejected, Option.bind_some, reached]
        · simp only [Call.after, List.append_assoc]

theorem retried_keeps (I : Fit α σ n m → Prop)
    (step : ∀ fit next, I fit → retry M L fit = some next → I next) (holds : I fit) {k : Nat}
    {later : Fit α σ n m} (reached : retried M L k fit = some later) : I later := by
  induction k generalizing later with
  | zero =>
      cases reached
      exact holds
  | succ k ih =>
      obtain ⟨before, known, again⟩ := Option.bind_eq_some_iff.mp reached
      exact step before later (ih known) again

/-! ## Iterations that make trials -/

section Trying

variable [Products α]

/-- The fit and the linear problem that an iteration makes its trial steps with. -/
def Tries (M : Model α σ ε n m) (fit first : Fit α σ n m) (L : Linearization α n m) : Prop :=
  ∃ events, linearize M { fit with iteration := fit.iteration + 1 } = .ready first events L

theorem Tries.unique {other : Fit α σ n m} {K : Linearization α n m}
    (tries : fit.Tries M first L) (again : fit.Tries M other K) : other = first ∧ K = L := by
  obtain ⟨events, ready⟩ := tries
  obtain ⟨_, same⟩ := again
  rw [ready] at same
  cases same
  exact ⟨rfl, rfl⟩

theorem Tries.linearized (tries : fit.Tries M first L) : ∃ asked J,
    evaluateJacobian M { fit with iteration := fit.iteration + 1 } = (asked, .ok J) ∧
    L = ((asked.counted J).measured J).linearization J ∧
    first = ((asked.counted J).measured J).linearized L := by
  obtain ⟨events, ready⟩ := tries
  rcases linearize_cases M { fit with iteration := fit.iteration + 1 } with
    ⟨_, _, _, ended⟩ | ⟨_, _, _, _, ended⟩ | ⟨_, _, _, _, _, ended⟩ |
    ⟨asked, J, answer, _, _, _, goes⟩
  · rw [ended] at ready
    cases ready
  · rw [ended] at ready
    cases ready
  · rw [ended] at ready
    cases ready
  · rw [goes] at ready
    cases ready
    exact ⟨asked, J, answer, rfl, rfl⟩

theorem Tries.trust (tries : fit.Tries M first L) :
    first.trust = fit.trust.rescale L.factor.norms fit.parameters := by
  obtain ⟨asked, J, answer, -, rfl⟩ := tries.linearized
  rw [evaluateJacobian_eq answer]
  rfl

/-- Whether trial steps are to be made, with a fit and a linear problem that pass a check. -/
def readyWith (check : Fit α σ n m → Linearization α n m → Bool) : Prospect α σ ε n m → Bool
  | .settled _ => false
  | .ready first _ L => check first L

theorem tries_of_readyWith {check : Fit α σ n m → Linearization α n m → Bool}
    (known : readyWith check (linearize M { fit with iteration := fit.iteration + 1 }) = true) :
    ∃ first L, fit.Tries M first L ∧ check first L = true := by
  cases prospect : linearize M { fit with iteration := fit.iteration + 1 } with
  | settled call =>
      rw [prospect] at known
      cases known
  | ready first events L =>
      rw [prospect] at known
      exact ⟨first, L, ⟨events, prospect⟩, known⟩

theorem iterate_tries (M : Model α σ ε n m) (prepared : fit.prepared = true) :
    (∃ call, (∀ first L, ¬ fit.Tries M first L) ∧
      linearize M { fit with iteration := fit.iteration + 1 } = .settled call ∧
      ∀ fuel, fit.iterate M fuel = some call) ∨
    ∃ first L events, fit.Tries M first L ∧
      ∀ fuel, fit.iterate M fuel = (trials M L fuel first).map (·.after events) := by
  cases prospect : linearize M { fit with iteration := fit.iteration + 1 } with
  | settled call =>
      refine .inl ⟨call, fun first L tries => ?_, rfl, fun fuel => ?_⟩
      · obtain ⟨events, ready⟩ := tries
        rw [prospect] at ready
        cases ready
      · rw [iterate, if_pos prepared, prospect]
  | ready first events L =>
      refine .inr ⟨first, L, events, ⟨events, prospect⟩, fun fuel => ?_⟩
      rw [iterate, if_pos prepared, prospect]

/-- An iteration returns just if its rejected trials come to an end. -/
theorem iterate_returns_iff (M : Model α σ ε n m) (prepared : fit.prepared = true) :
    (∃ fuel call, fit.iterate M fuel = some call) ↔
      ∀ first L, fit.Tries M first L → ∃ k, retried M L k first = none := by
  rcases iterate_tries M prepared with ⟨call, never, _, settles⟩ | ⟨first, L, events, tries, loops⟩
  · constructor
    · intro _ first L tries
      exact absurd tries (never first L)
    · intro _
      exact ⟨0, call, settles 0⟩
  · constructor
    · rintro ⟨fuel, call, found⟩ other K again
      obtain ⟨rfl, rfl⟩ := tries.unique again
      rw [loops] at found
      obtain ⟨rest, ended, _⟩ := Option.map_eq_some_iff.mp found
      exact ⟨fuel, retried_of_trials ended le_rfl⟩
    · intro finite
      obtain ⟨fuel, finished⟩ := finite first L tries
      obtain ⟨rest, ended⟩ := trials_of_retried finished
      exact ⟨fuel, rest.after events, by rw [loops, ended, Option.map_some]⟩

theorem Tries.last (tries : fit.Tries M first L) {fuel : Nat} {call : Call α σ ε n m Status}
    (prepared : fit.prepared = true) (ends : fit.iterate M fuel = some call) :
    ∃ k later last events, retried M L k first = some later ∧ later.trial M L = .settled last ∧
      call = last.after events := by
  rcases iterate_tries M prepared with ⟨_, never, _, _⟩ | ⟨other, K, events, again, loops⟩
  · exact absurd tries (never first L)
  · obtain ⟨rfl, rfl⟩ := tries.unique again
    rw [loops] at ends
    obtain ⟨rest, found, rfl⟩ := Option.map_eq_some_iff.mp ends
    obtain ⟨k, later, last, others, reached, settled, rfl⟩ := trials_last found
    refine ⟨k, later, last, events ++ others, reached, settled, ?_⟩
    simp only [Call.after, List.append_assoc]

end Trying

/-! ## The step of a trial -/

theorem propose_cases {proposal : Proposal α n} (step : fit.propose L = .ok proposal) :
    ∃ alpha, proposal.trust = fit.trustAt L.fresh alpha proposal.stepNorm ∧
      proposal.stepNorm = TrustRegion.scaledNorm fit.trust.scale proposal.move.step := by
  rw [propose] at step
  split at step
  · cases step
  · cases step
    exact ⟨_, rfl, rfl⟩

/-- Only the Gauss-Newton step of a trial can fail. -/
theorem propose_of_gaussNewton {x : Vector α n}
    (step : (fit.problem L).gaussNewton L.fullRank = .ok x) :
    ∃ proposal, fit.propose L = .ok proposal := by
  have solved : ∃ found, (fit.problem L).solve L.fullRank fit.trust.alpha = .ok found := by
    simp only [Damping.Problem.solve, step]
    split
    · exact ⟨_, rfl⟩
    · exact ⟨_, rfl⟩
  obtain ⟨found, solved⟩ := solved
  simp only [propose, solved]
  exact ⟨_, rfl⟩

theorem propose_of_fullRank (fit : Fit α σ n m) (fullRank : L.fullRank = true) :
    ∃ proposal, fit.propose L = .ok proposal := by
  have gaussNewton : ∃ x, (fit.problem L).gaussNewton L.fullRank = .ok x := by
    rw [Damping.Problem.gaussNewton, fullRank]
    split
    · exact ⟨_, rfl⟩
    · exact ⟨_, if_pos rfl⟩
  obtain ⟨x, step⟩ := gaussNewton
  exact propose_of_gaussNewton step

/-! ## One point -/

def ones (n : Nat) : Vector Float n := .replicate n 1

/-- The fit to one point, with target zero and deviation one, as it is set up. -/
def onePoint (n : Nat) : Fit Float Unit n 1 :=
  { model := ()
    parameters := ones n
    limits := .unbounded
    targets := { target := #v[0], sigma := #v[1], tags := Vector.replicate 1 .equal }
    criteria := .off
    values := Vector.replicate 1 0
    spare := Vector.replicate 1 0
    active := Vector.replicate 1 true
    chiSquare := 0
    gradientNorm := 0
    freeCount := n
    rank := 0
    trust := .initial
    prepared := false
    iteration := 0
    valueCalls := 0
    jacobianCalls := 0 }

theorem onePoint_starts (positive : n ≠ 0) (parameters : Vector Float n) :
    Fit.start () parameters #v[(0 : Float)] #[(1 : Float)] =
      .ok { onePoint n with parameters } := by
  rw [Fit.start, if_neg (by simp [positive]), dif_pos (show #[(1 : Float)].size = 1 from rfl)]
  split
  · rename_i index zero
    have found : _ = true := congrArg Option.isSome zero
    exact absurd found (by decide +kernel)
  · rfl

theorem onePoint_started (positive : n ≠ 0) :
    Fit.start () (ones n) #v[(0 : Float)] #[(1 : Float)] = .ok (onePoint n) :=
  onePoint_starts positive (ones n)

end LeastSquares.Fit
