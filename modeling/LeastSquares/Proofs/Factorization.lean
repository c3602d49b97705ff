import LeastSquares.Proofs.Budget
import LeastSquares.Proofs.Outcome

/-!
# The factorization through the trials

A damped solve works in the matrix that holds `R`. It writes its own triangle below the diagonal,
and uses the diagonal itself until it is put back. However many searches have been made since the
last Jacobian was factored, the upper triangle is therefore the one that the factorization left, and
the permutation and the projected residuals have not been touched at all.
-/
namespace LeastSquares

variable {α : Type} {m n : Nat}

namespace Columns

/-- Two matrices that agree above the diagonal and in the rows past the square block. -/
def SameAbove (a b : Columns α m n) : Prop :=
  ∀ (i : Fin m) (j : Fin n), i.val < j ∨ n ≤ i → b.entry i j = a.entry i j

/-- Two matrices that differ below the diagonal of the leading square block at most. -/
structure SameUpper (tall : n ≤ m) (a b : Columns α m n) : Prop where
  above : a.SameAbove b
  diagonal : ∀ j, b.lead tall j j = a.lead tall j j

theorem SameAbove.refl (a : Columns α m n) : a.SameAbove a :=
  fun _ _ _ => rfl

theorem SameAbove.trans {a b c : Columns α m n} (h : a.SameAbove b) (h' : b.SameAbove c) :
    a.SameAbove c :=
  fun i j above => (h' i j above).trans (h i j above)

namespace SameUpper

variable {tall : n ≤ m} {a b c : Columns α m n}

theorem refl (tall : n ≤ m) (a : Columns α m n) : a.SameUpper tall a :=
  ⟨.refl a, fun _ => rfl⟩

theorem trans (h : a.SameUpper tall b) (h' : b.SameUpper tall c) : a.SameUpper tall c :=
  ⟨h.above.trans h'.above, fun j => (h'.diagonal j).trans (h.diagonal j)⟩

theorem lead_eq (h : a.SameUpper tall b) {i j : Fin n} (upper : i ≤ j) :
    b.lead tall i j = a.lead tall i j := by
  rcases Fin.lt_or_eq_of_le upper with above | rfl
  · exact h.above _ _ (.inl above)
  · exact h.diagonal i

end SameUpper

end Columns

open Columns

namespace Triangular

theorem entry_withLowerCopy (tall : n ≤ m) (r : Columns α m n) (i : Fin m) (j : Fin n) :
    (withLowerCopy tall r).entry i j =
      if inside : i < n then
        if j ≤ ⟨i, inside⟩ then r.lead tall j ⟨i, inside⟩ else r.lead tall ⟨i, inside⟩ j
      else r.entry i j := by
  simp only [withLowerCopy, entry, get_overwrite, get_overwriteHead]

theorem withLowerCopy_sameUpper (tall : n ≤ m) (r : Columns α m n) :
    r.SameUpper tall (withLowerCopy tall r) := by
  constructor
  · intro i j above
    rw [entry_withLowerCopy]
    split
    next inside =>
      rw [if_neg (by simp only [Fin.le_def]; omega)]
      rfl
    next => rfl
  · intro j
    rw [lead, entry_withLowerCopy]
    simp [lead]

/-- Nothing of what is below the diagonal survives the copy. -/
theorem withLowerCopy_congr {tall : n ≤ m} {r r' : Columns α m n} (same : r.SameUpper tall r') :
    withLowerCopy tall r' = withLowerCopy tall r := by
  apply eq_of_entry_eq
  intro i j
  rw [entry_withLowerCopy, entry_withLowerCopy]
  split
  next inside =>
    split
    next lower => exact same.lead_eq lower
    next upper => exact same.lead_eq (Fin.le_of_lt (Fin.not_le.mp upper))
  next past => exact same.above i j (.inr (Nat.not_lt.mp past))

end Triangular

variable [Scalar α]

/-! ### Damped solves -/

/-- A rotation turns entries on and below the diagonal only. -/
theorem Absorption.rotate_sameAbove (tall : n ≤ m) (k : Fin n) (s : Absorption α m n) :
    s.triangle.SameAbove (s.rotate tall k).triangle := by
  intro i j above
  unfold rotate
  split
  · rfl
  · simp only [entry, get_overwriteAt]
    split
    next same =>
      subst same
      rw [get_overwriteHead]
      split
      next inside =>
        rw [if_neg (by simp only [Fin.le_def]; omega)]
        rfl
      next => rfl
    next => rfl

namespace Triangular

theorem absorbDamping_sameAbove (tall : n ≤ m) (s : Triangular α m n) (diag : Vector α n)
    (j : Fin n) (state : Columns α m n × Vector α n) :
    state.1.SameAbove (s.absorbDamping tall diag j state).1 :=
  foldl_invariant (fun _ (done : Absorption α m n) => state.1.SameAbove done.triangle) (.refl _)
    fun k done now => now.trans (done.rotate_sameAbove tall k)

/-- A damped solve leaves `R` as it found it. -/
theorem damped_sameUpper (tall : n ≤ m) (s : Triangular α m n)
    (diag x sdiag permuted : Vector α n) :
    s.r.SameUpper tall (s.damped tall diag x sdiag permuted).r := by
  have rotated : s.r.SameAbove (Fin.foldl n (fun state j => s.absorbDamping tall diag j state)
      (withLowerCopy tall s.r, overwrite permuted s.qtb.get)).1 :=
    foldl_invariant (fun _ (state : Columns α m n × Vector α n) => s.r.SameAbove state.1)
      (withLowerCopy_sameUpper tall s.r).above
      fun j state now => now.trans (s.absorbDamping_sameAbove tall diag j state)
  constructor
  · intro i j above
    refine Eq.trans ?_ (rotated i j above)
    simp only [damped, entry_withDiagonal]
    rw [if_neg]
    have := tall
    omega
  · -- The diagonal has been put back.
    intro j
    simp only [damped, lead_withDiagonal, if_true, get_overwrite]

/-- A damped solve depends on `R` and the right-hand sides only, not on what else its matrix and its
buffers hold. -/
theorem damped_congr {tall : n ≤ m} (s : Triangular α m n) {r : Columns α m n}
    (same : s.r.SameUpper tall r) (diag x sdiag permuted x' sdiag' permuted' : Vector α n) :
    damped tall { s with r } diag x' sdiag' permuted' = s.damped tall diag x sdiag permuted := by
  have diagonal : (fun j : Fin n => r.lead tall j j) = fun j => s.r.lead tall j j :=
    funext same.diagonal
  unfold damped
  simp only [overwrite_eq_ofFn, withLowerCopy_congr same, diagonal]
  rfl

end Triangular

/-! ### Searches -/

namespace Refinement

/-- The damping that is tried. -/
def damping (state : Refinement α m n) : α :=
  if state.par == 0 then larger Numeric.tiny (0.001 * state.upper) else state.par

/-- The damped solve that a trial makes. -/
def solved (tall : n ≤ m) (s : Triangular α m n) (diag : Vector α n)
    (state : Refinement α m n) : DampedSolution α m n :=
  Triangular.damped tall { s with r := state.r }
    (overwrite state.buffers.direction fun j => sqrt state.damping * diag.get j)
    state.buffers.x state.buffers.sdiag state.buffers.scaled

variable (tall : n ≤ m) (s : Triangular α m n) (diag : Vector α n) (delta : α)

theorem attempt_r (state : Refinement α m n) :
    (state.attempt tall s diag delta).1.r = (state.solved tall s diag).r := rfl

theorem attempt_sameUpper (state : Refinement α m n) :
    state.r.SameUpper tall (state.attempt tall s diag delta).1.r := by
  rw [attempt_r]
  exact Triangular.damped_sameUpper tall { s with r := state.r } _ _ _ _

theorem run_sameUpper (more : Nat) (state : Refinement α m n) :
    state.r.SameUpper tall (run tall s diag delta more state).r := by
  induction more generalizing state with
  | zero => exact attempt_sameUpper tall s diag delta state
  | succ more ih =>
    have tried := attempt_sameUpper tall s diag delta state
    rw [run]
    split
    next t good =>
      rw [good] at tried
      exact tried
    next t poor =>
      -- A correction of the damping changes no matrix.
      rw [poor] at tried
      exact tried.trans (ih (t.correct tall s diag delta))

end Refinement

theorem Triangular.search_sameUpper (tall : n ≤ m) (s : Triangular α m n) (diag : Vector α n)
    (delta par : α) (buffers : SearchBuffers α n) :
    s.r.SameUpper tall (s.search tall diag delta par buffers).r := by
  unfold search
  dsimp only
  split
  · exact .refl tall s.r
  · exact Refinement.run_sameUpper tall s diag delta _ (s.bracket tall diag delta par _ _)

/-! ### Factorizations -/

/-- The triangle `R`, with its diagonal in place. -/
def Factor.triangle (f : Factor α m n) : Columns α (min n m) (min n m) :=
  .ofEntries fun i j =>
    if i < j then f.packed.entry (i.castLE (Nat.min_le_right n m)) (j.castLE (Nat.min_le_left n m))
    else if i = j then f.rdiag.get (j.castLE (Nat.min_le_left n m)) else 0

/-- The matrix that the factorization leaves, with `R` in its upper triangle. -/
def Factor.square (tall : n ≤ m) (f : Factor α m n) : Columns α m n :=
  f.packed.withDiagonal tall f.rdiag

/-- The first entries of `w` turned by the reflectors. -/
def Factor.projected (tall : n ≤ m) (f : Factor α m n) (w : Vector α m) : Vector α n :=
  .ofFn fun i => (project f.packed w).get (i.castLE tall)

theorem Factor.get_projected (tall : n ≤ m) (f : Factor α m n) (w : Vector α m) (i : Fin n) :
    (f.projected tall w).get i = (project f.packed w).get (i.castLE tall) := by
  simp [projected, get_eq]

namespace State

variable {p : Problem α}

/-- The factorization of the Jacobian at the iterate. -/
def factored (c : Config α) (s : State p) : Factor α p.residualCount p.parameterCount :=
  (s.unfactored (s.differentiate c)).compute true

/-- The state holds the triangle and the pivots of `f`, and the first entries of `w` turned by the
reflectors of `f`. -/
structure Holds (tall : p.parameterCount ≤ p.residualCount)
    (f : Factor α p.residualCount p.parameterCount) (w : Vector α p.residualCount)
    (s : State p) : Prop where
  triangle : (f.square tall).SameUpper tall s.buffers.jacobian
  pivots : s.buffers.pivots = f.pivots
  qtf : s.buffers.qtf = f.projected tall w

/-- Two states that hold the same factorization, whatever damped solves were made in between. -/
structure SameFactorization (tall : p.parameterCount ≤ p.residualCount) (s t : State p) : Prop where
  triangle : s.buffers.jacobian.SameUpper tall t.buffers.jacobian
  pivots : t.buffers.pivots = s.buffers.pivots
  qtf : t.buffers.qtf = s.buffers.qtf

variable {tall : p.parameterCount ≤ p.residualCount} {c : Config α} {s t : State p}
  {f : Factor α p.residualCount p.parameterCount} {w : Vector α p.residualCount}

theorem Holds.of_same (h : s.Holds tall f w) (same : s.SameFactorization tall t) :
    t.Holds tall f w where
  triangle := h.triangle.trans same.triangle
  pivots := same.pivots.trans h.pivots
  qtf := same.qtf.trans h.qtf

/-- What a solve hands back as its triangle is that of the factorization. -/
theorem Holds.factor_eq (h : s.Holds tall f w) : s.buffers.factor = f.triangle := by
  apply eq_of_entry_eq
  intro i j
  have inside := Nat.min_le_left p.parameterCount p.residualCount
  simp only [Buffers.factor, upperTriangle, Factor.triangle, entry_ofEntries]
  by_cases upper : i ≤ j
  · have held := h.triangle.lead_eq (i := i.castLE inside) (j := j.castLE inside) upper
    rw [if_pos upper]
    refine held.trans ?_
    rw [Factor.square, lead_withDiagonal]
    rcases Fin.lt_or_eq_of_le upper with above | rfl
    · rw [if_neg (by simpa [Fin.ext_iff] using Nat.ne_of_lt above), if_pos above]
      rfl
    · simp
  · rw [if_neg upper, if_neg (by omega), if_neg (by omega)]

/-- A linearization leaves the factorization that it has made. -/
theorem factorize_holds (tall : p.parameterCount ≤ p.residualCount) (c : Config α) (s : State p) :
    (s.factorize tall (s.differentiate c)).1.Holds tall (s.factored c) s.residuals where
  triangle := .refl tall _
  pivots := rfl
  qtf := by
    apply eq_of_get_eq
    intro i
    rw [Factor.get_projected]
    simp only [factorize, get_overwrite, overwrite_get]
    rfl

theorem settle_buffers (c : Config α) (norms : Vector α p.parameterCount) (s : State p) :
    ∃ scaled, (s.settle c norms).buffers = { s.buffers with scaled } := by
  unfold settle
  split
  · exact ⟨_, rfl⟩
  · exact ⟨_, rfl⟩

theorem tested_same_factorization (tall : p.parameterCount ≤ p.residualCount) (c : Config α)
    (norms : Vector α p.parameterCount) (s : State p) :
    s.SameFactorization tall (s.tested tall c norms) := by
  obtain ⟨scaled, buffers⟩ := s.settle_buffers c norms
  simp only [tested]
  constructor
  · rw [buffers]
    exact .refl tall _
  · rw [buffers]
  · rw [buffers]

theorem linearize_holds (success : (s.differentiate c).failure = none) :
    (s.linearize tall c).state.Holds tall (s.factored c) s.residuals := by
  have tested := (factorize_holds tall c s).of_same (tested_same_factorization tall c
    (s.factorize tall (s.differentiate c)).2 (s.factorize tall (s.differentiate c)).1)
  rw [linearize_of_success success]
  by_cases orthogonal : ((s.factorize tall (s.differentiate c)).1.tested tall c
      (s.factorize tall (s.differentiate c)).2).gnorm ≤ c.gtol
  · rw [testGradient_of_le orthogonal]
    exact ⟨tested.triangle, tested.pivots, tested.qtf⟩
  · rw [testGradient_of_not_le orthogonal]
    exact ⟨tested.triangle, tested.pivots, tested.qtf⟩

/-! ### Trials -/

omit [Scalar α] in
theorem SameFactorization.trans {u : State p} (h : s.SameFactorization tall t)
    (h' : t.SameFactorization tall u) : s.SameFactorization tall u where
  triangle := h.triangle.trans h'.triangle
  pivots := h'.pivots.trans h.pivots
  qtf := h'.qtf.trans h.qtf

omit [Scalar α] in
theorem SameFactorization.of_buffers (jacobian : t.buffers.jacobian = s.buffers.jacobian)
    (pivots : t.buffers.pivots = s.buffers.pivots) (qtf : t.buffers.qtf = s.buffers.qtf) :
    s.SameFactorization tall t :=
  ⟨jacobian ▸ .refl tall _, pivots, qtf⟩

theorem searchStep_same_factorization (tall : p.parameterCount ≤ p.residualCount) (s : State p) :
    s.SameFactorization tall (s.searchStep tall) where
  triangle := Triangular.search_sameUpper tall ⟨s.buffers.jacobian, s.buffers.pivots, s.buffers.qtf⟩
    s.diag s.region.delta s.region.par _
  pivots := rfl
  qtf := rfl

theorem proposed_same_factorization (tall : p.parameterCount ≤ p.residualCount) (s : State p) :
    s.SameFactorization tall (s.proposed tall) := by
  apply (searchStep_same_factorization tall s).trans
  unfold proposed capRegion
  split
  · exact .of_buffers rfl rfl rfl
  · exact .of_buffers rfl rfl rfl

theorem tried_same_factorization (tall : p.parameterCount ≤ p.residualCount) (s : State p) :
    s.SameFactorization tall (s.tried tall) := by
  apply (proposed_same_factorization tall s).trans
  unfold tried judged
  split
  · exact .of_buffers rfl rfl rfl
  · exact .of_buffers rfl rfl rfl

/-- A trial leaves the factorization as it is, whether it succeeds or not. -/
theorem attempt_same_factorization (tall : p.parameterCount ≤ p.residualCount) (c : Config α)
    (s : State p) : s.SameFactorization tall (s.attempt tall c).state := by
  cases failure : (s.proposed tall).evaluateTrial.2 with
  | some e =>
    rw [attempt_of_failure failure]
    exact (proposed_same_factorization tall s).trans (.of_buffers rfl rfl rfl)
  | none =>
    have tried := tried_same_factorization tall s
    rw [attempt_of_success failure]
    split
    · exact tried.trans (.of_buffers rfl rfl rfl)
    · split
      · exact tried
      · exact tried

/-- Only the gradient at an iterate shows that it is stationary, and no trial does. -/
theorem verdict_ne_gtolReached (c : Config α) (r : Reduction α) (s : State p) :
    s.verdict c r ≠ some .gtolReached := by
  intro ends
  rcases Option.or_eq_some_iff.mp ends with converged | ⟨-, exhausted⟩
  · grind [convergence]
  · grind [exhaustion]

theorem attempt_ne_gtolReached (tall : p.parameterCount ≤ p.residualCount) (c : Config α)
    (s t : State p) : s.attempt tall c ≠ .stopped .gtolReached t := by
  cases failure : (s.proposed tall).evaluateTrial.2 with
  | some e =>
    rw [attempt_of_failure failure]
    intro same
    cases same
  | none =>
    rw [attempt_of_success failure]
    split
    next info ends =>
      rintro ⟨⟩
      exact verdict_ne_gtolReached c _ _ ends
    next =>
      split
      · rintro ⟨⟩
      · rintro ⟨⟩

end State

/-! ### The last linearization -/

namespace Stage

variable {p : Problem α} {tall : p.parameterCount ≤ p.residualCount} {c : Config α}
  {first : Stage p} {k j : Nat} {s : State p}

theorem run_succ_last (stage : Stage p) (steps : Nat) :
    stage.run tall c (steps + 1) = (stage.run tall c steps).next tall c := by
  induction steps generalizing stage with
  | zero => exact run_succ stage 0
  | succ steps ih => rw [run_succ, ih, ← run_succ]

theorem run_succ_of_linearize (here : first.run tall c k = .linearize s) :
    first.run tall c (k + 1) = s.linearize tall c := by
  rw [run_succ_last, here, next]

theorem run_succ_of_attempt (here : first.run tall c k = .attempt s) :
    first.run tall c (k + 1) = s.attempt tall c := by
  rw [run_succ_last, here, next]

/-- Of the first `k` steps of a solve, step `j` is the last that linearizes; it does so at `s`. -/
structure LastLinearized (tall : p.parameterCount ≤ p.residualCount) (c : Config α)
    (first : Stage p) (k j : Nat) (s : State p) : Prop where
  before : j < k
  here : first.run tall c j = .linearize s
  since : ∀ i, j < i → i ≤ k → ∀ t, first.run tall c i ≠ .linearize t

theorem LastLinearized.of_here (here : first.run tall c k = .linearize s)
    (next : ∀ t, first.run tall c (k + 1) ≠ .linearize t) :
    LastLinearized tall c first (k + 1) k s where
  before := Nat.lt_succ_self k
  here := here
  since i after inside := by
    obtain rfl : i = k + 1 := by omega
    exact next

theorem LastLinearized.succ (h : LastLinearized tall c first k j s)
    (next : ∀ t, first.run tall c (k + 1) ≠ .linearize t) :
    LastLinearized tall c first (k + 1) j s where
  before := Nat.lt_succ_of_lt h.before
  here := h.here
  since i after inside := by
    rcases Nat.lt_or_eq_of_le inside with inside | rfl
    · exact h.since i after (Nat.le_of_lt_succ inside)
    · exact next

/-- After `k` steps a solve holds the factorization of its last linearization, unless it is about to
make the next one or has been aborted. If the iterate was found stationary, that was its last
step. -/
def FactoredAt (tall : p.parameterCount ≤ p.residualCount) (c : Config α) (first : Stage p)
    (k : Nat) : Stage p → Prop
  | linearize _ => True
  | attempt t => ∃ j s, LastLinearized tall c first k j s ∧
      (s.differentiate c).failure = none ∧ t.Holds tall (s.factored c) s.residuals
  | stopped info t => info.isAbort = false → ∃ j s, LastLinearized tall c first k j s ∧
      (s.differentiate c).failure = none ∧ t.Holds tall (s.factored c) s.residuals ∧
      (info = .gtolReached → s.linearize tall c = .stopped info t)

theorem linearize_factoredAt (here : first.run tall c k = .linearize s)
    (next : first.run tall c (k + 1) = s.linearize tall c) :
    FactoredAt tall c first (k + 1) (s.linearize tall c) := by
  cases failure : (s.differentiate c).failure with
  | some e =>
    rw [State.linearize_of_failure failure]
    intro completed
    cases completed
  | none =>
    have holds := @State.linearize_holds _ _ _ tall c s failure
    rcases s.linearize_cases tall c with ⟨e, failed, -⟩ | ⟨-, t, -, result | result⟩
    · rw [failure] at failed
      cases failed
    · rw [result] at next holds ⊢
      intro completed
      refine ⟨k, s, .of_here here ?_, failure, holds, fun _ => result⟩
      rw [next]
      exact nofun
    · rw [result] at next holds ⊢
      refine ⟨k, s, .of_here here ?_, failure, holds⟩
      rw [next]
      exact nofun

theorem attempt_factoredAt {t : State p}
    (now : FactoredAt tall c first k (.attempt t))
    (next : first.run tall c (k + 1) = t.attempt tall c) :
    FactoredAt tall c first (k + 1) (t.attempt tall c) := by
  obtain ⟨j, s, last, success, holds⟩ := now
  have same := State.attempt_same_factorization tall c t
  have unconverged := State.attempt_ne_gtolReached tall c t
  cases result : t.attempt tall c with
  | linearize u => exact True.intro
  | attempt u =>
    rw [result] at next same
    refine ⟨j, s, last.succ ?_, success, holds.of_same same⟩
    rw [next]
    exact nofun
  | stopped info u =>
    rw [result] at next same
    intro completed
    refine ⟨j, s, last.succ ?_, success, holds.of_same same, ?_⟩
    · rw [next]
      exact nofun
    · rintro rfl
      exact absurd result (unconverged u)

theorem run_factoredAt (start : ∀ t, first ≠ .attempt t)
    (unfinished : ∀ info t, first = .stopped info t → info.isAbort) (k : Nat) :
    FactoredAt tall c first k (first.run tall c k) := by
  induction k with
  | zero =>
    change FactoredAt tall c first 0 first
    cases first with
    | linearize s => exact True.intro
    | attempt t => exact absurd rfl (start t)
    | stopped info t =>
      intro completed
      rw [unfinished info t rfl] at completed
      cases completed
  | succ k ih =>
    have next := @run_succ_last _ _ p tall c first k
    cases now : first.run tall c k with
    | linearize s =>
      rw [now] at next
      rw [next]
      exact linearize_factoredAt now next
    | attempt t =>
      rw [now] at next ih
      rw [next]
      exact attempt_factoredAt ih next
    | stopped info t =>
      rw [now] at next ih
      rw [next]
      intro completed
      obtain ⟨j, s, last, rest⟩ := ih completed
      refine ⟨j, s, last.succ ?_, rest⟩
      rw [next]
      exact nofun

/-- Step `j` of a solve linearizes at `s`, and no later step linearizes again. -/
structure LinearizesLast (tall : p.parameterCount ≤ p.residualCount) (c : Config α)
    (first : Stage p) (j : Nat) (s : State p) : Prop where
  here : first.run tall c j = .linearize s
  since : ∀ i, j < i → ∀ t, first.run tall c i ≠ .linearize t

theorem LastLinearized.of_stopped {info : Termination} {t : State p}
    (h : LastLinearized tall c first k j s) (stopped : first.run tall c k = .stopped info t) :
    LinearizesLast tall c first j s where
  here := h.here
  since i after := by
    rcases Nat.le_total i k with inside | past
    · exact h.since i after inside
    · rw [run_of_le stopped past]
      exact nofun

end Stage

/-- The stage at which an accepted solve begins. -/
def Accepted.first {p : Problem α} {c : Config α} {x residuals diag : Array α} {w : Workspace α}
    (h : Accepted p c x residuals diag w) : Stage p :=
  State.start c h.given.x h.given.residuals h.given.diag h.given.buffers

theorem Accepted.first_of_success {p : Problem α} {c : Config α} {x residuals diag : Array α}
    {w : Workspace α} (h : Accepted p c x residuals diag w)
    (success : (p.call #[] .start h.given.x h.given.residuals).response.failure = none) :
    h.first = .linearize (.opened c h.given.diag h.given.buffers
      (p.call #[] .start h.given.x h.given.residuals)) := by
  unfold first State.start
  dsimp only
  rw [success]

theorem Accepted.first_of_failure {p : Problem α} {c : Config α} {x residuals diag : Array α}
    {w : Workspace α} (h : Accepted p c x residuals diag w) {e : Error α}
    (failure : (p.call #[] .start h.given.x h.given.residuals).response.failure = some e) :
    h.first = (State.opened c h.given.diag h.given.buffers
      (p.call #[] .start h.given.x h.given.residuals)).abort e := by
  unfold first State.start
  dsimp only
  rw [failure]

theorem Accepted.first_ne_attempt {p : Problem α} {c : Config α} {x residuals diag : Array α}
    {w : Workspace α} (h : Accepted p c x residuals diag w) (t : State p) :
    h.first ≠ .attempt t := by
  unfold first State.start
  dsimp only
  split
  · exact nofun
  · exact nofun

theorem Accepted.isAbort_of_first {p : Problem α} {c : Config α} {x residuals diag : Array α}
    {w : Workspace α} (h : Accepted p c x residuals diag w) (info : Termination) (t : State p)
    (stopped : h.first = .stopped info t) : info.isAbort := by
  unfold first State.start at stopped
  dsimp only at stopped
  split at stopped
  · cases stopped
    rfl
  · cases stopped

/-- Wherever a solve stops, that is how it ends. -/
theorem Accepted.solve_eq_ended {p : Problem α} {c : Config α} {x residuals diag : Array α}
    {w : Workspace α} (h : Accepted p c x residuals diag w) {k : Nat} {info : Termination}
    {t : State p} (stopped : h.first.run h.tall c k = .stopped info t) :
    solve p c x residuals diag w = .ended info t := by
  obtain ⟨info', t', last, ended⟩ := solve_stops h
  have late := Stage.run_of_le stopped (Nat.le_add_right k (stepBound (c.budget p.parameterCount)))
  have last := Stage.run_of_le last (Nat.le_add_left (stepBound (c.budget p.parameterCount)) k)
  cases late.symm.trans last
  exact ended

/-- A solve that is not aborted ends with the factorization of its last linearization. -/
theorem solve_holds {p : Problem α} {c : Config α} {x residuals diag : Array α} {w : Workspace α}
    (h : Accepted p c x residuals diag w)
    (completed : (solve p c x residuals diag w).outcome.info.isAbort = false) :
    ∃ j s info t, Stage.LinearizesLast h.tall c h.first j s ∧
      (s.differentiate c).failure = none ∧ t.Holds h.tall (s.factored c) s.residuals ∧
      (info = .gtolReached → s.linearize h.tall c = .stopped info t) ∧
      solve p c x residuals diag w = .ended info t := by
  obtain ⟨info, t, stopped, ended⟩ := solve_stops h
  rw [ended] at completed
  have factored := @Stage.run_factoredAt _ _ p h.tall c h.first h.first_ne_attempt
    h.isAbort_of_first (stepBound (c.budget p.parameterCount))
  rw [Accepted.first, stopped] at factored
  obtain ⟨j, s, last, success, holds, stationary⟩ := factored completed
  exact ⟨j, s, info, t, last.of_stopped stopped, success, holds, stationary, ended⟩

/-- A solve that is neither refused nor aborted hands back, bit for bit, the triangle and the
permutation that the last factorization made of the last complete Jacobian, and the first entries of
the residuals of that iterate, turned by its reflectors. No search for the damping and no damped
solve made since shows in them. -/
theorem solve_factorization {p : Problem α} {c : Config α} {x residuals diag : Array α}
    {w : Workspace α} (h : Accepted p c x residuals diag w)
    (completed : (solve p c x residuals diag w).outcome.info.isAbort = false) :
    ∃ (j : Nat) (s : State p) (b : Buffers α p.residualCount p.parameterCount),
      Stage.LinearizesLast h.tall c h.first j s ∧
      (s.differentiate c).failure = none ∧
      (solve p c x residuals diag w).workspace = ⟨p.residualCount, p.parameterCount, b⟩ ∧
      b.factor = (s.factored c).triangle ∧
      b.pivots = (s.factored c).pivots ∧
      ∀ i, b.qtf.get i = (project (s.factored c).packed s.residuals).get (i.castLE h.tall) := by
  obtain ⟨j, s, info, t, last, success, holds, -, ended⟩ := solve_holds h completed
  refine ⟨j, s, t.buffers, last, success, ?_, holds.factor_eq, holds.pivots, fun i => ?_⟩
  · rw [ended]
    rfl
  · rw [holds.qtf, Factor.get_projected]

/-- A curved valley: the residuals `y - x * x` and `1 - x`. -/
def valley : Problem Float :=
  Formula.system #[[.parameter 1, .parameter 0, .parameter 0, .binary .mul, .binary .sub],
    [.constant 1, .parameter 0, .binary .sub]] 2

/-- A configuration under which the first steps into the valley have to be damped. -/
def narrow : Config Float :=
  { limited 5 with factor := 2 }

/-- The solve of `valley` from `(-1, 1)` in new buffers. -/
def solveValley : Run valley :=
  solve valley narrow #[-1, 1] #[0, 0] #[1, 1] (.new 2 2)

/-- Two damped searches after one factorization, the first of which leads to a step that is
refused. -/
theorem solve_factorization_valley :
    solveValley.outcome.info.isAbort = false ∧ triedNumbers solveValley.events = [4, 5] ∧
      acceptedNumbers solveValley.events = [5] ∧
      ∃ (s : State valley) (b : Buffers Float 2 2), (s.differentiate narrow).failure = none ∧
        solveValley.workspace = ⟨2, 2, b⟩ ∧ b.factor = (s.factored narrow).triangle ∧
        b.pivots = (s.factored narrow).pivots := by
  have stops : solveValley.outcome.info = .maxfevReached ∧
      triedNumbers solveValley.events = [4, 5] ∧ acceptedNumbers solveValley.events = [5] := by
    decide +kernel
  obtain ⟨info, tried, accepted⟩ := stops
  have completed : solveValley.outcome.info.isAbort = false := congrArg Termination.isAbort info
  obtain ⟨_, s, b, -, success, workspace, factor, pivots, -⟩ := solve_factorization
    (accepted_of_info_ne fun refused => by cases info.symm.trans refused) completed
  exact ⟨completed, tried, accepted, s, b, success, workspace, factor, pivots⟩

end LeastSquares
