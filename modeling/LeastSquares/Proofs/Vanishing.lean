import LeastSquares.Proofs.Stationary

/-!
# Residuals that vanish

A trial divides by the norm of the residuals it starts from. Should all of them have become zero, of
whichever sign, then so has their norm; every cosine counts as zero, which is within any tolerance
that a solve accepts. The next linearization therefore ends the solve, and no trial is ever made
where it would divide by zero.
-/
namespace LeastSquares

/-! ### The norm of zeros -/

/-- All entries are zeros, of either sign. -/
def Vanishes {n : Nat} (v : Vector Float n) : Prop :=
  ∀ i, (v.get i == 0) = true

theorem Double.abs_eq_zero {x : Float} (zero : (x == 0) = true) : abs x = 0 := by
  have unpacked : (x.toModel.unpack.compare (.zero .positive) == some .eq) = true := zero
  change Float.ofModel (Float.Model.pack x.toModel.unpack.abs) = 0
  cases kind : x.toModel.unpack with
  | zero s => rfl
  | notANumber =>
    rw [kind] at unpacked
    cases unpacked
  | infinity s =>
    rw [kind] at unpacked
    cases s <;> cases unpacked
  | finite s mantissa exponent positive =>
    rw [kind] at unpacked
    cases s <;> cases unpacked

/-- A component of magnitude zero adds nothing to empty sums. -/
theorem SquareSums.add_zero (high : Float) : zero.add smallBound high 0 = zero := by
  have small : ¬ (0 : Float) > smallBound := by decide +kernel
  have least : ¬ (0 : Float) > (zero : SquareSums Float).smallMax := by decide +kernel
  have none : ¬ ((0 : Float) != 0) = true := by decide +kernel
  unfold add
  rw [if_neg fun medium => small medium.1, if_neg small, if_neg least]
  exact if_neg none

theorem guardedNorm_eq_zero {v : List Float} (zero : ∀ x ∈ v, (x == 0) = true) :
    guardedNorm v = 0 := by
  have sums (high : Float) : v.foldl (fun s x => s.add smallBound high (abs x)) SquareSums.zero =
      .zero := by
    induction v with
    | nil => rfl
    | cons x v ih =>
      rw [List.forall_mem_cons] at zero
      rw [List.foldl_cons, Double.abs_eq_zero zero.1, SquareSums.add_zero, ih zero.2]
  unfold guardedNorm
  split
  · rfl
  · rw [squareSums, sums]
    decide +kernel

theorem Vanishes.norm_eq_zero {n : Nat} {v : Vector Float n} (h : Vanishes v) :
    norm v.toList = 0 := by
  refine guardedNorm_eq_zero fun x member => ?_
  obtain ⟨i, inside, rfl⟩ := List.getElem_of_mem member
  rw [Vector.length_toList] at inside
  exact h ⟨i, inside⟩

/-! ### Where a norm is zero -/

variable {α : Type} [Scalar α]

namespace Stage

variable {p : Problem α} {tall : p.parameterCount ≤ p.residualCount} {c : Config α}

/-- No trial is about to be made from residuals of norm zero. -/
def Nonvanishing : Stage p → Prop
  | attempt s => (s.fnorm == 0) = false
  | linearize _ | stopped .. => True

theorem next_nonvanishing (gtol : 0 ≤ c.gtol) {stage : Stage p} (h : stage.Nonvanishing) :
    (stage.next tall c).Nonvanishing := by
  cases stage with
  | linearize s =>
    rw [next]
    rcases s.linearize_cases tall c with ⟨e, -, next⟩ | ⟨success, t, same, next | next⟩
    · rw [next]
      exact True.intro
    · rw [next]
      exact True.intro
    · rw [next]
      -- From residuals of norm zero the linearization would have stopped.
      refine Bool.eq_false_iff.mpr fun zero => ?_
      rw [same.fnorm] at zero
      obtain ⟨u, stops⟩ := @State.linearize_of_vanished _ _ _ tall c s gtol success zero
      cases next.symm.trans stops
  | attempt s =>
    rw [next]
    cases outcome : (s.proposed tall).evaluateTrial.2 with
    | some e =>
      rw [State.attempt_of_failure outcome]
      exact True.intro
    | none =>
      rw [State.attempt_of_success outcome]
      split
      · exact True.intro
      · split
        · exact True.intro
        next poor =>
          -- A refused trial leaves the residuals it was made from.
          exact (congrArg (· == 0) (State.tried_fnorm_of_refused poor)).trans h
  | stopped info s => exact h

theorem run_nonvanishing (gtol : 0 ≤ c.gtol) (steps : Nat) {stage : Stage p}
    (h : stage.Nonvanishing) : (stage.run tall c steps).Nonvanishing :=
  run_invariant (fun _ now => next_nonvanishing gtol now) steps h

end Stage

/-- The solve ends with the linearization at `s`: one of its evaluations fails or, if none does, the
iterate is found stationary and handed back as it is. -/
structure Run.EndsAt {p : Problem α} (run : Run p) (c : Config α) (s : State p) : Prop where
  aborted : ∀ e, (s.differentiate c).failure = some e →
    run.outcome.info = .userAbort e.abortStatus
  converged : (s.differentiate c).failure = none →
    run.outcome = ⟨.gtolReached, s.nfev + p.parameterCount, s.iterations, s.fnorm⟩ ∧
      run.x = s.x.toArray ∧ run.residuals = s.residuals.toArray

section

variable {p : Problem α} {c : Config α} {x residuals diag : Array α} {w : Workspace α}
  (h : Accepted p c x residuals diag w)
include h

theorem Accepted.first_nonvanishing : h.first.Nonvanishing := by
  cases begins : h.first with
  | attempt s => exact absurd begins (h.first_ne_attempt s)
  | linearize s => exact True.intro
  | stopped info s => exact True.intro

/-- A solve ends where it linearizes residuals of norm zero. -/
theorem Accepted.endsAt {k : Nat} {s : State p} (here : h.first.run h.tall c k = .linearize s)
    (zero : (s.fnorm == 0) = true) : (solve p c x residuals diag w).EndsAt c s := by
  have recorded : (Stage.linearize s).Recorded :=
    here ▸ Stage.run_recorded k (State.start_recorded ..)
  have next := Stage.run_succ_of_linearize here
  constructor
  · intro e failure
    rw [State.linearize_of_failure failure] at next
    rw [h.solve_eq_ended next]
    rfl
  · intro success
    obtain ⟨t, stopped, point, buffer, fnorm, nfev, iterations⟩ :=
      @State.linearize_of_stationary _ _ _ h.tall c s recorded success (by
        rw [gradientNorm_of_zero zero]
        exact h.gtol_nonneg)
    rw [h.solve_eq_ended (next.trans stopped)]
    refine ⟨?_, congrArg Vector.toArray point, congrArg Vector.toArray buffer⟩
    change Outcome.mk _ t.nfev t.iterations t.fnorm = _
    rw [nfev, iterations, fnorm]

/-- A step that is accepted is the last, by a verdict of the tests that follow it, or else it is
linearized next. -/
theorem Accepted.accepted_cases {k : Nat} {s : State p}
    (here : h.first.run h.tall c k = .attempt s)
    (success : (s.proposed h.tall).evaluateTrial.2 = none)
    (good : (s.trialReduction h.tall).acceptable) :
    (∃ info, info.isVerdict ∧ (solve p c x residuals diag w).outcome =
        ⟨info, s.nfev + 1, s.iterations + 1, (s.tried h.tall).fnorm⟩ ∧
      (solve p c x residuals diag w).x = (s.tried h.tall).x.toArray) ∨
    h.first.run h.tall c (k + 1) = .linearize (s.tried h.tall) := by
  have next := Stage.run_succ_of_attempt here
  rw [State.attempt_of_success success] at next
  split at next
  next info ends =>
    refine .inl ⟨info, State.isVerdict_of_verdict ends, ?_⟩
    have counted := State.tried_iterations h.tall s
    rw [if_pos good] at counted
    rw [h.solve_eq_ended next]
    refine ⟨?_, rfl⟩
    change Outcome.mk _ (s.tried h.tall).nfev (s.tried h.tall).iterations
      (s.tried h.tall).fnorm = _
    rw [State.tried_nfev, counted]
  next =>
    rw [if_pos good] at next
    exact .inr next

/-- A solve all of whose evaluations have succeeded was not aborted. -/
theorem Accepted.isAbort_of_succeeded (all : Succeeded (solve p c x residuals diag w).calls) :
    (solve p c x residuals diag w).outcome.info.isAbort = false := by
  obtain ⟨info, s, ended, recorded⟩ := solve_recorded h
  rw [ended] at all ⊢
  rw [Stage.Recorded] at recorded
  split at recorded
  next aborted =>
    obtain ⟨e, -, earlier, call, calls, -, failure, -⟩ := recorded.failed
    have recorded : call ∈ s.calls := by
      rw [calls]
      exact Array.mem_push_self
    cases failure.symm.trans (all call recorded)
  next completed => exact Bool.eq_false_iff.mpr completed

/-- A solve that starts from residuals of norm zero stays there, unless an evaluation fails. -/
theorem Accepted.stays
    (zero : (norm (p.eval 1 h.given.x h.given.residuals).buffer.toList == 0) = true)
    (all : Succeeded (solve p c x residuals diag w).calls) :
    (solve p c x residuals diag w).outcome = ⟨.gtolReached, x.size + 1, 0,
        norm (p.eval 1 h.given.x h.given.residuals).buffer.toList⟩ ∧
      (solve p c x residuals diag w).x = x := by
  have completed := h.isAbort_of_succeeded all
  cases start : (p.call #[] .start h.given.x h.given.residuals).response.failure with
  | some e =>
    rw [h.solve_eq_ended (k := 0) (h.first_of_failure start)] at completed
    cases completed
  | none =>
    have ends := h.endsAt (k := 0) (h.first_of_success start) zero
    cases failure : (State.differentiate c (.opened c h.given.diag h.given.buffers
        (p.call #[] .start h.given.x h.given.residuals))).failure with
    | some e =>
      rw [ends.aborted e failure] at completed
      cases completed
    | none =>
      obtain ⟨outcome, point, -⟩ := ends.converged failure
      refine ⟨outcome.trans ?_, point⟩
      rw [h.size_x, Nat.add_comm]
      rfl

end

/-! ### Solves in double precision -/

/-- No solve in double precision ever tries a step from residuals of norm zero, so that no trial
divides by zero. Should the residuals at an iterate all be zeros, of either sign, then their norm
is zero, and the solve ends with the tests of the trial that led there or with the linearization
there: by an evaluation that fails or by finding the iterate stationary. If already the first
residuals are zeros and no evaluation fails, the solve converges where it starts, having evaluated
the residuals there and once for each column of the Jacobian. -/
theorem solve_vanishing {p : Problem Float} {c : Config Float} {x residuals diag : Array Float}
    {w : Workspace Float} (h : Accepted p c x residuals diag w) :
    let run := solve p c x residuals diag w
    (∀ k s, h.first.run h.tall c k = .attempt s →
      (s.fnorm == 0) = false ∧ ((s.proposed h.tall).evaluateTrial.1.fnorm == 0) = false) ∧
    (∀ k s, h.first.run h.tall c k = .linearize s → Vanishes s.residuals →
      s.fnorm = 0 ∧ run.EndsAt c s) ∧
    (∀ k s, h.first.run h.tall c k = .attempt s → (s.proposed h.tall).evaluateTrial.2 = none →
      (s.trialReduction h.tall).acceptable → Vanishes (s.tried h.tall).residuals →
      (s.tried h.tall).fnorm = 0 ∧
        ((∃ info, info.isVerdict ∧ run.outcome = ⟨info, s.nfev + 1, s.iterations + 1, 0⟩ ∧
            run.x = (s.tried h.tall).x.toArray) ∨
          run.EndsAt c (s.tried h.tall))) ∧
    (Vanishes (p.eval 1 h.given.x h.given.residuals).buffer → Succeeded run.calls →
      run.outcome = ⟨.gtolReached, x.size + 1, 0, 0⟩ ∧ run.x = x) := by
  intro run
  have recorded (k : Nat) : (h.first.run h.tall c k).Recorded :=
    Stage.run_recorded k (State.start_recorded ..)
  refine ⟨?trials, ?linearizations, ?accepted, ?start⟩
  case trials =>
    intro k s here
    have nonzero : (h.first.run h.tall c k).Nonvanishing :=
      Stage.run_nonvanishing h.gtol_nonneg k h.first_nonvanishing
    rw [here] at nonzero
    exact ⟨nonzero, (congrArg (· == 0) (State.proposed_same h.tall s).fnorm).trans nonzero⟩
  case linearizations =>
    intro k s here zeros
    have agrees := recorded k
    rw [here] at agrees
    have zero : s.fnorm = 0 := agrees.fnorm.trans zeros.norm_eq_zero
    exact ⟨zero, h.endsAt here (by rw [zero]; rfl)⟩
  case accepted =>
    intro k s here success good zeros
    have agrees := recorded k
    rw [here] at agrees
    have zero : (s.tried h.tall).fnorm = 0 :=
      (State.tried_recorded agrees success).fnorm.trans zeros.norm_eq_zero
    refine ⟨zero, ?_⟩
    rcases h.accepted_cases here success good with verdict | next
    · rw [zero] at verdict
      exact .inl verdict
    · exact .inr (h.endsAt next (by rw [zero]; rfl))
  case start =>
    intro zeros all
    have norm_zero := zeros.norm_eq_zero
    obtain ⟨outcome, point⟩ := h.stays (by rw [norm_zero]; rfl) all
    rw [norm_zero] at outcome
    exact ⟨outcome, point⟩

/-- The state that a trial is about to be made from. -/
def Stage.trial? {p : Problem α} : Stage p → Option (State p)
  | attempt s => some s
  | linearize _ | stopped .. => none

omit [Scalar α] in
theorem Stage.eq_attempt_of_trial? {p : Problem α} {stage : Stage p} {s : State p}
    (trial : stage.trial? = some s) : stage = .attempt s := by
  cases stage with
  | attempt t => exact congrArg _ (Option.some.inj trial)
  | linearize t => cases trial
  | stopped info t => cases trial

/-- The one residual `x - 1`. -/
def displaced : Problem Float :=
  Formula.system #[[.parameter 0, .constant 1, .binary .sub]] 1

theorem displaced_accepted : Accepted displaced .default #[2] #[0] #[1] (.new 1 1) :=
  ⟨rfl, rfl, rfl, rfl, rfl, Config.valid_of_isOk (by decide +kernel)⟩

/-- From `2` the first step leads to a residual that is zero, and the solve converges there. -/
theorem solve_vanishing_displaced :
    let h := displaced_accepted
    let run := solve displaced .default #[2] #[0] #[1] (.new 1 1)
    run.outcome.info = .gtolReached ∧ ∃ s, h.first.run h.tall .default 1 = .attempt s ∧
      (s.fnorm == 0) = false ∧ Vanishes (s.tried h.tall).residuals ∧
        (s.tried h.tall).fnorm = 0 ∧
        ((∃ info, info.isVerdict ∧ run.outcome = ⟨info, s.nfev + 1, s.iterations + 1, 0⟩) ∨
          run.EndsAt .default (s.tried h.tall)) := by
  intro h run
  have facts : ((h.first.run h.tall .default 1).trial?.any fun s =>
      (s.proposed h.tall).evaluateTrial.2.isNone && (s.trialReduction h.tall).acceptable &&
        decide (∀ i, ((s.tried h.tall).residuals.get i == 0) = true)) = true := by
    decide +kernel
  have info : run.outcome.info = .gtolReached := by decide +kernel
  obtain ⟨s, here, facts⟩ := (Option.any_eq_true ..).mp facts
  have here := Stage.eq_attempt_of_trial? here
  simp only [Bool.and_eq_true, decide_eq_true_iff] at facts
  obtain ⟨⟨success, good⟩, zeros⟩ := facts
  obtain ⟨trials, -, accepted, -⟩ := solve_vanishing h
  obtain ⟨zero, ends⟩ := accepted 1 s here (Option.isNone_iff_eq_none.mp success) good zeros
  refine ⟨info, s, here, (trials 1 s here).1, zeros, zero, ends.imp_left ?_⟩
  rintro ⟨verdict, isVerdict, outcome, -⟩
  exact ⟨verdict, isVerdict, outcome⟩

end LeastSquares
