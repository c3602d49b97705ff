import Mathlib
import LeastSquares.Proofs.Exact.Descent
import LeastSquares.Proofs.Exact.Search

/-!
# The region of trust

Without errors of rounding the region never degenerates: its radius, the scale factors and the
residuals are positive whenever a step is about to be tried, and the step is not zero. A trial that
is refused at least halves the radius and at least doubles the damping, but leaves some radius.
-/
namespace LeastSquares

/-! ### Adapting the region -/

namespace Region

variable {r : Reduction ℝ} {current trial : ℝ}

/-- A poor step shrinks the region by a factor between a tenth and a half. -/
theorem shrinkage_bounds (slope : r.slope ≤ 0) :
    0.1 ≤ shrinkage r current trial ∧ shrinkage r current trial ≤ 0.5 := by
  have clamped (factor : ℝ) (most : factor ≤ 0.5) :
      0.1 ≤ (if current ≤ 0.1 * trial ∨ factor < 0.1 then 0.1 else factor) ∧
        (if current ≤ 0.1 * trial ∨ factor < 0.1 then 0.1 else factor) ≤ 0.5 := by
    split
    · exact ⟨le_rfl, by norm_num⟩
    next large => exact ⟨not_lt.mp fun small => large (.inr small), most⟩
  apply clamped
  split
  · exact le_rfl
  next growth =>
    -- Both summands of the denominator are negative.
    have growth := not_le.mp growth
    have negative : r.slope + 0.5 * r.actual < 0 := by linarith
    rw [div_le_iff_of_neg negative]
    nlinarith

variable {g : Region ℝ} {length : ℝ}

/-- A poor step at least halves the radius and at least doubles the damping. -/
theorem update_of_poor (slope : r.slope ≤ 0) (poor : r.ratio ≤ 0.25) (radius : 0 < g.delta)
    (damping : 0 ≤ g.par) (positive : 0 < length) :
    0 < (g.update r current trial length).delta ∧
      (g.update r current trial length).delta ≤ g.delta / 2 ∧
      2 * g.par ≤ (g.update r current trial length).par := by
  obtain ⟨least, most⟩ := @shrinkage_bounds r current trial slope
  rw [update, if_pos poor]
  set factor := shrinkage r current trial
  have some : 0 < factor := lt_of_lt_of_le (by norm_num) least
  have room : 0 < smaller g.delta (length / 0.1) := lt_min radius (by positivity)
  have inside : smaller g.delta (length / 0.1) ≤ g.delta := min_le_left _ _
  refine ⟨mul_pos some room, ?_, ?_⟩
  · calc factor * smaller g.delta (length / 0.1) ≤ 0.5 * g.delta :=
        mul_le_mul most inside (le_of_lt room) (by norm_num)
      _ = g.delta / 2 := by ring
  · rw [le_div_iff₀ some]
    nlinarith

theorem update_pos (slope : r.slope ≤ 0) (radius : 0 < g.delta) (damping : 0 ≤ g.par)
    (positive : 0 < length) :
    0 < (g.update r current trial length).delta ∧ 0 ≤ (g.update r current trial length).par := by
  by_cases poor : r.ratio ≤ 0.25
  · obtain ⟨some, -, doubled⟩ :=
      @update_of_poor r current trial g length slope poor radius damping positive
    exact ⟨some, by linarith⟩
  · rw [update, if_neg poor]
    split
    · exact ⟨div_pos positive (by norm_num), mul_nonneg damping (by norm_num)⟩
    · exact ⟨radius, damping⟩

theorem start_pos {factor xnorm : ℝ} (positive : 0 < factor) (nonneg : 0 ≤ xnorm) :
    0 < (start factor xnorm).delta := by
  unfold start
  dsimp only
  split
  · exact positive
  next nonzero =>
    have product := mul_nonneg (le_of_lt positive) nonneg
    exact lt_of_le_of_ne product fun zero => nonzero (beq_iff_eq.mpr zero.symm)

end Region

/-! ### States -/

namespace State

variable {p : Problem ℝ} {tall : p.parameterCount ≤ p.residualCount} {c : Config ℝ} {s : State p}

/-- The triangular system a state holds. -/
def system (s : State p) : Triangular ℝ p.residualCount p.parameterCount :=
  ⟨s.buffers.jacobian, s.buffers.pivots, s.buffers.qtf⟩

/-- What a linearization can rely on. The scale factors are the caller's until the first one. -/
structure Poised (c : Config ℝ) (s : State p) : Prop where
  fnorm : 0 ≤ s.fnorm
  first : s.iterations = 0 → c.scaling = .explicit → ∀ j, 0 < s.diag.get j
  later : 0 < s.iterations → 0 < s.region.delta ∧ 0 ≤ s.region.par ∧ ∀ j, 0 < s.diag.get j

/-- What a trial can rely on. -/
structure Armed (tall : p.parameterCount ≤ p.residualCount) (s : State p) : Prop where
  delta : 0 < s.region.delta
  par : 0 ≤ s.region.par
  fnorm : 0 < s.fnorm
  diag : ∀ j, 0 < s.diag.get j
  apart : Function.Injective s.buffers.pivots.get
  revealing : s.buffers.jacobian.RankRevealing tall
  steep : ∃ i, s.system.gradient tall i ≠ 0

/-! ### Trials -/

namespace Armed

variable (h : s.Armed tall)
include h

theorem found : 0 ≤ (s.searchStep tall).region.par ∧
    ∃ j, (s.searchStep tall).buffers.step.get j ≠ 0 := by
  obtain ⟨i, steep⟩ := h.steep
  exact @Triangular.search_found _ _ tall s.system s.diag s.region.delta s.region.par h.delta h.par
    h.diag h.apart h.revealing i steep _

theorem step_ne_zero : ∃ j, (s.searchStep tall).placeStep.buffers.step.get j ≠ 0 := by
  obtain ⟨j, nonzero⟩ := h.found.2
  refine ⟨j, ?_⟩
  simp only [placeStep, get_overwrite]
  exact neg_ne_zero.mpr nonzero

theorem stepLength_pos : 0 < (s.searchStep tall).placeStep.stepLength := by
  obtain ⟨j, nonzero⟩ := h.step_ne_zero
  refine lt_of_le_of_ne (norm_nonneg _) fun zero => ?_
  have entry := (norm_eq_zero_iff _).mp zero.symm j
  simp only [placeStep, get_overwrite] at entry nonzero
  exact mul_ne_zero (ne_of_gt (h.diag j)) nonzero entry

/-- The region in which a trial is judged is at most as large as the one it was started in, and has
the damping found. -/
theorem proposed_region : 0 < (s.proposed tall).region.delta ∧
    (s.proposed tall).region.delta ≤ s.region.delta ∧
    (s.proposed tall).region.par = (s.searchStep tall).region.par := by
  unfold proposed capRegion
  split
  · exact ⟨lt_min h.delta h.stepLength_pos, min_le_left _ _, rfl⟩
  · exact ⟨h.delta, le_rfl, rfl⟩

end Armed

theorem trialReduction_slope : (s.trialReduction tall).slope ≤ 0 :=
  Reduction.slope_nonpos

theorem tried_region (tall : p.parameterCount ≤ p.residualCount) (s : State p) :
    (s.tried tall).region = (s.proposed tall).region.update (s.trialReduction tall)
      (s.proposed tall).fnorm (norm (s.proposed tall).evaluateTrial.1.buffers.trial.toList)
      (s.searchStep tall).placeStep.stepLength := by
  unfold tried judged
  split
  · rfl
  · rfl

namespace Armed

variable (h : s.Armed tall)
include h

theorem tried_region_pos : 0 < (s.tried tall).region.delta ∧ 0 ≤ (s.tried tall).region.par := by
  obtain ⟨radius, -, par⟩ := h.proposed_region
  rw [tried_region]
  exact Region.update_pos trialReduction_slope radius (par ▸ h.found.1) h.stepLength_pos

/-- A trial that is refused at least halves the radius it was judged in and at least doubles the
damping that was found for it. -/
theorem tried_region_of_refused (poor : ¬ (s.trialReduction tall).acceptable) :
    0 < (s.tried tall).region.delta ∧
      (s.tried tall).region.delta ≤ (s.proposed tall).region.delta / 2 ∧
      2 * (s.searchStep tall).region.par ≤ (s.tried tall).region.par := by
  obtain ⟨radius, -, par⟩ := h.proposed_region
  have ratio : (s.trialReduction tall).ratio ≤ 0.25 := by
    have least : (s.trialReduction tall).ratio < 1e-4 :=
      not_le.mp fun enough => poor (decide_eq_true enough)
    exact le_of_lt (least.trans (by norm_num))
  rw [tried_region, ← par]
  exact Region.update_of_poor trialReduction_slope ratio radius (par ▸ h.found.1) h.stepLength_pos

theorem tried_armed (poor : ¬ (s.trialReduction tall).acceptable) : (s.tried tall).Armed tall := by
  have same := tried_same_factorization tall s
  obtain ⟨i, steep⟩ := h.steep
  -- The gradient is read off the triangle and the right-hand side, which a trial leaves alone.
  have gradient := @Triangular.gradient_congr _ _ tall s.system (s.tried tall).system same.triangle
    same.qtf
  exact {
    delta := h.tried_region_pos.1
    par := h.tried_region_pos.2
    fnorm := by rw [tried_fnorm_of_refused poor]; exact h.fnorm
    diag := by rw [tried_diag]; exact h.diag
    apart := by rw [same.pivots]; exact h.apart
    revealing := h.revealing.of_same same.triangle
    steep := ⟨i, by rwa [gradient]⟩ }

theorem tried_poised (good : (s.trialReduction tall).acceptable) : (s.tried tall).Poised c := by
  have counted := tried_iterations tall s
  rw [if_pos good] at counted
  exact {
    fnorm := (congrArg State.fnorm (if_pos good)).symm ▸ norm_nonneg _
    first := fun none => absurd none (by omega)
    later := fun _ => ⟨h.tried_region_pos.1, h.tried_region_pos.2, by
      rw [tried_diag]
      exact h.diag⟩ }

end Armed

/-! ### Linearizing -/

/-- A gradient that is not zero is not zero in some column. -/
theorem exists_steep {m n : Nat} {tall : n ≤ m} {s : Triangular ℝ m n} {norms : Vector ℝ n}
    {fnorm gtol : ℝ} (nonneg : 0 ≤ gtol)
    (steep : ¬ gradientNorm tall s.r s.pivots s.qtb norms fnorm ≤ gtol) :
    fnorm ≠ 0 ∧ ∃ i, s.gradient tall i ≠ 0 := by
  constructor
  · rintro rfl
    exact steep (by simpa [gradientNorm] using nonneg)
  · by_contra! flat
    have sums (j : Fin n) : sumWhere (· ≤ j) (fun i => s.r.lead tall i j * (s.qtb.get i / fnorm)) =
        0 := by
      rw [sumWhere_real]
      simp only [← mul_div_assoc, ← Finset.sum_div]
      exact div_eq_zero_iff.mpr (.inl (flat j))
    apply steep
    unfold gradientNorm
    split
    · exact nonneg
    · refine le_of_eq_of_le (foldl_invariant (fun _ (g : ℝ) => g = 0) rfl ?_) nonneg
      rintro j g rfl
      dsimp only
      rw [sums]
      simp

theorem columnScale_pos {n : Nat} {norms : Vector ℝ n} (nonneg : ∀ j, 0 ≤ norms.get j)
    (diag : Vector ℝ n) (j : Fin n) : 0 < (columnScale norms diag).get j := by
  rw [columnScale, get_overwrite]
  split
  · exact one_pos
  next nonzero => exact lt_of_le_of_ne (nonneg j) fun zero => nonzero (beq_iff_eq.mpr zero.symm)

/-- The first linearization sets the radius and, unless the caller has, the scale factors; later
ones find them positive. -/
theorem settle_pos (factor : 0 < c.factor) (h : s.Poised c) {norms : Vector ℝ p.parameterCount}
    (nonneg : ∀ j, 0 ≤ norms.get j) :
    0 < (s.settle c norms).region.delta ∧ 0 ≤ (s.settle c norms).region.par ∧
      ∀ j, 0 < (s.settle c norms).diag.get j := by
  unfold settle
  split
  next first =>
    refine ⟨Region.start_pos factor (norm_nonneg _), le_rfl, fun j => ?_⟩
    cases mode : c.scaling with
    | auto => exact columnScale_pos nonneg s.diag j
    | explicit => exact h.first first mode j
  next later => exact h.later (Nat.pos_of_ne_zero later)

theorem le_raisedDiag (c : Config ℝ) (norms : Vector ℝ p.parameterCount) (s : State p)
    (j : Fin p.parameterCount) : s.diag.get j ≤ (s.raisedDiag c norms).get j := by
  unfold raisedDiag
  split
  · rw [get_overwrite]
    exact le_max_left _ _
  · exact le_rfl

/-- A linearization that leads to a trial prepares it. -/
theorem linearize_armed (gtol : 0 ≤ c.gtol) (factor : 0 < c.factor) (h : s.Poised c) {t : State p}
    (next : s.linearize tall c = .attempt t) : t.Armed tall := by
  cases success : (s.differentiate c).failure with
  | some e =>
    rw [linearize_of_failure success] at next
    cases next
  | none =>
    have holds := @linearize_holds _ _ _ tall c s success
    rw [next] at holds
    change t.Holds tall (s.factored c) s.residuals at holds
    have apart : Function.Injective t.buffers.pivots.get := by
      rw [holds.pivots]
      exact (Factor.compute_pivots_bijective _).injective
    have revealing : t.buffers.jacobian.RankRevealing tall :=
      (Factor.square_rankRevealing tall _).of_same holds.triangle
    rw [linearize_of_success success] at next
    set norms := (s.factorize tall (s.differentiate c)).2 with norms_eq
    have nonneg (j : Fin p.parameterCount) : 0 ≤ norms.get j := by
      rw [norms_eq, factorize, Factor.get_compute_norms]
      exact norm_nonneg _
    have factored : (s.factorize tall (s.differentiate c)).1.Poised c :=
      ⟨h.fnorm, h.first, h.later⟩
    obtain ⟨delta, par, diag⟩ := settle_pos factor factored nonneg
    by_cases orthogonal :
        ((s.factorize tall (s.differentiate c)).1.tested tall c norms).gnorm ≤ c.gtol
    · rw [testGradient_of_le orthogonal] at next
      cases next
    · rw [testGradient_of_not_le orthogonal] at next
      obtain ⟨nonzero, steep⟩ := @exists_steep _ _ tall
        ((s.factorize tall (s.differentiate c)).1.tested tall c norms).system norms _ _ gtol
        orthogonal
      have fnorm : ((s.factorize tall (s.differentiate c)).1.settle c norms).fnorm = s.fnorm :=
        (settle_same ..).fnorm
      rw [fnorm] at nonzero
      cases next
      exact {
        delta, par, apart, revealing, steep
        fnorm := lt_of_lt_of_eq (lt_of_le_of_ne h.fnorm nonzero.symm) fnorm.symm
        diag := fun j => lt_of_lt_of_le (diag j) (le_raisedDiag ..) }

end State

/-! ### Runs -/

namespace Stage

variable {p : Problem ℝ} {tall : p.parameterCount ≤ p.residualCount} {c : Config ℝ}

/-- Each stage finds what it relies on. -/
def Prepared (tall : p.parameterCount ≤ p.residualCount) (c : Config ℝ) : Stage p → Prop
  | linearize s => s.Poised c
  | attempt s => s.Armed tall
  | stopped .. => True

theorem next_prepared (gtol : 0 ≤ c.gtol) (factor : 0 < c.factor) {stage : Stage p}
    (h : stage.Prepared tall c) : (stage.next tall c).Prepared tall c := by
  cases stage with
  | linearize s =>
    cases next : s.linearize tall c with
    | attempt t =>
      rw [Stage.next, next]
      exact State.linearize_armed gtol factor h next
    | linearize t =>
      -- No linearization follows another one.
      rcases s.linearize_cases tall c with ⟨e, -, other⟩ | ⟨-, u, -, other | other⟩
      · cases next.symm.trans other
      · cases next.symm.trans other
      · cases next.symm.trans other
    | stopped info t =>
      rw [Stage.next, next]
      exact True.intro
  | attempt s =>
    rw [Stage.next]
    cases outcome : (s.proposed tall).evaluateTrial.2 with
    | some e =>
      rw [State.attempt_of_failure outcome]
      exact True.intro
    | none =>
      rw [State.attempt_of_success outcome]
      split
      · exact True.intro
      · split
        next good => exact State.Armed.tried_poised h good
        next poor => exact State.Armed.tried_armed h poor
  | stopped info s => exact True.intro

theorem run_prepared (gtol : 0 ≤ c.gtol) (factor : 0 < c.factor) (steps : Nat) {stage : Stage p}
    (h : stage.Prepared tall c) : (stage.run tall c steps).Prepared tall c :=
  run_invariant (fun _ now => next_prepared gtol factor now) steps h

end Stage

section

variable {p : Problem ℝ} {c : Config ℝ} {x residuals diag : Array ℝ} {w : Workspace ℝ}

theorem Accepted.diag_pos (h : Accepted p c x residuals diag w) (mode : c.scaling = .explicit)
    (j : Fin p.parameterCount) : 0 < h.given.diag.get j := by
  by_contra nonpos
  exact (Config.validate_ne_ok_iff h.size_diag).mpr
    (.inr (.inr (.inr (.inr (.inr ⟨mode, h.given.diag.get j, Array.getElem_mem _, nonpos⟩)))))
    h.valid

theorem Accepted.first_prepared (h : Accepted p c x residuals diag w) :
    h.first.Prepared h.tall c := by
  unfold first State.start
  dsimp only
  split
  · exact True.intro
  · exact {
      fnorm := norm_nonneg _
      first := fun _ mode => h.diag_pos mode
      later := fun some => absurd some (Nat.lt_irrefl 0) }

/-- Without errors of rounding, whenever a solve is about to try a step: the radius, the residuals
and all scale factors are positive, the damping is not negative, and the step to be tried is not
zero. If the trial is refused, which the record of the next stage shows, the radius there is at most
half of what it was, even after the cap on the first step, but still positive, and the damping at
least twice the one found for the step. -/
theorem solve_confined (h : Accepted p c x residuals diag w) {k : Nat} {s : State p}
    (here : h.first.run h.tall c k = .attempt s) :
    0 < s.region.delta ∧ 0 ≤ s.region.par ∧ 0 < s.fnorm ∧ (∀ j, 0 < s.diag.get j) ∧
      (∃ j, (s.searchStep h.tall).placeStep.buffers.step.get j ≠ 0) ∧
      let after := (s.attempt h.tall c).state
      ((∀ call ∈ after.calls.back?, call.response.failure = none) →
        after.iterations = s.iterations →
        0 < after.region.delta ∧
        after.region.delta ≤ (s.searchStep h.tall).placeStep.capRegion.region.delta / 2 ∧
        (s.searchStep h.tall).placeStep.capRegion.region.delta ≤ s.region.delta ∧
        2 * (s.searchStep h.tall).region.par ≤ after.region.par) := by
  have armed := Stage.run_prepared h.gtol_nonneg h.factor_pos k h.first_prepared
  rw [here] at armed
  refine ⟨armed.delta, armed.par, armed.fnorm, armed.diag, armed.step_ne_zero, ?_⟩
  intro after answered same
  obtain ⟨success, poor⟩ := State.attempt_refused_iff.mp ⟨answered, same⟩
  obtain ⟨some, halved, doubled⟩ := armed.tried_region_of_refused poor
  have region : after.region = (s.tried h.tall).region :=
    (State.attempt_state_of_success success).1
  rw [region]
  exact ⟨some, halved, armed.proposed_region.2.1, doubled⟩

end

/-! ### A trial that is refused -/

/-- A trial that finds a larger residual is refused. -/
theorem trialReduction_scalar {f : Nat → ℝ → ℝ} {s : State (Problem.scalar f)}
    (tall : (Problem.scalar f).parameterCount ≤ (Problem.scalar f).residualCount)
    (larger : ∀ x, s.fnorm ≤ |f (s.calls.size + 1) x|) :
    (s.proposed tall).evaluateTrial.2 = none ∧ ¬ (s.trialReduction tall).acceptable := by
  set t := s.proposed tall with t_eq
  have same := State.proposed_same tall s
  rw [← t_eq] at same
  have response := Problem.eval_scalar f (t.calls.size + 1) t.buffers.point t.buffers.trial
  refine ⟨congrArg Response.failure response, fun good => ?_⟩
  have shrunk := Reduction.lt_of_acceptable (norm_nonneg _) good
  have trial : t.evaluateTrial.1.buffers.trial =
      #v[f (s.calls.size + 1) (t.buffers.point.get (0 : Fin 1))] := by
    rw [← same.calls]
    exact congrArg Response.buffer response
  rw [← t_eq, trial] at shrunk
  have size := norm_singleton (f (s.calls.size + 1) (t.buffers.point.get (0 : Fin 1)))
  have before : t.evaluateTrial.1.fnorm = s.fnorm := same.fnorm
  exact absurd ((size ▸ shrunk).trans_eq before) (not_lt.mpr (larger _))

/-- The residual grows with every evaluation, wherever it is made. -/
noncomputable def growth (number : Nat) (_ : ℝ) : ℝ :=
  number

/-- The first trial of a solve of `growth` is refused. -/
theorem solve_confined_growth :
    let h := Problem.scalar_accepted growth 1
    ∃ s : State (Problem.scalar growth), h.first.run h.tall .default 1 = .attempt s ∧
      let after := (s.attempt h.tall .default).state
      (∀ call ∈ after.calls.back?, call.response.failure = none) ∧
        after.iterations = s.iterations ∧ 0 < after.region.delta ∧
        after.region.delta ≤ s.region.delta / 2 := by
  intro h
  obtain ⟨opened, first, -, buffer, fnorm, one⟩ := Problem.scalar_first h
  have residual : opened.residuals.get (0 : Fin 1) = 1 := by
    rw [buffer]
    exact Nat.cast_one
  have fnorm : opened.fnorm = 1 := fnorm.trans (by simp [growth])
  obtain ⟨s, next, calls, same⟩ := @linearize_scalar growth .default opened h.tall rfl
    (by rw [fnorm]; norm_num)
    (by rw [residual]; norm_num) (by
      rw [residual, one]
      change ((2 : Nat) : ℝ) ≠ 1
      norm_num)
  have here : h.first.run h.tall .default 1 = .attempt s := by
    rw [first]
    exact next
  have refused := @trialReduction_scalar growth s h.tall (fun x => by
    rw [same, fnorm, calls, one]
    change 1 ≤ |((3 : Nat) : ℝ)|
    norm_num)
  obtain ⟨answered, same⟩ := State.attempt_refused_iff.mpr refused
  obtain ⟨-, -, -, -, -, confined⟩ := solve_confined h here
  obtain ⟨some, halved, inside, -⟩ := confined answered same
  exact ⟨s, here, answered, same, some, halved.trans (by linarith)⟩

end LeastSquares
