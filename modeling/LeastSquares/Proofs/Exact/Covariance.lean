import Mathlib
import LeastSquares.Fit
import LeastSquares.Proofs.Codes
import LeastSquares.Proofs.Isolation
import LeastSquares.Proofs.Exact.Inversion
import LeastSquares.Proofs.Exact.Cosines

/-!
# The covariance of fitted parameters

A fit reports a covariance unless its solve was refused or aborted. Without errors of rounding, and
if no diagonal entry of the triangle is negligible, the covariance is the multiple of the inverse of
`JᵀJ` for the last Jacobian that the solve computed, in the order of the parameters.
-/
namespace LeastSquares

open Matrix

/-! ### Which fits have one -/

theorem Termination.isError_eq_isAbort {α : Type} {info : Termination}
    (reasoned : info.isVerdict ∨ ∃ e : Error α, info = .userAbort e.abortStatus) :
    info.isError = info.isAbort := by
  rcases reasoned with verdict | ⟨e, rfl⟩
  · have range := code_of_isVerdict verdict
    rw [isAbort_of_isVerdict verdict]
    exact decide_eq_false (by omega)
  · have negative : (userAbort e.abortStatus).code < 0 := e.abortStatus_neg
    exact decide_eq_true (le_of_lt negative)

section

variable {α : Type} [Scalar α] {p : Problem α} {c : Config α}

/-- The covariance read off the state in which a solve stopped. -/
def State.covariance (tall : p.parameterCount ≤ p.residualCount) (t : State p) :
    Columns α p.parameterCount p.parameterCount :=
  LeastSquares.covariance (Nat.le_refl _) (t.buffers.jacobian.upperTriangle tall (Nat.le_refl _))
    t.buffers.pivots (residualVariance p.residualCount p.parameterCount t.fnorm)

theorem Run.covariance_ended (tall : p.parameterCount ≤ p.residualCount) (info : Termination)
    (t : State p) : (Run.ended info t).covariance = .ok ⟨p.parameterCount, t.covariance tall⟩ :=
  dif_pos tall

theorem fitWithScaling_covariance_eq (wanted : c.calcCovariance = true) (start diag : Array α) :
    let run := solve p c start (Array.replicate p.residualCount 0) diag
      (.new p.residualCount start.size)
    let fitted := fitWithScaling p c start diag
    fitted.2.workspace = run.workspace ∧
      fitted.1.covariance = if run.outcome.info.isError then none else run.covariance.toOption := by
  intro run
  unfold fitWithScaling
  simp only [wanted, Bool.true_and, Bool.not_eq_true']
  cases error : run.outcome.info.isError with
  | true => exact ⟨rfl, rfl⟩
  | false =>
    rw [if_pos rfl]
    cases read : run.covariance with
    | ok covariance => exact ⟨rfl, rfl⟩
    | error e => exact ⟨rfl, rfl⟩

end

/-! ### What it is -/

/-- A matrix is known from its entries in any other order. -/
theorem eq_of_submatrix_eq {n : Nat} {a b : Matrix (Fin n) (Fin n) ℝ} {order : Fin n → Fin n}
    (onto : Function.Surjective order) (same : a.submatrix order order = b.submatrix order order) :
    a = b := by
  ext k l
  obtain ⟨i, rfl⟩ := onto k
  obtain ⟨j, rfl⟩ := onto l
  exact congrFun (congrFun same i) j

theorem rankTolerance_nonneg : (0 : ℝ) ≤ rankTolerance := by
  unfold rankTolerance
  norm_num

section

variable {n : Nat} (r : Columns ℝ n n) {pivots : Vector (Fin n) n} (variance : ℝ)

theorem covariance_matrix : (covariance (Nat.le_refl n) r pivots variance).matrix =
    variance • Matrix.of ((r.gramInverse (Nat.le_refl n) pivots rankTolerance).1.lead
      (Nat.le_refl n)) := by
  have block : Columns.ofEntries (r.lead (Nat.le_refl n)) = r :=
    Columns.eq_of_entry_eq fun i j => Columns.entry_ofEntries ..
  ext i j
  simp only [covariance, block, Columns.matrix, of_apply, Columns.entry, get_map]
  exact mul_comm _ variance

theorem covariance_symmetric (apart : Function.Injective pivots.get) :
    (covariance (Nat.le_refl n) r pivots variance).matrix.IsSymm := by
  obtain ⟨symmetric, -⟩ := Columns.lead_gramInverse apart r rankTolerance
  rw [covariance_matrix]
  ext k l
  exact congrArg (variance * ·) (symmetric l k)

/-- If `Rᵀ R` is `gram` in the order of the pivots, the covariance is the multiple of its
inverse. -/
theorem covariance_mul_gram {r} (bijective : Function.Bijective pivots.get)
    (full : r.FullRank (Nat.le_refl n) rankTolerance) {gram : Matrix (Fin n) (Fin n) ℝ}
    (square : (r.upper (Nat.le_refl n))ᵀ * r.upper (Nat.le_refl n) =
      gram.submatrix pivots.get pivots.get) :
    (covariance (Nat.le_refl n) r pivots variance).matrix * gram = variance • 1 := by
  have inverse := full.gramInverse_mul bijective.injective rankTolerance_nonneg
  let order : Fin n ≃ Fin n := .ofBijective pivots.get bijective
  refine eq_of_submatrix_eq bijective.surjective ?_
  calc _ = (covariance (Nat.le_refl n) r pivots variance).matrix.submatrix order order *
        gram.submatrix order order := (submatrix_mul_equiv _ _ order order order).symm
    _ = variance • (1 : Matrix (Fin n) (Fin n) ℝ) := by
      have scaled : (covariance (Nat.le_refl n) r pivots variance).matrix.submatrix order order =
          variance • (Matrix.of ((r.gramInverse (Nat.le_refl n) pivots rankTolerance).1.lead
            (Nat.le_refl n))).submatrix pivots.get pivots.get := by
        rw [covariance_matrix]
        rfl
      rw [scaled, smul_mul_assoc, ← inverse, square]
      rfl
    _ = (variance • 1 : Matrix (Fin n) (Fin n) ℝ).submatrix order order :=
      (congrArg (variance • ·) (submatrix_one_equiv order)).symm

end

namespace State

variable {p : Problem ℝ} {tall : p.parameterCount ≤ p.residualCount} {c : Config ℝ} {s t : State p}

theorem lead_upperTriangle {m n k : Nat} (a : Columns ℝ m n) (rows : k ≤ m) (cols : k ≤ n)
    (i : Fin k) : (a.upperTriangle rows cols).lead (Nat.le_refl k) i i =
      a.entry (i.castLE rows) (i.castLE cols) := by
  rw [Columns.lead, Columns.upperTriangle, Columns.entry_ofEntries]
  exact if_pos (le_refl i)

/-- The triangle that a solve hands back, as the covariance reads it. -/
theorem Holds.upper_eq (holds : t.Holds tall (s.factored c) s.residuals) :
    (t.buffers.jacobian.upperTriangle tall (Nat.le_refl _)).upper (Nat.le_refl _) =
      ((s.factored c).square tall).upper tall := by
  ext i j
  change (if i ≤ j then (t.buffers.jacobian.upperTriangle tall (Nat.le_refl _)).entry i j else 0) =
    if i ≤ j then ((s.factored c).square tall).lead tall i j else 0
  by_cases upper : i ≤ j
  · rw [if_pos upper, if_pos upper, Columns.upperTriangle, Columns.entry_ofEntries, if_pos upper]
    exact holds.triangle.lead_eq upper
  · rw [if_neg upper, if_neg upper]

theorem fullRank_upperTriangle (full : t.buffers.factor.FullRank (Nat.le_refl _) rankTolerance) :
    (t.buffers.jacobian.upperTriangle tall (Nat.le_refl _)).FullRank (Nat.le_refl _)
      rankTolerance := by
  intro k first zero
  have size : p.parameterCount = min p.parameterCount p.residualCount := (min_eq_left tall).symm
  have large := full (k.cast size) (first.cast size) zero
  unfold Buffers.factor at large
  rw [lead_upperTriangle, lead_upperTriangle] at large ⊢
  exact large

/-- What is read off the factorization of a Jacobian. -/
theorem Holds.covariance_mul (holds : t.Holds tall (s.factored c) s.residuals)
    (full : t.buffers.factor.FullRank (Nat.le_refl _) rankTolerance) :
    (t.covariance tall).matrix *
        ((s.differentiate c).jacobian.matrixᵀ * (s.differentiate c).jacobian.matrix) =
      residualVariance p.residualCount p.parameterCount t.fnorm • 1 := by
  have bijective : Function.Bijective t.buffers.pivots.get := by
    rw [holds.pivots]
    exact Factor.compute_pivots_bijective _
  refine covariance_mul_gram _ bijective (fullRank_upperTriangle full) ?_
  rw [holds.upper_eq, holds.pivots]
  exact (s.unfactored (s.differentiate c)).upper_gram tall

end State

/-- A fit that is asked for it reports a covariance just if its solve was neither refused nor
aborted. Without errors of rounding, and if no diagonal entry of the triangle handed back is
negligible, the covariance is symmetric and its product with `JᵀJ`, for the last Jacobian `J`
computed, is the variance of the residuals times the identity. -/
theorem fitWithScaling_covariance (p : Problem ℝ) {c : Config ℝ} (wanted : c.calcCovariance = true)
    (start diag : Array ℝ) :
    let fitted := fitWithScaling p c start diag
    let fit := fitted.1
    (fit.covariance.isSome ↔
      fit.outcome.info ≠ .invalidInput ∧ fit.outcome.info.isAbort = false) ∧
    (fit.covariance.isSome →
      fitted.2.workspace.buffers.factor.FullRank (Nat.le_refl _) rankTolerance →
      ∃ (h : Accepted p c start (Array.replicate p.residualCount 0) diag
          (.new p.residualCount start.size)) (k : Nat) (s : State p)
        (covariance : Columns ℝ p.parameterCount p.parameterCount),
        Stage.LinearizesLast h.tall c h.first k s ∧ (s.differentiate c).failure = none ∧
        fit.covariance = some ⟨p.parameterCount, covariance⟩ ∧ covariance.matrix.IsSymm ∧
        covariance.matrix *
            ((s.differentiate c).jacobian.matrixᵀ * (s.differentiate c).jacobian.matrix) =
          (if p.parameterCount < p.residualCount then
            fit.outcome.fnorm ^ 2 / (p.residualCount - p.parameterCount) else 1) • 1) := by
  intro fitted fit
  obtain ⟨workspace, attached⟩ := fitWithScaling_covariance_eq (p := p) wanted start diag
  have outcome := (fitWithScaling_eq p c start diag).2.2.2
  change fitted.2.workspace = _ at workspace
  change fit.covariance = _ at attached
  change fit.outcome = _ at outcome
  rw [workspace, attached, outcome]
  set run := solve p c start (Array.replicate p.residualCount 0) diag
    (.new p.residualCount start.size) with run_eq
  -- A refused solve and an aborted one are the errors; all others hand a factorization back.
  by_cases accepted : run.outcome.info = .invalidInput
  · have error : run.outcome.info.isError = true := by rw [accepted]; rfl
    rw [if_pos error]
    exact ⟨iff_of_false Bool.false_ne_true fun valid => valid.1 accepted, nofun⟩
  · have h := accepted_of_info_ne accepted
    rw [Termination.isError_eq_isAbort h.reasoned]
    cases aborted : run.outcome.info.isAbort with
    | true =>
      refine ⟨iff_of_false Bool.false_ne_true ?_, nofun⟩
      rintro ⟨-, ⟨⟩⟩
    | false =>
      obtain ⟨k, s, info, t, last, success, holds, -, ended⟩ := solve_holds h aborted
      rw [run_eq, ended, if_neg Bool.false_ne_true, Run.covariance_ended h.tall]
      refine ⟨iff_of_true rfl ⟨by rwa [run_eq, ended] at accepted, rfl⟩, fun _ full => ?_⟩
      refine ⟨h, k, s, t.covariance h.tall, last, success, rfl, ?_, ?_⟩
      · refine covariance_symmetric _ _ ?_
        rw [holds.pivots]
        exact (Factor.compute_pivots_bijective _).injective
      · rw [holds.covariance_mul full, residualVariance, pow_two]
        refine congrArg (· • (1 : Matrix _ _ ℝ)) ?_
        split
        next more => exact congrArg _ (Nat.cast_sub (le_of_lt more))
        next => rfl

/-- The configuration by default, but with the covariance. -/
noncomputable def withCovariance : Config ℝ :=
  { Config.default with calcCovariance := true }

theorem Factor.triangle_fullRank {f : Factor ℝ 1 1} (nonzero : f.rdiag.get 0 ≠ 0) :
    f.triangle.FullRank (Nat.le_refl _) rankTolerance := by
  intro k first _
  have diagonal (k : Fin (min 1 1)) : f.triangle.lead (Nat.le_refl _) k k = f.rdiag.get 0 := by
    rw [Columns.lead, Factor.triangle, Columns.entry_ofEntries]
    refine ((if_neg (lt_irrefl k)).trans (if_pos rfl)).trans ?_
    exact congrArg f.rdiag.get (Subsingleton.elim _ _)
  rw [diagonal, diagonal]
  have small : (rankTolerance : ℝ) < 1 := by
    unfold rankTolerance
    norm_num
  exact mul_lt_of_lt_one_left (abs_pos.mpr nonzero) small

/-- A single parameter that is its own residual has the variance one. -/
theorem fitWithScaling_covariance_identity :
    let fit := (fitWithScaling identity withCovariance #[0] #[1]).1
    withCovariance.calcCovariance = true ∧ fit.outcome.info = .gtolReached ∧
      ∃ (s : State identity)
        (covariance : Columns ℝ identity.parameterCount identity.parameterCount),
        fit.covariance = some ⟨identity.parameterCount, covariance⟩ ∧ covariance.matrix *
          ((s.differentiate withCovariance).jacobian.matrixᵀ *
            (s.differentiate withCovariance).jacobian.matrix) = 1 := by
  intro fit
  have h : Accepted identity withCovariance #[0] #[0] #[1] (.new 1 1) :=
    { Problem.scalar_accepted (fun _ x => x) 0 with }
  obtain ⟨s, first, point, buffer, fnorm, -⟩ := Problem.scalar_first h
  obtain ⟨success, -⟩ := differentiate_scalar withCovariance s
  obtain ⟨t, stopped⟩ := @State.linearize_of_zero identity h.tall withCovariance s
    h.gtol_nonneg success (fnorm.trans abs_zero)
  have ended : solve identity withCovariance #[0] #[0] #[1] (.new 1 1) = .ended .gtolReached t := by
    refine @Accepted.solve_eq_ended _ _ _ _ _ _ _ _ h 1 _ _ ((Stage.run_succ h.first 0).trans ?_)
    exact (congrArg (Stage.next h.tall withCovariance) first).trans stopped
  have holds := @State.linearize_holds _ _ _ h.tall withCovariance s success
  rw [stopped] at holds
  obtain ⟨-, -, -, outcome⟩ := fitWithScaling_eq identity withCovariance #[0] #[1]
  obtain ⟨workspace, -⟩ :=
    @fitWithScaling_covariance_eq _ _ identity withCovariance rfl (#[0] : Array ℝ) #[1]
  have same : solve identity withCovariance #[0] (Array.replicate identity.residualCount 0) #[1]
      (.new identity.residualCount 1) = .ended .gtolReached t := ended
  have info : fit.outcome.info = .gtolReached :=
    congrArg Outcome.info (outcome.trans (congrArg Run.outcome same))
  obtain ⟨attached, spec⟩ := fitWithScaling_covariance identity (c := withCovariance) rfl #[0] #[1]
  have some := attached.mpr ⟨by rw [info]; exact nofun, by rw [info]; rfl⟩
  have full : (fitWithScaling identity withCovariance #[0] #[1]).2.workspace.buffers.factor.FullRank
      (Nat.le_refl _) rankTolerance := by
    rw [workspace.trans (congrArg Run.workspace same)]
    have triangle : t.buffers.factor = (s.factored withCovariance).triangle := holds.factor_eq
    rw [show (Run.ended .gtolReached t).workspace.buffers.factor = _ from triangle]
    exact Factor.triangle_fullRank
      (@Factor.compute_one (s.unfactored (s.differentiate withCovariance))
        (identity_slope point buffer)).2
  obtain ⟨-, -, s, covariance, -, -, covariance_eq, -, product⟩ := spec some full
  refine ⟨rfl, info, s, covariance, covariance_eq, product.trans ?_⟩
  exact (congrArg (· • _) (if_neg (lt_irrefl 1))).trans (one_smul ℝ _)

end LeastSquares
