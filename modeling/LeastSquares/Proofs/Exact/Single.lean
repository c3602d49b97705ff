import Mathlib
import LeastSquares.Proofs.Stationary
import LeastSquares.Proofs.Exact.Pivoting

/-!
# One residual in one parameter

The smallest problems there are. Where neither the residual nor its difference is zero, their
gradient is not zero either, and a step is tried.
-/
namespace LeastSquares

/-- One residual in one parameter, which may change from one evaluation to the next. -/
noncomputable def Problem.scalar (f : Nat → ℝ → ℝ) : Problem ℝ where
  residualCount := 1
  parameterCount := 1
  eval number point buffer :=
    ⟨overwrite buffer fun _ => f number (point.toList.headD 0), none⟩

theorem Problem.eval_scalar (f : Nat → ℝ → ℝ) (number : Nat) (point buffer : Vector ℝ 1) :
    (Problem.scalar f).eval number point buffer = ⟨#v[f number (point.get 0)], none⟩ := by
  have first : point.toList.headD 0 = point.get 0 := by
    rw [toList_eq_ofFn]
    rfl
  have left : overwrite buffer (fun _ => f number (point.toList.headD 0)) =
      #v[f number (point.get 0)] := by
    apply eq_of_get_eq
    intro i
    rw [get_overwrite, first, Subsingleton.elim i 0]
    rfl
  exact congrArg (Response.mk · none) left

theorem Problem.scalar_accepted (f : Nat → ℝ → ℝ) (x : ℝ) :
    Accepted (Problem.scalar f) .default #[x] #[0] #[1] (.new 1 1) where
  size_x := rfl
  size_residuals := rfl
  size_diag := rfl
  rows := rfl
  cols := rfl
  valid := by
    change Config.validate (.default : Config ℝ) 1 1 #[1] = .ok ()
    have root : (0 : ℝ) ≤ √Numeric.epsilon := Real.sqrt_nonneg _
    have radius : (0 : ℝ) < Numeric.ofNat 100 := Nat.cast_pos.mpr (by decide)
    simp [Config.validate, Config.default, Config.budget, root, radius]

theorem norm_singleton (x : ℝ) : norm (#v[x] : Vector ℝ 1).toList = |x| := by
  rw [norm_real]
  simp [get_eq, Real.sqrt_sq_eq_abs]

/-! ### Linearizing -/

theorem differenceStep_ne_zero {scale : ℝ} (nonzero : scale ≠ 0) (x : ℝ) :
    differenceStep scale x ≠ 0 := by
  unfold differenceStep
  dsimp only
  split
  · exact nonzero
  next other => exact fun zero => other (beq_iff_eq.mpr zero)

theorem differenceScale_ne_zero (epsfcn : ℝ) : differenceScale epsfcn ≠ 0 :=
  ne_of_gt (Real.sqrt_pos.mpr (lt_of_lt_of_le epsilon_pos (le_max_right _ _)))

theorem Differencing.run_one {m : Nat} (p : Problem ℝ) (epsfcn : ℝ) (residuals : Vector ℝ m)
    (d : Differencing ℝ m 1) :
    d.run p epsfcn residuals = d.column p (differenceScale epsfcn) residuals 0 := by
  rw [run, Fin.foldl_succ, Fin.foldl_zero]

theorem tailSquare_one (v : Vector ℝ 1) : tailSquare v 0 = v.get 0 ^ 2 := by
  simp [tailSquare]

/-- A column that is not zero is reflected, and leaves no zero on the diagonal. -/
theorem Factor.compute_one {f : Factor ℝ 1 1} (slope : (f.packed.get 0).get 0 ≠ 0) :
    IsReflector 0 ((f.compute true).packed.get 0) ∧ (f.compute true).rdiag.get 0 ≠ 0 := by
  set g := (f.prepare true).exchange 0 (pivotFrom 0 (f.prepare true).rdiag) with g_eq
  have computed : f.compute true = g.eliminate true 0 0 := by
    unfold compute
    change Fin.foldl 1 _ _ = _
    rw [Fin.foldl_succ, Fin.foldl_zero]
    rfl
  have column : g.packed.get 0 = f.packed.get 0 := by
    rw [g_eq, Subsingleton.elim (pivotFrom 0 (f.prepare true).rdiag) 0]
    simp [exchange, prepare, get_interchange]
  have left : tailSquare (g.packed.get 0) 0 ≠ 0 := by
    rw [column, tailSquare_one]
    positivity
  obtain ⟨v, made⟩ := eliminate_of_nonzero true (0 : Fin 1) 0 left
  rw [← computed] at made
  rw [made.packed 0, if_pos rfl]
  exact ⟨made.reflector, made.nonzero⟩

/-- Turning a single residual leaves its magnitude. -/
theorem project_one {packed : Columns ℝ 1 1} (reflector : IsReflector 0 (packed.get 0))
    (w : Vector ℝ 1) : (project packed w).get 0 ^ 2 = w.get 0 ^ 2 := by
  have reflected : project packed w = reflect 0 (packed.get 0) w := by
    unfold project
    change Fin.foldl 1 _ _ = _
    rw [Fin.foldl_succ, Fin.foldl_zero]
    exact if_neg fun zero => reflector.lead (beq_iff_eq.mp zero)
  rw [reflected, ← tailSquare_one, ← tailSquare_one]
  exact reflector.tailSquare_reflect w

theorem not_gradientNorm_le_zero {f : Factor ℝ 1 1} {w : Vector ℝ 1}
    (slope : (f.packed.get 0).get 0 ≠ 0) (residual : w.get 0 ≠ 0) {fnorm : ℝ}
    (nonzero : fnorm ≠ 0) :
    ¬ gradientNorm le_rfl ((f.compute true).square le_rfl) (f.compute true).pivots
      ((f.compute true).projected le_rfl w) (f.compute true).norms fnorm ≤ 0 := by
  obtain ⟨reflector, rdiag⟩ := Factor.compute_one slope
  have size (l : Fin 1) : (f.compute true).norms.get l ≠ 0 := by
    rw [Factor.get_compute_norms, Subsingleton.elim l 0]
    exact fun zero => slope ((norm_eq_zero_iff _).mp zero 0)
  have turned : ((f.compute true).projected le_rfl w).get 0 ≠ 0 := by
    rw [← sq_pos_iff, Factor.get_projected]
    exact lt_of_lt_of_eq (by positivity) (project_one reflector w).symm
  have diagonal : ((f.compute true).square le_rfl).lead le_rfl 0 0 ≠ 0 := by
    rwa [Factor.square, Columns.lead_withDiagonal, if_pos rfl]
  have cosine : ((f.compute true).square le_rfl).lead le_rfl 0 0 *
      (((f.compute true).projected le_rfl w).get 0 / fnorm) /
        (f.compute true).norms.get ((f.compute true).pivots.get 0) ≠ 0 :=
    div_ne_zero (mul_ne_zero diagonal (div_ne_zero turned nonzero)) (size _)
  unfold gradientNorm
  rw [if_neg fun zero => nonzero (beq_iff_eq.mp zero), Fin.foldl_succ, Fin.foldl_zero]
  dsimp only
  rw [if_neg fun zero => size _ (beq_iff_eq.mp zero), sumWhere_real]
  simpa using cosine

/-- The Jacobian of a single residual is a quotient of two differences. -/
theorem differentiate_scalar {f : Nat → ℝ → ℝ} (c : Config ℝ) (s : State (Problem.scalar f)) :
    let h := differenceStep (differenceScale c.epsfcn) (s.x.get (0 : Fin 1))
    (s.differentiate c).failure = none ∧ (s.differentiate c).calls.size = s.calls.size + 1 ∧
      (s.differentiate c).jacobian.entry (0 : Fin 1) (0 : Fin 1) =
        (f (s.calls.size + 1) (s.x.get (0 : Fin 1) + h) - s.residuals.get (0 : Fin 1)) / h := by
  intro h
  set scale := differenceScale c.epsfcn
  set d := s.unfilled
  have moved : (d.moved scale (0 : Fin 1)).get (0 : Fin 1) = s.x.get (0 : Fin 1) + h :=
    (get_overwriteAt s.x (0 : Fin 1) _ (0 : Fin 1)).trans (if_pos rfl)
  have response : (d.probe (Problem.scalar f) scale (0 : Fin 1)).response =
      ⟨#v[f (s.calls.size + 1) (s.x.get (0 : Fin 1) + h)], none⟩ := by
    rw [← moved]
    exact Problem.eval_scalar f _ (d.moved scale (0 : Fin 1)) d.buffer
  have answered := congrArg Response.failure response
  have made : s.differentiate c =
      d.column (Problem.scalar f) scale s.residuals (0 : Fin 1) :=
    Differencing.run_one _ _ _ _
  rw [made]
  refine ⟨?_, ?_, (Differencing.entry_column rfl answered (0 : Fin 1)).trans ?_⟩
  · rw [Differencing.column_of_success rfl answered]
    rfl
  · rw [Differencing.column_of_success rfl answered]
    exact Array.size_push _
  · rw [response]
    rfl

/-- Where neither the residual nor its derivative is zero, a step is tried. -/
theorem linearize_scalar {f : Nat → ℝ → ℝ} {c : Config ℝ} {s : State (Problem.scalar f)}
    (tall : (Problem.scalar f).parameterCount ≤ (Problem.scalar f).residualCount)
    (gtol : c.gtol = 0) (fnorm : s.fnorm ≠ 0) (residual : s.residuals.get (0 : Fin 1) ≠ 0)
    (slope : f (s.calls.size + 1) (s.x.get (0 : Fin 1) +
      differenceStep (differenceScale c.epsfcn) (s.x.get (0 : Fin 1))) ≠
        s.residuals.get (0 : Fin 1)) :
    ∃ t, s.linearize tall c = .attempt t ∧ t.calls.size = s.calls.size + 1 ∧ t.fnorm = s.fnorm := by
  obtain ⟨success, calls, quotient⟩ := differentiate_scalar c s
  have entry : (s.differentiate c).jacobian.entry (0 : Fin 1) (0 : Fin 1) ≠ 0 := by
    rw [quotient]
    exact div_ne_zero (sub_ne_zero.mpr slope)
      (differenceStep_ne_zero (differenceScale_ne_zero c.epsfcn) _)
  have steep : ¬ ((s.factorize tall (s.differentiate c)).1.tested tall c
      (s.factorize tall (s.differentiate c)).2).gnorm ≤ c.gtol := by
    rw [State.tested_gnorm, gtol]
    exact @not_gradientNorm_le_zero (s.unfactored (s.differentiate c)) _ entry residual _ fnorm
  have next := (State.linearize_of_success success).trans (State.testGradient_of_not_le steep)
  refine ⟨_, next, ?_, ?_⟩
  · have kept := State.linearize_calls tall c s
    rw [next] at kept
    exact (congrArg Array.size kept).trans calls
  · exact (State.tested_same tall c _ _).fnorm

/-- A solve from `x` begins by linearizing there. -/
theorem Problem.scalar_first {f : Nat → ℝ → ℝ} {c : Config ℝ} {x : ℝ}
    (h : Accepted (Problem.scalar f) c #[x] #[0] #[1] (.new 1 1)) :
    ∃ s : State (Problem.scalar f), h.first = .linearize s ∧ s.x = (#v[x] : Vector ℝ 1) ∧
      s.residuals = (#v[f 1 x] : Vector ℝ 1) ∧ s.fnorm = |f 1 x| ∧ s.calls.size = 1 := by
  set call := (Problem.scalar f).call #[] .start h.given.x h.given.residuals with call_eq
  have response : call.response = ⟨#v[f 1 x], none⟩ := Problem.eval_scalar f 1 _ _
  have buffer := congrArg Response.buffer response
  refine ⟨.opened c h.given.diag h.given.buffers call, ?_, rfl, buffer, ?_, rfl⟩
  · unfold Accepted.first State.start
    simp only [← call_eq, response]
  · exact (congrArg (fun v : Vector ℝ 1 => norm v.toList) buffer).trans (norm_singleton _)

end LeastSquares
