import LeastSquares.Proofs.Exact.Substitution

/-!
# Searches in systems that are alike

Two triangular systems are alike if their columns, in one order, have the same products with each
other and with the right-hand sides. Without errors of rounding a search cannot tell them apart: it
makes the same trials, with the same bounds and corrections, and finds the same damping and the same
step. The triangles themselves may differ in the signs of their rows, and the right-hand sides in
all that lies below the rank.
-/
namespace LeastSquares

open Matrix

variable {m n : Nat} {tall : n ≤ m}

/-! ### Kernels -/

theorem isUnit_of_kernel {a : Matrix (Fin n) (Fin n) ℝ} (trivial : ∀ u, a *ᵥ u = 0 → u = 0) :
    IsUnit a := by
  refine mulVec_injective_iff_isUnit.mp fun u v same => sub_eq_zero.mp (trivial _ ?_)
  rw [mulVec_sub, sub_eq_zero]
  exact same

/-- Damped normal equations without a zero among the scale factors have one solution. -/
theorem eq_zero_of_damped {k : Nat} {a : Matrix (Fin k) (Fin n) ℝ} {d u : Fin n → ℝ}
    (nonzero : ∀ i, d i ≠ 0) (zero : (aᵀ * a + diagonal fun i => d i ^ 2) *ᵥ u = 0) : u = 0 := by
  have product : (a *ᵥ u) ⬝ᵥ (a *ᵥ u) + ∑ i, (d i * u i) ^ 2 = 0 := by
    have damped : u ⬝ᵥ ((diagonal fun i => d i ^ 2) *ᵥ u) = ∑ i, (d i * u i) ^ 2 := by
      refine Finset.sum_congr rfl fun i _ => ?_
      rw [mulVec_diagonal]
      ring
    have whole : u ⬝ᵥ ((aᵀ * a + diagonal fun i => d i ^ 2) *ᵥ u) = 0 := by
      rw [zero, dotProduct_zero]
    rwa [add_mulVec, dotProduct_add, damped, ← mulVec_mulVec, dotProduct_mulVec u,
      vecMul_transpose] at whole
  -- Of two squares that add up to zero both are zero.
  have image : 0 ≤ (a *ᵥ u) ⬝ᵥ (a *ᵥ u) := Finset.sum_nonneg fun i _ => mul_self_nonneg _
  have squares : 0 ≤ ∑ i, (d i * u i) ^ 2 := Finset.sum_nonneg fun i _ => sq_nonneg _
  have none : ∑ i, (d i * u i) ^ 2 = 0 := by linarith
  funext i
  have square := (Finset.sum_eq_zero_iff_of_nonneg fun i _ => sq_nonneg _).mp none i
    (Finset.mem_univ i)
  exact (mul_eq_zero.mp (pow_eq_zero_iff two_ne_zero |>.mp square)).resolve_left (nonzero i)

namespace Triangular

/-! ### Triangles -/

/-- A triangle maps no vector to zero that is zero from its own first zero on. -/
theorem eq_zero_of_leading {s : Triangular ℝ m n} {u : Fin n → ℝ}
    (zeros : ∀ j : Fin n, s.rank tall ≤ j.val → u j = 0) (image : s.r.upper tall *ᵥ u = 0) :
    u = 0 :=
  eq_zero_of_triangle s.r.upper_lower image fun j nonzero => (s.r.upper_diagonal j).trans_ne
    (diagonal_ne_zero (not_le.mp fun past => nonzero (zeros j past)))

theorem upper_isUnit {s : Triangular ℝ m n} (regular : ∀ j, s.r.lead tall j j ≠ 0) :
    IsUnit (s.r.upper tall) :=
  isUnit_of_kernel fun _ zero => eq_zero_of_triangle s.r.upper_lower zero
    fun j _ => (s.r.upper_diagonal j).trans_ne (regular j)

section

variable (s : Triangular ℝ m n) {diag : Vector ℝ n} (nonzero : ∀ j, diag.get j ≠ 0)
include nonzero

theorem absorbed_isUnit (rhs : Vector ℝ n) :
    IsUnit (below tall (s.absorbed tall diag rhs).1) := by
  refine isUnit_of_kernel fun u zero => ?_
  refine @eq_zero_of_damped _ _ (s.r.upper tall) (fun i => diag.get (s.pivots.get i)) u
    (fun i => nonzero _) ?_
  rw [← s.absorbed_gram rhs, ← mulVec_mulVec, zero, mulVec_zero]

/-- After a damped solve, substituting forwards solves `Sᵀ y = w`. -/
theorem damped_transpose (x sdiag permuted w : Vector ℝ n) :
    (below tall (s.absorbed tall diag s.qtb).1)ᵀ *ᵥ
        (solveDampedTranspose tall (s.damped tall diag x sdiag permuted).r
          (s.damped tall diag x sdiag permuted).sdiag w).get = w.get := by
  ext i
  have solved := @solveDampedTranspose_solves m n tall (s.damped tall diag x sdiag permuted).r _
    (@damped_sdiag_ne_zero m n tall s diag x sdiag permuted nonzero) w i
  have lead {l : Fin n} (before : l < i) :
      (s.damped tall diag x sdiag permuted).r.lead tall i l =
        (s.absorbed tall diag s.qtb).1.lead tall i l := by
    simp only [damped, overwrite_get, Columns.lead_withDiagonal]
    exact if_neg (ne_of_gt before)
  rw [get_damped_sdiag] at solved
  rw [← solved]
  refine (sum_masked (· ≤ i) ..).trans ((sum_to _ i).trans (congrArg (· + _) ?_))
  refine Finset.sum_congr rfl fun l member => ?_
  rw [lead (Finset.mem_filter.mp member).2]

end

theorem scaledGradient_real (s : Triangular ℝ m n) (diag buffer : Vector ℝ n) :
    s.scaledGradient tall diag buffer =
      .ofFn fun j => s.gradient tall j / diag.get (s.pivots.get j) := by
  have entry (j : Fin n) : sumWhere (· ≤ j) (fun i => s.r.lead tall i j * s.qtb.get i) =
      s.gradient tall j :=
    sumWhere_real ..
  simp only [scaledGradient, overwrite_eq_ofFn, entry]

/-! ### Systems -/

/-- Two systems with the same products of columns, both of which reveal their rank. -/
structure Alike (tall : n ≤ m) (s s' : Triangular ℝ m n) : Prop where
  pivots : s'.pivots = s.pivots
  diagonal : ∀ j, s'.r.lead tall j j ^ 2 = s.r.lead tall j j ^ 2
  gram : (s'.r.upper tall)ᵀ * s'.r.upper tall = (s.r.upper tall)ᵀ * s.r.upper tall
  gradient : s'.gradient tall = s.gradient tall
  revealing : s.r.RankRevealing tall
  revealing' : s'.r.RankRevealing tall

namespace Alike

variable {s s' : Triangular ℝ m n} (h : Alike tall s s')
include h

/-- Whatever damped solves have been made on both. -/
theorem of_same {r r' : Columns ℝ m n} (same : s.r.SameUpper tall r)
    (same' : s'.r.SameUpper tall r') : Alike tall { s with r } { s' with r := r' } where
  pivots := h.pivots
  diagonal j := by
    dsimp only
    rw [same.diagonal, same'.diagonal]
    exact h.diagonal j
  gram := by
    dsimp only
    rw [same.upper_eq, same'.upper_eq]
    exact h.gram
  gradient := by
    ext i
    rw [@gradient_congr m n tall s { s with r } same rfl,
      @gradient_congr m n tall s' { s' with r := r' } same' rfl, h.gradient]
  revealing := h.revealing.of_same same
  revealing' := h.revealing'.of_same same'

theorem rank_eq : s'.rank tall = s.rank tall := by
  refine congrArg firstIndex (funext fun j => ?_)
  have square := h.diagonal j
  rw [Bool.eq_iff_iff, beq_iff_eq, beq_iff_eq, ← pow_eq_zero_iff two_ne_zero, square,
    pow_eq_zero_iff two_ne_zero]

/-- Both have one undamped step. -/
theorem undamped_eq (buffer buffer' : Vector ℝ n) :
    s'.undamped tall buffer' = s.undamped tall buffer := by
  have normal := undamped_solves h.revealing buffer
  have normal' := undamped_solves h.revealing' buffer'
  rw [← gradient_eq, mulVec_mulVec] at normal normal'
  rw [h.gram, h.gradient, ← normal] at normal'
  -- The difference of the two is mapped to zero, and is zero itself from the rank on.
  have zero : s.r.upper tall *ᵥ
      ((s'.undamped tall buffer').get - (s.undamped tall buffer).get) = 0 := by
    refine mulVec_eq_zero_of_gram ?_
    rw [mulVec_sub, normal', sub_self]
  refine eq_of_get_eq (congrFun (sub_eq_zero.mp (eq_zero_of_leading (fun j past => ?_) zero)))
  rw [Pi.sub_apply, (s.undamped_reached buffer).zeros j past,
    (s'.undamped_reached buffer').zeros j (h.rank_eq ▸ past), sub_zero]

/-- Both have one damped step, in the order of the pivots. -/
theorem damped_eq {diag : Vector ℝ n} (nonzero : ∀ j, diag.get j ≠ 0)
    (x sdiag permuted x' sdiag' permuted' : Vector ℝ n) :
    (s'.damped tall diag x' sdiag' permuted').permuted =
      (s.damped tall diag x sdiag permuted).permuted := by
  have normal := @damped_normal m n tall s diag x sdiag permuted nonzero
  have normal' := @damped_normal m n tall s' diag x' sdiag' permuted' nonzero
  rw [← gradient_eq] at normal normal'
  rw [h.gram, h.pivots, h.gradient, ← normal] at normal'
  refine eq_of_get_eq (congrFun (sub_eq_zero.mp ?_))
  refine @eq_zero_of_damped _ _ (s.r.upper tall) (fun i => diag.get (s.pivots.get i)) _
    (fun i => nonzero _) ?_
  rw [mulVec_sub, normal', sub_self]

/-- With full rank, substituting forwards leads to vectors of one length. -/
theorem norm_forwardSubstitute (full : ¬ s.rank tall < n) (w : Vector ℝ n) :
    norm (s'.forwardSubstitute tall w).toList = norm (s.forwardSubstitute tall w).toList := by
  have diagonal (t : Triangular ℝ m n) (full : ¬ t.rank tall < n) (j : Fin n) :
      t.r.lead tall j j ≠ 0 := diagonal_ne_zero (by omega)
  have full' : ¬ s'.rank tall < n := h.rank_eq ▸ full
  refine norm_eq_of_dot (dot_of_gram (upper_isUnit (diagonal s full))
    (upper_isUnit (diagonal s' full')) h.gram ?_)
  rw [forwardSubstitute_solves (diagonal s full), forwardSubstitute_solves (diagonal s' full')]

/-- So it does after damped solves. -/
theorem norm_solveDampedTranspose {diag : Vector ℝ n} (nonzero : ∀ j, diag.get j ≠ 0)
    (x sdiag permuted x' sdiag' permuted' w : Vector ℝ n) :
    norm (solveDampedTranspose tall (s'.damped tall diag x' sdiag' permuted').r
        (s'.damped tall diag x' sdiag' permuted').sdiag w).toList =
      norm (solveDampedTranspose tall (s.damped tall diag x sdiag permuted).r
        (s.damped tall diag x sdiag permuted).sdiag w).toList := by
  refine norm_eq_of_dot (dot_of_gram (@absorbed_isUnit m n tall s diag nonzero s.qtb)
    (@absorbed_isUnit m n tall s' diag nonzero s'.qtb) ?_ ?_)
  · -- A damped triangle has the products of the columns of `R` with those of the damping.
    rw [absorbed_gram, absorbed_gram, h.gram, h.pivots]
  · rw [s.damped_transpose nonzero, s'.damped_transpose nonzero]

theorem boundaryNormal_eq (diag scaled : Vector ℝ n) (length : ℝ) (buffer buffer' : Vector ℝ n) :
    s'.boundaryNormal diag scaled length buffer' = s.boundaryNormal diag scaled length buffer := by
  simp only [boundaryNormal, overwrite_eq_ofFn, h.pivots]

end Alike

end Triangular

/-! ### Trials -/

namespace Refinement

variable {s s' : Triangular ℝ m n} {diag : Vector ℝ n} {delta : ℝ}

/-- Two searches that are about to make the same trial. -/
structure Alike (tall : n ≤ m) (s s' : Triangular ℝ m n) (state state' : Refinement ℝ m n) :
    Prop where
  sound : state.Sound tall s
  sound' : state'.Sound tall s'
  par : state'.par = state.par
  lower : state'.lower = state.lower
  upper : state'.upper = state.upper
  error : state'.error = state.error

/-- Two searches that have made the same trial. -/
structure Tried (tall : n ≤ m) (s s' : Triangular ℝ m n) (state state' : Refinement ℝ m n) : Prop
    extends Alike tall s s' state state' where
  length : state'.length = state.length
  step : state'.buffers.x = state.buffers.x
  scaled : state'.buffers.scaled = state.buffers.scaled
  slope : ∀ w, norm (Triangular.solveDampedTranspose tall state'.r state'.buffers.sdiag w).toList =
    norm (Triangular.solveDampedTranspose tall state.r state.buffers.sdiag w).toList

variable {state state' : Refinement ℝ m n}

/-- The step of a trial with its entries scaled. -/
theorem attempt_scaled (s : Triangular ℝ m n) (diag : Vector ℝ n) (delta : ℝ)
    (state : Refinement ℝ m n) : (state.attempt tall s diag delta).1.buffers.scaled =
      Vector.ofFn fun j => diag.get j * (state.solved tall s diag).x.get j :=
  overwrite_eq_ofFn (state.solved tall s diag).permuted
    fun j => diag.get j * (state.solved tall s diag).x.get j

section

variable (alike : Triangular.Alike tall s s')
include alike

/-- The triangles at hand are alike as well. -/
theorem Alike.systems (h : Alike tall s s' state state') :
    Triangular.Alike tall { s with r := state.r } { s' with r := state'.r } :=
  alike.of_same h.sound.same h.sound'.same

variable (apart : Function.Injective s.pivots.get) (positive : ∀ j, 0 < diag.get j)
include apart positive

namespace Alike

variable (h : Alike tall s s' state state')
include h

/-- They find the same step, and corrections of the same length. -/
theorem solved_eq : (state'.solved tall s' diag).x = (state.solved tall s diag).x ∧
    ∀ w, norm (Triangular.solveDampedTranspose tall (state'.solved tall s' diag).r
        (state'.solved tall s' diag).sdiag w).toList =
      norm (Triangular.solveDampedTranspose tall (state.solved tall s diag).r
        (state.solved tall s diag).sdiag w).toList := by
  have nonzero := scaledDamping_ne_zero positive h.sound.par
  rw [overwrite_eq_ofFn] at nonzero
  have same : state'.damping = state.damping := by
    unfold damping
    rw [h.par, h.upper]
  unfold solved
  rw [same, overwrite_eq_ofFn, overwrite_eq_ofFn]
  have systems := h.systems alike
  refine ⟨?_, fun w => systems.norm_solveDampedTranspose nonzero ..⟩
  have permuted := systems.damped_eq nonzero state.buffers.x state.buffers.sdiag
    state.buffers.scaled state'.buffers.x state'.buffers.sdiag state'.buffers.scaled
  exact (congrArg₂ (scatter · · _) alike.pivots permuted).trans (scatter_congr apart ..)

/-- Two searches that are about to make the same trial make it, and with the same success. -/
theorem attempt :
    (state'.attempt tall s' diag delta).2 = (state.attempt tall s diag delta).2 ∧
      Tried tall s s' (state.attempt tall s diag delta).1
        (state'.attempt tall s' diag delta).1 := by
  obtain ⟨x, slope⟩ := h.solved_eq alike apart positive
  have scaled : (state'.attempt tall s' diag delta).1.buffers.scaled =
      (state.attempt tall s diag delta).1.buffers.scaled := by
    rw [attempt_scaled, attempt_scaled, x]
  have length : (state'.attempt tall s' diag delta).1.length =
      (state.attempt tall s diag delta).1.length :=
    congrArg (fun v : Vector ℝ n => norm v.toList) scaled
  have error : (state'.attempt tall s' diag delta).1.error =
      (state.attempt tall s diag delta).1.error :=
    congrArg (· - delta) length
  have settled (t : Triangular ℝ m n) (state : Refinement ℝ m n) :
      (state.attempt tall t diag delta).2 =
        decide (abs (state.attempt tall t diag delta).1.error ≤ 0.1 * delta ∨
          (state.lower == 0 ∧ (state.attempt tall t diag delta).1.error ≤ state.error ∧
            state.error < 0)) :=
    rfl
  constructor
  · rw [settled, settled, error, h.lower, h.error]
  · exact {
      sound := attempt_sound h.sound
      sound' := attempt_sound h.sound'
      par := congrArg₂ (fun par upper : ℝ =>
        if par == 0 then larger Numeric.tiny (0.001 * upper) else par) h.par h.upper
      lower := h.lower
      upper := h.upper
      step := x
      error, length, scaled, slope }

end Alike

end

/-- Trials alike are corrected alike. -/
theorem Tried.correct (alike : Triangular.Alike tall s s') (h : Tried tall s s' state state') :
    Alike tall s s' (state.correct tall s diag delta) (state'.correct tall s' diag delta) := by
  have normal : s'.boundaryNormal diag state'.buffers.scaled state'.length
      state'.buffers.direction =
      s.boundaryNormal diag state.buffers.scaled state.length state.buffers.direction := by
    rw [h.scaled, h.length]
    exact alike.boundaryNormal_eq ..
  have lower : (state'.correct tall s' diag delta).lower =
      (state.correct tall s diag delta).lower := by
    simp only [Refinement.correct, h.error, h.lower, h.par]
  have upper : (state'.correct tall s' diag delta).upper =
      (state.correct tall s diag delta).upper := by
    simp only [Refinement.correct, h.error, h.upper, h.par]
  have par : (state'.correct tall s' diag delta).par =
      (state.correct tall s diag delta).par := by
    simp only [Refinement.correct, normal, h.slope, h.error, h.lower, h.par]
  exact {
    sound := correct_sound h.sound
    sound' := correct_sound h.sound'
    error := h.error
    par, lower, upper }

/-- Two searches that are about to make the same trial end alike. -/
theorem Alike.run (alike : Triangular.Alike tall s s') (apart : Function.Injective s.pivots.get)
    (positive : ∀ j, 0 < diag.get j) (more : Nat) {state state' : Refinement ℝ m n}
    (h : Alike tall s s' state state') :
    Tried tall s s' (run tall s diag delta more state) (run tall s' diag delta more state') := by
  induction more generalizing state state' with
  | zero => exact (h.attempt alike apart positive).2
  | succ more ih =>
    obtain ⟨settled, tried⟩ := @Alike.attempt m n tall s s' diag delta state state' alike apart
      positive h
    rw [Refinement.run, Refinement.run]
    -- One decision for both, whether to go on.
    revert settled tried
    generalize state.attempt tall s diag delta = trial
    generalize state'.attempt tall s' diag delta = trial'
    obtain ⟨t, flag⟩ := trial
    obtain ⟨t', flag'⟩ := trial'
    rintro (rfl : flag' = flag) tried
    cases flag' with
    | true => exact tried
    | false => exact ih (tried.correct alike)

end Refinement

/-! ### Searches -/

namespace Triangular.Alike

variable {s s' : Triangular ℝ m n} {diag : Vector ℝ n} {delta par : ℝ}
  (h : Triangular.Alike tall s s')
include h

/-- Searches alike begin alike. -/
theorem bracket (radius : 0 < delta) (nonneg : 0 ≤ par) {length : ℝ} (long : delta ≤ length)
    {buffers buffers' : SearchBuffers ℝ n} (scaled : buffers'.scaled = buffers.scaled) :
    Refinement.Alike tall s s' (s.bracket tall diag delta par length buffers)
      (s'.bracket tall diag delta par length buffers') := by
  -- The slopes need not be of one vector, but only of one length.
  have slope : ¬ s.rank tall < n →
      norm (s'.forwardSubstitute tall
        (s'.boundaryNormal diag buffers'.scaled length buffers'.direction)).toList =
      norm (s.forwardSubstitute tall
        (s.boundaryNormal diag buffers.scaled length buffers.direction)).toList := by
    intro full
    rw [scaled, h.boundaryNormal_eq diag buffers.scaled length buffers.direction]
    exact h.norm_forwardSubstitute full _
  have lower : (s'.bracket tall diag delta par length buffers').lower =
      (s.bracket tall diag delta par length buffers).lower := by
    simp only [Triangular.bracket, h.rank_eq]
    by_cases full : s.rank tall < n
    · rw [if_pos full, if_pos full]
    · simp only [if_neg full, slope full]
  have upper : (s'.bracket tall diag delta par length buffers').upper =
      (s.bracket tall diag delta par length buffers).upper := by
    simp only [Triangular.bracket, scaledGradient_real, h.gradient, h.pivots]
  have par : (s'.bracket tall diag delta par length buffers').par =
      (s.bracket tall diag delta par length buffers).par := by
    have direction (t : Triangular ℝ m n) (buffers : SearchBuffers ℝ n) :
        (t.bracket tall diag delta par length buffers).buffers.direction =
          .ofFn fun j => t.gradient tall j / diag.get (t.pivots.get j) :=
      scaledGradient_real ..
    rw [bracket_par, bracket_par, lower, upper, direction, direction, h.gradient, h.pivots]
  exact {
    sound := bracket_sound radius nonneg long buffers
    sound' := bracket_sound radius nonneg long buffers'
    error := rfl
    par, lower, upper }

/-- Searches alike find the same damping and the same step. -/
theorem search (radius : 0 < delta) (nonneg : 0 ≤ par) (positive : ∀ j, 0 < diag.get j)
    (apart : Function.Injective s.pivots.get) (buffers buffers' : SearchBuffers ℝ n) :
    (s'.search tall diag delta par buffers').par = (s.search tall diag delta par buffers).par ∧
      (s'.search tall diag delta par buffers').buffers.x =
        (s.search tall diag delta par buffers).buffers.x := by
  obtain ⟨step, scaled⟩ : (s'.undampedStep tall diag buffers').x =
      (s.undampedStep tall diag buffers).x ∧ (s'.undampedStep tall diag buffers').scaled =
        (s.undampedStep tall diag buffers).scaled := by
    have step : (s'.undampedStep tall diag buffers').x = (s.undampedStep tall diag buffers).x := by
      dsimp only [undampedStep]
      rw [h.pivots, h.undamped_eq buffers.direction]
      exact scatter_congr apart ..
    exact ⟨step, by rw [undampedStep_scaled, undampedStep_scaled, step]⟩
  have length : s'.undampedLength tall diag buffers' = s.undampedLength tall diag buffers :=
    congrArg (fun v : Vector ℝ n => norm v.toList) scaled
  by_cases short : s.undampedLength tall diag buffers - delta ≤ 0.1 * delta
  · rw [search_of_short short, search_of_short (by rw [length]; exact short)]
    exact ⟨rfl, step⟩
  · have opened : Refinement.Alike tall s s' (s.opened tall diag buffers delta par)
        (s'.opened tall diag buffers' delta par) := by
      dsimp only [Triangular.opened]
      rw [length]
      exact h.bracket radius nonneg (le_of_leaves radius short) scaled
    have tried := @Refinement.Alike.run m n tall s s' diag delta h apart positive (maxTrials - 1)
      _ _ opened
    rw [search_of_long short, search_of_long (by rw [length]; exact short)]
    exact ⟨tried.par, tried.step⟩

end Triangular.Alike

end LeastSquares
