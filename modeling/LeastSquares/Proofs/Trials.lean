import Mathlib.Data.Fintype.EquivFin
import Mathlib.Data.Fintype.Card
import Mathlib.Logic.Function.Iterate
import LeastSquares.Proofs.Divisors

/-!
# The trials of a search

A search makes one trial after another, each with the damping that the one before was corrected to,
until a trial is good enough or it is the tenth. What it hands over is what that trial has left:
the damping, the step and the triangle of one and the same damped solve, which has read nothing of
the storage but the triangle `R`.
-/
namespace LeastSquares

variable {α : Type} [Scalar α] {m n : Nat}

omit [Scalar α] in
/-- Of a buffer that all values are written to, nothing is left. -/
theorem scatter_congr {place : Vector (Fin n) n} (apart : Function.Injective place.get)
    (w v v' : Vector α n) : scatter place w v = scatter place w v' := by
  apply eq_of_get_eq
  intro i
  obtain ⟨j, rfl⟩ := Finite.surjective_of_injective apart i
  rw [get_scatter apart, get_scatter apart]

/-! ### Trial after trial -/

namespace Refinement

section

variable (tall : n ≤ m) (s : Triangular α m n) (diag : Vector α n) (delta : α)

/-- The state in which trial `k` is made, counted from zero, if the search gets there. -/
def pass (k : Nat) : Refinement α m n → Refinement α m n :=
  (fun state => (state.attempt tall s diag delta).1.correct tall s diag delta)^[k]

/-- What trial `k` leaves. -/
def tried (k : Nat) (start : Refinement α m n) : Refinement α m n :=
  ((start.pass tall s diag delta k).attempt tall s diag delta).1

theorem pass_succ (k : Nat) (start : Refinement α m n) :
    start.pass tall s diag delta (k + 1) =
      (start.tried tall s diag delta k).correct tall s diag delta :=
  Function.iterate_succ_apply' ..

/-- A search ends with a trial that is good enough, or with the last one it is allowed. -/
theorem run_eq_tried (more : Nat) (start : Refinement α m n) :
    ∃ k ≤ more, run tall s diag delta more start = start.tried tall s diag delta k ∧
      (k < more → ((start.pass tall s diag delta k).attempt tall s diag delta).2 = true) := by
  induction more generalizing start with
  | zero => exact ⟨0, Nat.le_refl 0, rfl, fun none => absurd none (Nat.not_lt_zero 0)⟩
  | succ more ih =>
    rw [run]
    split
    next t good =>
      refine ⟨0, Nat.zero_le _, ?_, fun _ => ?_⟩
      · exact (congrArg Prod.fst good).symm
      · exact congrArg Prod.snd good
    next t poor =>
      have next : (start.attempt tall s diag delta).1.correct tall s diag delta =
          t.correct tall s diag delta := by rw [poor]
      obtain ⟨k, within, ends, last⟩ := ih (t.correct tall s diag delta)
      rw [← next] at ends last
      exact ⟨k + 1, Nat.succ_le_succ within, next ▸ ends,
        fun early => last (Nat.lt_of_succ_lt_succ early)⟩

theorem pass_trials (k : Nat) (start : Refinement α m n) :
    (start.pass tall s diag delta k).trials = start.trials + k := by
  induction k with
  | zero => rfl
  | succ k ih => exact (congrArg Refinement.trials (pass_succ ..)).trans (congrArg (· + 1) ih)

theorem tried_trials (k : Nat) (start : Refinement α m n) :
    (start.tried tall s diag delta k).trials = start.trials + k + 1 :=
  congrArg (· + 1) (pass_trials tall s diag delta k start)

theorem pass_sameUpper (k : Nat) (start : Refinement α m n) :
    start.r.SameUpper tall (start.pass tall s diag delta k).r := by
  induction k with
  | zero => exact .refl tall start.r
  | succ k ih =>
    rw [pass_succ]
    exact ih.trans (attempt_sameUpper tall s diag delta _)

end

/-! ### What a trial reads -/

variable {tall : n ≤ m} {s : Triangular α m n} {diag : Vector α n} {delta : α}

/-- As the triangle is still that of the system, a trial leaves what a single damped solve of the
system does, whatever the buffers of that solve hold. -/
theorem attempt_solved (delta : α) {state : Refinement α m n} (same : s.r.SameUpper tall state.r)
    (x sdiag permuted : Vector α n) :
    let tried := (state.attempt tall s diag delta).1
    let done := s.damped tall (.ofFn fun j => sqrt tried.par * diag.get j) x sdiag permuted
    tried.r = done.r ∧ tried.buffers.x = done.x ∧ tried.buffers.sdiag = done.sdiag := by
  have solved : state.solved tall s diag = s.damped tall
      (.ofFn fun j => sqrt state.damping * diag.get j) x sdiag permuted := by
    rw [← overwrite_eq_ofFn state.buffers.direction]
    exact s.damped_congr same ..
  exact ⟨congrArg DampedSolution.r solved, congrArg DampedSolution.x solved,
    congrArg DampedSolution.sdiag solved⟩

/-- Two states, of searches in storages that hold the same triangle `R`, that agree on everything
else that a trial reads. -/
structure Agree (tall : n ≤ m) (s : Triangular α m n) (state state' : Refinement α m n) : Prop where
  par : state'.par = state.par
  lower : state'.lower = state.lower
  upper : state'.upper = state.upper
  error : state'.error = state.error
  trials : state'.trials = state.trials
  same : s.r.SameUpper tall state.r
  same' : s.r.SameUpper tall state'.r

/-- Nothing of the difference between them is left by a trial. -/
theorem Agree.attempt {state state' : Refinement α m n} (h : Agree tall s state state')
    (r : Columns α m n) : state'.attempt tall { s with r } diag delta =
      state.attempt tall s diag delta := by
  obtain ⟨par, lower, upper, error, trials, same, same'⟩ := h
  obtain ⟨par, lower, upper, length, error, trials, r₁, b⟩ := state
  obtain ⟨par', lower', upper', length', error', trials', r₂, b'⟩ := state'
  subst par lower upper error trials
  have solved (damping : Vector α n) :
      Triangular.damped tall { s with r := r₂ } damping b'.x b'.sdiag b'.scaled =
        Triangular.damped tall { s with r := r₁ } damping b.x b.sdiag b.scaled := by
    rw [s.damped_congr same' damping b.x b.sdiag b.scaled, s.damped_congr same]
  simp only [Refinement.attempt, overwrite_eq_ofFn, solved]

/-- So nothing of it is left by a search. -/
theorem Agree.run (more : Nat) {state state' : Refinement α m n} (h : Agree tall s state state')
    (r : Columns α m n) : run tall { s with r } diag delta more state' =
      run tall s diag delta more state := by
  induction more generalizing state state' with
  | zero => exact congrArg Prod.fst (h.attempt r)
  | succ more ih =>
    have tried := attempt_sameUpper tall s diag delta state
    rw [Refinement.run, Refinement.run, h.attempt r]
    split
    next => rfl
    next t poor =>
      rw [poor] at tried
      have same : s.r.SameUpper tall (t.correct tall s diag delta).r := h.same.trans tried
      exact ih ⟨rfl, rfl, rfl, rfl, rfl, same, same⟩

/-- What a search hands over that ends in this state. -/
def found (state : Refinement α m n) : Search α m n :=
  ⟨state.par, state.trials, state.r, state.buffers⟩

end Refinement

/-! ### Searches -/

namespace Triangular

section

variable (tall : n ≤ m) (s : Triangular α m n) (diag : Vector α n) (buffers : SearchBuffers α n)

/-- The undamped step, and its scaled form. -/
def undampedStep : SearchBuffers α n :=
  let direction := s.undamped tall buffers.direction
  let x := scatter s.pivots direction buffers.x
  { buffers with x, direction, scaled := overwrite buffers.scaled fun j => diag.get j * x.get j }

def undampedLength : α :=
  norm (s.undampedStep tall diag buffers).scaled.toList

/-- The state in which the first trial is made. -/
def opened (delta par : α) : Refinement α m n :=
  s.bracket tall diag delta par (s.undampedLength tall diag buffers)
    (s.undampedStep tall diag buffers)

end

variable {tall : n ≤ m} {s : Triangular α m n} {diag : Vector α n} {delta par : α}
  {buffers : SearchBuffers α n}

theorem undampedStep_scaled (tall : n ≤ m) (s : Triangular α m n) (diag : Vector α n)
    (buffers : SearchBuffers α n) : (s.undampedStep tall diag buffers).scaled =
      .ofFn fun j => diag.get j * (s.undampedStep tall diag buffers).x.get j :=
  overwrite_eq_ofFn buffers.scaled
    fun j => diag.get j * (s.undampedStep tall diag buffers).x.get j

theorem search_of_short (short : s.undampedLength tall diag buffers - delta ≤ 0.1 * delta) :
    s.search tall diag delta par buffers = ⟨0, 0, s.r, s.undampedStep tall diag buffers⟩ :=
  if_pos short

theorem search_of_long (long : ¬ s.undampedLength tall diag buffers - delta ≤ 0.1 * delta) :
    s.search tall diag delta par buffers =
      (Refinement.run tall s diag delta (maxTrials - 1)
        (s.opened tall diag buffers delta par)).found :=
  if_neg long

/-- A search that makes trials ends with one of the first ten, and what it hands over is what that
trial left. If it is not the tenth, it was good enough. -/
theorem search_ends (long : ¬ s.undampedLength tall diag buffers - delta ≤ 0.1 * delta) :
    let start := s.opened tall diag buffers delta par
    ∃ k < maxTrials,
      s.search tall diag delta par buffers = (start.tried tall s diag delta k).found ∧
      (s.search tall diag delta par buffers).trials = k + 1 ∧
      (k + 1 < maxTrials →
        ((start.pass tall s diag delta k).attempt tall s diag delta).2 = true) := by
  intro start
  obtain ⟨k, within, ends, last⟩ := Refinement.run_eq_tried tall s diag delta (maxTrials - 1) start
  have here := @search_of_long α _ m n tall s diag delta par buffers long
  rw [ends] at here
  refine ⟨k, Nat.lt_of_le_pred (by decide) within, here, ?_, fun early => last (by omega)⟩
  rw [here]
  exact (Refinement.tried_trials ..).trans (congrArg (· + 1) (Nat.zero_add k))

/-! ### What a search reads -/

theorem sumWhere_congr {p : Fin n → Prop} [DecidablePred p] {f g : Fin n → α}
    (same : ∀ i, p i → f i = g i) : sumWhere p f = sumWhere p g := by
  refine congrArg (Fin.foldl n · 0) (funext fun sum => funext fun i => ?_)
  by_cases inside : p i
  · rw [if_pos inside, if_pos inside, same i inside]
  · rw [if_neg inside, if_neg inside]

theorem rank_congr {r : Columns α m n} (same : s.r.SameUpper tall r) :
    rank tall { s with r } = s.rank tall :=
  congrArg firstIndex (funext fun j => congrArg (· == 0) (same.diagonal j))

theorem undamped_congr {r : Columns α m n} (same : s.r.SameUpper tall r)
    (buffer buffer' : Vector α n) :
    undamped tall { s with r } buffer' = s.undamped tall buffer := by
  have step (j : Fin n) (w : Vector α n) :
      overwriteWhere (overwriteAt w j (w.get j / r.lead tall j j)) (· < j)
          (fun i => w.get i - r.lead tall i j * (w.get j / r.lead tall j j)) =
        overwriteWhere (overwriteAt w j (w.get j / s.r.lead tall j j)) (· < j)
          (fun i => w.get i - s.r.lead tall i j * (w.get j / s.r.lead tall j j)) := by
    apply eq_of_get_eq
    intro i
    rw [get_overwriteWhere, get_overwriteWhere, same.diagonal]
    by_cases above : i < j
    · rw [if_pos above, if_pos above, same.lead_eq (Fin.le_of_lt above)]
    · rw [if_neg above, if_neg above]
  simp only [undamped, rank_congr same, step, overwrite_eq_ofFn]

theorem forwardSubstitute_congr {r : Columns α m n} (same : s.r.SameUpper tall r) (w : Vector α n) :
    forwardSubstitute tall { s with r } w = s.forwardSubstitute tall w := by
  have sum (w : Vector α n) (j : Fin n) : sumWhere (· < j) (fun i => r.lead tall i j * w.get i) =
      sumWhere (· < j) fun i => s.r.lead tall i j * w.get i :=
    sumWhere_congr fun i before => by rw [same.lead_eq (Fin.le_of_lt before)]
  simp only [forwardSubstitute, sum, same.diagonal]

theorem scaledGradient_congr {r : Columns α m n} (same : s.r.SameUpper tall r)
    (diag buffer buffer' : Vector α n) :
    scaledGradient tall { s with r } diag buffer' = s.scaledGradient tall diag buffer := by
  have sum (j : Fin n) : sumWhere (· ≤ j) (fun i => r.lead tall i j * s.qtb.get i) =
      sumWhere (· ≤ j) fun i => s.r.lead tall i j * s.qtb.get i :=
    sumWhere_congr fun i upper => by rw [same.lead_eq upper]
  simp only [scaledGradient, sum, overwrite_eq_ofFn]

theorem bracket_par (tall : n ≤ m) (s : Triangular α m n) (diag : Vector α n)
    (delta par length : α) (buffers : SearchBuffers α n) :
    let b := s.bracket tall diag delta par length buffers
    b.par = firstDamping par b.lower b.upper (norm b.buffers.direction.toList) length :=
  rfl

/-- The bounds of a search do not show what its storage held. -/
theorem bracket_agree {r : Columns α m n} (same : s.r.SameUpper tall r) (length : α)
    {b b' : SearchBuffers α n} (scaled : b'.scaled = b.scaled) :
    Refinement.Agree tall s (s.bracket tall diag delta par length b)
      (bracket tall { s with r } diag delta par length b') := by
  have normal : boundaryNormal { s with r } diag b'.scaled length b'.direction =
      s.boundaryNormal diag b.scaled length b.direction := by
    simp only [boundaryNormal, scaled, overwrite_eq_ofFn]
  have lower : (bracket tall { s with r } diag delta par length b').lower =
      (s.bracket tall diag delta par length b).lower := by
    by_cases full : s.rank tall < n
    · simp only [bracket, rank_congr same, if_pos full]
    · simp only [bracket, rank_congr same, if_neg full, normal, forwardSubstitute_congr same]
  have direction : (bracket tall { s with r } diag delta par length b').buffers.direction =
      (s.bracket tall diag delta par length b).buffers.direction :=
    scaledGradient_congr same diag ..
  have upper : (bracket tall { s with r } diag delta par length b').upper =
      (s.bracket tall diag delta par length b).upper :=
    congrArg (fun gradient : Vector α n => gradientBound delta (norm gradient.toList)) direction
  exact {
    par := by rw [bracket_par, bracket_par, lower, upper, direction]
    lower, upper
    error := rfl
    trials := rfl
    same := .refl tall s.r
    same' := same }

theorem undampedStep_congr {r : Columns α m n} (same : s.r.SameUpper tall r)
    (apart : Function.Injective s.pivots.get) (b b' : SearchBuffers α n) :
    (undampedStep tall { s with r } diag b').x = (s.undampedStep tall diag b).x ∧
      (undampedStep tall { s with r } diag b').scaled = (s.undampedStep tall diag b).scaled := by
  have x : (undampedStep tall { s with r } diag b').x = (s.undampedStep tall diag b).x := by
    dsimp only [undampedStep]
    rw [undamped_congr same]
    exact scatter_congr apart ..
  refine ⟨x, ?_⟩
  rw [undampedStep_scaled, undampedStep_scaled, x]

/-- The damping, the number of trials and the step depend on nothing that the storage held but the
triangle. After a trial, neither does anything else. -/
theorem search_congr {r : Columns α m n} (same : s.r.SameUpper tall r)
    (apart : Function.Injective s.pivots.get) (delta par : α) (b b' : SearchBuffers α n) :
    let found := s.search tall diag delta par b
    let found' := search tall { s with r } diag delta par b'
    found'.par = found.par ∧ found'.trials = found.trials ∧ found'.buffers.x = found.buffers.x ∧
      (found.trials ≠ 0 → found' = found) := by
  intro found found'
  obtain ⟨x, scaled⟩ := @undampedStep_congr α _ m n tall s diag r same apart b b'
  have length : undampedLength tall { s with r } diag b' = s.undampedLength tall diag b :=
    congrArg (fun v : Vector α n => norm v.toList) scaled
  by_cases short : s.undampedLength tall diag b - delta ≤ 0.1 * delta
  · have here : found = _ := search_of_short short
    have there : found' = _ := search_of_short (by rw [length]; exact short)
    rw [here, there]
    exact ⟨rfl, rfl, x, fun trial => absurd rfl trial⟩
  · have here : found = _ := search_of_long short
    have there : found' = _ := search_of_long (by rw [length]; exact short)
    have opened : Refinement.Agree tall s (s.opened tall diag b delta par)
        (opened tall { s with r } diag b' delta par) := by
      unfold opened
      rw [length]
      exact bracket_agree same _ scaled
    have whole : found' = found := by rw [here, there, opened.run]
    rw [whole]
    exact ⟨rfl, rfl, rfl, fun _ => rfl⟩

/-- A search without a trial leaves the triangle alone. Otherwise it has made ten trials at most,
and leaves what a single damped solve does with the damping it reports. -/
theorem search_solved (tall : n ≤ m) (s : Triangular α m n) (diag : Vector α n) (delta par : α)
    (buffers : SearchBuffers α n) :
    let found := s.search tall diag delta par buffers
    (found.trials = 0 → found.par = 0 ∧ found.r = s.r ∧ found.buffers.sdiag = buffers.sdiag) ∧
    found.trials ≤ maxTrials ∧
    (found.trials ≠ 0 → ∀ x sdiag permuted : Vector α n,
      let done := s.damped tall (.ofFn fun j => sqrt found.par * diag.get j) x sdiag permuted
      found.r = done.r ∧ found.buffers.x = done.x ∧ found.buffers.sdiag = done.sdiag) := by
  intro found
  by_cases short : s.undampedLength tall diag buffers - delta ≤ 0.1 * delta
  · have here : found = _ := search_of_short short
    rw [here]
    exact ⟨fun _ => ⟨rfl, rfl, rfl⟩, Nat.zero_le _, fun trial => absurd rfl trial⟩
  · obtain ⟨k, within, here, trials, -⟩ := @search_ends α _ m n tall s diag delta par buffers short
    have here : found = _ := here
    have trials : found.trials = k + 1 := trials
    refine ⟨fun none => absurd (trials.symm.trans none) (Nat.succ_ne_zero k),
      trials.trans_le within, fun _ x sdiag permuted => ?_⟩
    have same : s.r.SameUpper tall _ :=
      Refinement.pass_sameUpper tall s diag delta k (s.opened tall diag buffers delta par)
    rw [here]
    exact Refinement.attempt_solved delta same x sdiag permuted

end Triangular

end LeastSquares
