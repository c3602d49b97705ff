import LeastSquares.Proofs.Checked.Damped

/-!
# The damping search stays in bounds

On checked storage the search for the damping never meets an index out of bounds, and leaves what
the search itself does. The buffer that it is lent has to be as long as there are unknowns.
-/
namespace LeastSquares.Checked

variable {α : Type} [Scalar α] {m n k : Nat}

/-! ### Triangular solves -/

section

variable (tall : n ≤ m)

theorem truncate_all (s : Triangular α m n) (w : Vector α n) :
    loop 0 n (truncate s.r s.qtb) (w, n) = some
      (overwrite w fun j => if j < s.rank tall then s.qtb.get j else 0, s.rank tall) := by
  let zero (j : Fin n) : Bool := s.r.lead tall j j == 0
  let begun (j : Fin n) : α := if j < s.rank tall then s.qtb.get j else 0
  refine (loop_eq (Nat.le_refl n) (fun j => (filled 0 j begun w, foundBefore zero j))
    (Nat.zero_le n) (by rw [filled_self, foundBefore_zero]) ?_).trans ?_
  · intro j _ _
    have next := overwriteAt_filled (Nat.zero_le j) begun w
    have found : (if foundBefore zero j = n ∧ s.r.lead tall j j == 0 then j.val
        else foundBefore zero j) = foundBefore zero (j + 1) := foundBefore_succ zero j
    -- From the first zero of the diagonal on, what has just been copied is cleared.
    have kept : (if foundBefore zero (j + 1) < n then
        write (overwriteAt (filled 0 j begun w) j (s.qtb.get j)) j 0
        else some (overwriteAt (filled 0 j begun w) j (s.qtb.get j))) =
        some (filled 0 (j + 1) begun w) := by
      have bound : firstIndex zero ≤ n := firstIndex_le zero
      rw [write_val, overwriteAt_overwriteAt, ← next]
      by_cases leading : j < firstIndex zero
      · have none : ¬ foundBefore zero (j + 1) < n := by
          rw [foundBefore, if_neg (by omega)]
          exact Nat.lt_irrefl n
        have value : begun j = s.qtb.get j := if_pos leading
        rw [if_neg none, value]
      · have some : foundBefore zero (j + 1) < n := by
          rw [foundBefore, if_pos (by omega)]
          omega
        have value : begun j = 0 := if_neg leading
        rw [if_pos some, value]
    unfold truncate
    refine (bind_of_some (read_val s.qtb j) _).trans ((bind_of_some (write_val _ j _) _).trans ?_)
    refine (bind_of_some (readEntry_lead tall s.r j j) _).trans ?_
    rw [found]
    exact (bind_of_some kept _).trans rfl
  · rw [filled_all, foundBefore_all]
    rfl

theorem undamped_eq (s : Triangular α m n) (w : Vector α n) :
    undamped s.r s.qtb w = some (s.undamped tall w, s.rank tall) := by
  unfold undamped
  refine (bind_of_some (truncate_all tall s w) _).trans ?_
  have rank : s.rank tall ≤ n := firstIndex_le _
  refine (bind_of_some (loopDown_lift rank id _ fun j w below => ?_) _).trans rfl
  refine (bind_of_some (read_val w j) _).trans ?_
  refine (bind_of_some (readEntry_lead tall s.r j j) _).trans ?_
  refine (bind_of_some (write_val w j _) _).trans ?_
  refine (fill_eq (Nat.le_of_lt j.isLt) (fun i => w.get i - s.r.lead tall i j *
    (w.get j / s.r.lead tall j j)) _ fun i _ before => ?_).trans ?_
  · simp [readEntry_lead tall, Fin.ne_of_gt (Fin.lt_def.mpr before)]
  · rw [filled_eq (p := (· < j)) fun i => by omega]
    rfl

theorem boundaryNormal_eq (fits : n ≤ k) (s : Triangular α m n) (diag scaled : Vector α n)
    (length : α) (base : Vector α k) (w : Vector α n) :
    boundaryNormal (indices s.pivots) diag (kept base scaled) length w =
      some (s.boundaryNormal diag scaled length w) := by
  refine fill_all _ w fun j => ?_
  simp [read_kept fits]

theorem forwardSubstitute_eq (s : Triangular α m n) (w : Vector α n) :
    forwardSubstitute s.r w = some (s.forwardSubstitute tall w) := by
  refine loop_lift_all id w fun j w => ?_
  have product : (sum 0 j fun i => do return (← readEntry s.r i j) * (← read w i)) =
      some (sumWhere (· < j) fun i => s.r.lead tall i j * w.get i) := by
    refine sum_eq (Nat.le_of_lt j.isLt) (fun i => by omega) _ fun i _ => ?_
    simp [readEntry_lead tall]
  refine (bind_of_some product _).trans ?_
  simp [readEntry_lead tall]

theorem scaledGradient_eq (s : Triangular α m n) (diag w : Vector α n) :
    scaledGradient (indices s.pivots) diag s.qtb s.r w = some (s.scaledGradient tall diag w) := by
  refine fill_all _ w fun j => ?_
  have product : (sum 0 (j + 1) fun i => do return (← readEntry s.r i j) * (← read s.qtb i)) =
      some (sumWhere (· ≤ j) fun i => s.r.lead tall i j * s.qtb.get i) := by
    refine sum_eq j.isLt (fun i => by omega) _ fun i _ => ?_
    simp [readEntry_lead tall]
  refine (bind_of_some product _).trans ?_
  simp

theorem solveDampedTranspose_eq (r : Columns α m n) (sdiag w : Vector α n) :
    solveDampedTranspose r sdiag w = some (Triangular.solveDampedTranspose tall r sdiag w) := by
  refine loop_lift_all id w fun j w => ?_
  refine (bind_of_some (read_val w j) _).trans ((bind_of_some (read_val sdiag j) _).trans ?_)
  refine (bind_of_some (write_val w j _) _).trans ?_
  refine (fill_eq (Nat.le_refl n) (fun i => w.get i - r.lead tall i j *
    (w.get j / sdiag.get j)) _ fun i after _ => ?_).trans ?_
  · simp [readEntry_lead tall, Fin.ne_of_lt (Fin.lt_def.mpr after)]
  · rw [filled_eq (p := (j < ·)) fun i => by omega]
    rfl

theorem scaleStep_eq (fits : n ≤ k) (diag x scaled : Vector α n) (base : Vector α k) :
    scaleStep diag x (kept base scaled) = some
      (kept base (overwrite scaled fun j => diag.get j * x.get j),
        norm (overwrite scaled fun j => diag.get j * x.get j).toList) := by
  have products : fill 0 n (fun j _ => do return (← read diag j) * (← read x j))
      (kept base scaled) = some (kept base (overwrite scaled fun j => diag.get j * x.get j)) := by
    rw [fill_head fits _ scaled (fun j => diag.get j * x.get j) fun i v => by simp, kept_kept]
  unfold scaleStep
  refine (bind_of_some products _).trans ?_
  exact (bind_of_some (slice_kept fits base _) _).trans rfl

omit [Scalar α] in
/-- A vector cannot be filled past its end. -/
theorem fill_eq_none {β : Type} {f : Nat → Vector β k → Option β} (short : k < n)
    (v : Vector β k) : fill 0 n f v = none := by
  refine loop_eq_none (Nat.zero_le k) short (fun v => ?_) v
  rw [Option.bind_eq_bind, Option.bind_eq_none_iff]
  exact fun x _ => dif_neg (Nat.lt_irrefl k)

end

/-! ### Trials -/

/-- The storage of a search whose last buffer is the head of `base`. -/
def Scratch.stored (base : Vector α k) (r : Columns α m n) (b : SearchBuffers α n) :
    Scratch α m n k :=
  ⟨r, b.x, b.sdiag, b.direction, kept base b.scaled⟩

namespace Refinement

def stored (base : Vector α k) (state : LeastSquares.Refinement α m n) : Refinement α m n k :=
  { par := state.par
    lower := state.lower
    upper := state.upper
    length := state.length
    error := state.error
    trials := state.trials
    scratch := .stored base state.r state.buffers }

variable (tall : n ≤ m) (fits : n ≤ k) (s : Triangular α m n) (diag : Vector α n) (delta : α)
  (base : Vector α k)

include fits

theorem correct_eq (state : LeastSquares.Refinement α m n) :
    (stored base state).correct (indices s.pivots) diag delta =
      some (stored base (state.correct tall s diag delta)) := by
  unfold correct
  refine (bind_of_some (boundaryNormal_eq fits s diag _ _ base _) _).trans ?_
  refine (bind_of_some (solveDampedTranspose_eq tall _ _ _) _).trans ?_
  exact (bind_of_some (slice_drop _ (Nat.zero_le n)) _).trans rfl

variable (zero : ((0 : α) == 0) = true)

include zero

theorem attempt_eq (state : LeastSquares.Refinement α m n) :
    (stored base state).attempt (indices s.pivots) diag s.qtb delta =
      let next := state.attempt tall s diag delta
      some (stored base next.1, next.2) := by
  let par := if state.par == 0 then larger Numeric.tiny (0.001 * state.upper) else state.par
  let b := state.buffers
  let damping := overwrite b.direction fun j => sqrt par * diag.get j
  let done := Triangular.damped tall { s with r := state.r } damping b.x b.sdiag b.scaled
  have direction : fill 0 n (fun j _ => do return sqrt par * (← read diag j)) b.direction =
      some damping := fill_all _ _ fun j => by simp
  have solved := Scratch.damped_eq tall fits zero { s with r := state.r } damping b.x b.sdiag
    b.scaled damping base
  unfold attempt
  refine (bind_of_some direction _).trans ((bind_of_some solved _).trans ?_)
  exact (bind_of_some (scaleStep_eq fits diag done.x done.permuted base) _).trans rfl

theorem run_eq (more : Nat) (state : LeastSquares.Refinement α m n) :
    (stored base state).run (indices s.pivots) diag s.qtb delta more =
      some (stored base (LeastSquares.Refinement.run tall s diag delta more state)) := by
  induction more generalizing state with
  | zero => exact (bind_of_some (attempt_eq tall fits s diag delta base zero state) _).trans rfl
  | succ more ih =>
    unfold run LeastSquares.Refinement.run
    refine (bind_of_some (attempt_eq tall fits s diag delta base zero state) _).trans ?_
    obtain ⟨tried, settled⟩ := state.attempt tall s diag delta
    cases settled with
    | true => rfl
    | false =>
      refine (bind_of_some (correct_eq tall fits s diag delta base tried) _).trans ?_
      exact ih _

end Refinement

/-! ### The search -/

namespace Scratch

variable (tall : n ≤ m) (fits : n ≤ k) (s : Triangular α m n) (diag : Vector α n) (delta par : α)
  (base : Vector α k)

include fits

theorem bracket_eq (length : α) (b : SearchBuffers α n) :
    (stored base s.r b).bracket (indices s.pivots) diag s.qtb delta par length (s.rank tall) =
      some (.stored base (s.bracket tall diag delta par length b)) := by
  -- The bound that a Newton step at zero gives, and what it leaves in the direction.
  let normal := if s.rank tall < n then b.direction
    else s.forwardSubstitute tall (s.boundaryNormal diag b.scaled length b.direction)
  let slope := norm normal.toList
  let lower := if s.rank tall < n then 0 else (length - delta) / delta / slope / slope
  have newton : (stored base s.r b).newtonBound (indices s.pivots) diag delta length (s.rank tall) =
      some (lower, normal) := by
    unfold newtonBound
    by_cases singular : s.rank tall < n
    · simp only [if_pos singular, lower, normal]
      rfl
    · have direction : normal = s.forwardSubstitute tall
          (s.boundaryNormal diag b.scaled length b.direction) := if_neg singular
      have bound : lower = (length - delta) / delta / slope / slope := if_neg singular
      rw [if_neg singular, bound, show slope = norm normal.toList from rfl, direction]
      refine (bind_of_some (boundaryNormal_eq fits s diag _ _ base _) _).trans ?_
      refine (bind_of_some (forwardSubstitute_eq tall s _) _).trans ?_
      exact (bind_of_some (slice_drop _ (Nat.zero_le n)) _).trans rfl
  unfold bracket
  refine (bind_of_some newton _).trans ?_
  refine (bind_of_some (scaledGradient_eq tall s diag normal) _).trans ?_
  exact (bind_of_some (slice_drop _ (Nat.zero_le n)) _).trans rfl

variable (zero : ((0 : α) == 0) = true)

include zero

theorem search_eq (b : SearchBuffers α n) (base : Vector α k) :
    (stored base s.r b).search (indices s.pivots) diag s.qtb delta par =
      let found := s.search tall diag delta par b
      some ⟨found.par, found.trials, stored base found.r found.buffers⟩ := by
  let direction := s.undamped tall b.direction
  let x := LeastSquares.scatter s.pivots direction b.x
  let scaled := overwrite b.scaled fun j => diag.get j * x.get j
  let length := norm scaled.toList
  have scatter : scatter (indices s.pivots) direction b.x = some x :=
    scatter_eq s.pivots direction b.x fun j => read_val ..
  have scaleStep : scaleStep diag x (kept base b.scaled) = some (kept base scaled, length) :=
    scaleStep_eq fits diag x b.scaled base
  unfold search
  refine (bind_of_some (undamped_eq tall s b.direction) _).trans ?_
  refine (bind_of_some scatter _).trans ((bind_of_some scaleStep _).trans ?_)
  by_cases short : length - delta ≤ 0.1 * delta
  · have found : s.search tall diag delta par b =
        ⟨0, 0, s.r, { b with x, direction, scaled }⟩ := if_pos short
    rw [found]
    exact if_pos short
  · let first := s.bracket tall diag delta par length { b with x, direction, scaled }
    let last := LeastSquares.Refinement.run tall s diag delta (maxTrials - 1) first
    have found : s.search tall diag delta par b =
        ⟨last.par, last.trials, last.r, last.buffers⟩ := if_neg short
    rw [found]
    refine (if_neg short).trans ?_
    refine (bind_of_some (bracket_eq tall fits s diag delta par base length
      { b with x, direction, scaled }) _).trans ?_
    exact (bind_of_some (Refinement.run_eq tall fits s diag delta base zero _ first) _).trans rfl

omit tall fits zero in
/-- A search that is lent too short a buffer does meet an index out of bounds. -/
theorem search_eq_none (short : k < n) (pivots : Vector Nat n) (diag qtb : Vector α n)
    (delta par : α) (s : Scratch α m n k) : s.search pivots diag qtb delta par = none := by
  have stuck (x : Vector α n) : scaleStep diag x s.scaled = none := by
    rw [scaleStep, fill_eq_none short]
    rfl
  unfold search
  refine Option.bind_eq_none_iff.mpr fun found _ => ?_
  refine Option.bind_eq_none_iff.mpr fun x _ => ?_
  rw [stuck x]
  rfl

end Scratch

end LeastSquares.Checked
