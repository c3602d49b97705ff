import LeastSquares.Checked.Attempt
import LeastSquares.Proofs.Checked.Search

/-!
# Trying a step stays in bounds

On checked storage a trial never meets an index out of bounds if there are at least as many
residuals as parameters, and leaves what the trial itself does. It is then that the buffer of the
residuals is long enough for the search.
-/
namespace LeastSquares.Checked

variable {α : Type} [Scalar α] {m n : Nat}

/-! ### The image of a step -/

theorem sumWhere_succ {i j : Fin n} (le : i ≤ j) (f : Fin n → α) :
    sumWhere (fun l : Fin n => i ≤ l ∧ l.val < j + 1) f =
      sumWhere (fun l : Fin n => i ≤ l ∧ l < j) f + f j := by
  let value (l : Nat) : Option α := if inside : l < n then some (f ⟨l, inside⟩) else none
  have known (l : Fin n) : value l = some (f l) := dif_pos l.isLt
  have shorter : sum i j value = some (sumWhere (fun l : Fin n => i ≤ l ∧ l < j) f) :=
    sum_eq (Nat.le_of_lt j.isLt) (fun _ => Iff.rfl) f fun l _ => known l
  have longer : sum i (j + 1) value =
      some (sumWhere (fun l : Fin n => i ≤ l ∧ l.val < j + 1) f) :=
    sum_eq j.isLt (fun _ => Iff.rfl) f fun l _ => known l
  have split : sum i (j + 1) value = (sum i j value).bind fun s => do return s + (← value j) :=
    loop_succ le _ 0
  rw [shorter, longer, known] at split
  exact Option.some.inj split

theorem sumWhere_none {p : Fin n → Prop} [DecidablePred p] (none : ∀ l, ¬ p l) (f : Fin n → α) :
    sumWhere p f = 0 :=
  foldl_skipped none 0

theorem image_eq (tall : n ≤ m) (r : Columns α m n) (pivots : Vector (Fin n) n)
    (step w : Vector α n) :
    image r (indices pivots) step w = some (Reduction.image tall r pivots step w) := by
  let term (i l : Fin n) : α := r.lead tall i l * step.get (pivots.get l)
  -- The rows that have started hold their sums over the columns added so far.
  let rows (j : Nat) (i : Fin n) : α := sumWhere (fun l : Fin n => i ≤ l ∧ l.val < j) (term i)
  have done : filled 0 n (rows n) w = Reduction.image tall r pivots step w :=
    eq_of_get_eq fun i => by simp [filled_all, rows, term, Reduction.image]
  refine (loop_eq (Nat.le_refl n) (fun j => filled 0 j (rows j) w) (Nat.zero_le n)
    (filled_self ..) ?_).trans (congrArg some done)
  intro j _ _
  have size : read step (pivots.get j) = some (step.get (pivots.get j)) := read_val ..
  have added : fill 0 (j + 1) (fun i w => do
      return (← read w i) + (← readEntry r i j) * step.get (pivots.get j))
      (overwriteAt (filled 0 j (rows j) w) j 0) = some (filled 0 (j + 1) (rows (j + 1)) w) := by
    let begun := overwriteAt (filled 0 j (rows j) w) j 0
    have row {i : Fin n} (le : i ≤ j) : begun.get i + term i j = rows (j + 1) i := by
      have before : begun.get i = rows j i := by
        rcases Fin.lt_or_eq_of_le le with earlier | rfl
        · simp [begun, get_filled, Fin.ne_of_gt earlier, Fin.lt_def.mp earlier]
        · have none : rows i i = 0 :=
            sumWhere_none (fun l range => Nat.not_lt_of_le range.1 range.2) _
          simp [begun, none]
      rw [before]
      exact (sumWhere_succ le (term i)).symm
    rw [fill_eq j.isLt (fun i => begun.get i + term i j) begun fun i _ _ => by
      simp [readEntry_lead tall, term]]
    refine congrArg some (eq_of_get_eq fun i => ?_)
    simp only [get_filled]
    split
    next inside => exact row (Nat.le_of_lt_succ inside.2)
    next outside =>
      have after : j.val < i := by omega
      simp [begun, Fin.ne_of_lt (Fin.lt_def.mpr after), Nat.le_of_lt after]
  unfold addColumn
  refine (bind_of_some (write_val _ j _) _).trans ?_
  refine (bind_of_some (read_indices pivots j) _).trans ?_
  exact (bind_of_some size _).trans added

/-! ### The step of a solve -/

variable {p : Problem α} (tall : p.parameterCount ≤ p.residualCount) (c : Config α) (s : State p)

theorem placeStep_eq : placeStep s = some s.placeStep := by
  let step (j : Fin p.parameterCount) : α := -s.buffers.step.get j
  let point (j : Fin p.parameterCount) : α := s.x.get j + step j
  let scaled (j : Fin p.parameterCount) : α := s.diag.get j * step j
  have placed : loop 0 p.parameterCount (placeEntry s.x s.diag)
      (s.buffers.step, s.buffers.point, s.buffers.scaled) =
      some (overwrite s.buffers.step step, overwrite s.buffers.point point,
        overwrite s.buffers.scaled scaled) := by
    refine (loop_eq (Nat.le_refl _) (fun j => (filled 0 j step s.buffers.step,
      filled 0 j point s.buffers.point, filled 0 j scaled s.buffers.scaled)) (Nat.zero_le _)
      (by simp only [filled_self]) ?_).trans (by simp only [filled_all])
    intro j _ _
    have next (g : Fin p.parameterCount → α) (v : Vector α p.parameterCount) :=
      overwriteAt_filled (Nat.zero_le j) g v
    simp [placeEntry, ← next, step, point, scaled]
  unfold placeStep State.placeStep
  refine (bind_of_some placed _).trans ?_
  simp [step, point, scaled]

theorem searchStep_eq (zero : ((0 : α) == 0) = true) : searchStep s = some (s.searchStep tall) := by
  let b := s.buffers
  let lent := head tall b.trial
  have found := Scratch.search_eq tall tall ⟨b.jacobian, b.pivots, b.qtf⟩ s.diag s.region.delta
    s.region.par zero ⟨b.step, b.point, b.scaled, lent⟩ b.trial
  rw [Scratch.stored, kept_head] at found
  unfold searchStep
  exact (bind_of_some found _).trans rfl

theorem judge_eq (length : α) : judge length s = some (s.judge tall length) := by
  unfold judge
  refine (bind_of_some (image_eq tall _ _ _ _) _).trans ?_
  exact (bind_of_some (slice_drop _ (Nat.zero_le _)) _).trans rfl

theorem accept_eq : accept s = some s.accept := by
  have scaled : fill 0 p.parameterCount (fun j _ => do
      return (← read s.diag j) * (← read s.buffers.point j)) s.buffers.point =
      some (overwrite s.buffers.point fun j => s.diag.get j * s.buffers.point.get j) :=
    fill_all _ _ fun j => by simp
  unfold accept State.accept
  refine (bind_of_some scaled _).trans ?_
  simp only [overwrite_get]
  rfl

theorem conclude_eq (length : α) : conclude c length s = some (s.conclude tall c length) := by
  unfold conclude State.conclude
  refine (bind_of_some (judge_eq tall s length) _).trans ?_
  generalize s.judge tall length = result
  obtain ⟨t, r⟩ := result
  have taken : (if r.acceptable then accept t else some t) =
      some (if r.acceptable then t.accept else t) := by
    split
    · exact accept_eq t
    · rfl
  refine (bind_of_some taken _).trans ?_
  dsimp only
  generalize (if r.acceptable then t.accept else t) = u
  cases convergence c r u.region.delta u.xnorm with
  | some info => rfl
  | none =>
    cases exhaustion (c.budget p.parameterCount) u.nfev r u.region.delta u.xnorm u.gnorm with
    | some info => rfl
    | none => rfl

theorem attempt_eq (zero : ((0 : α) == 0) = true) : attempt c s = some (s.attempt tall c) := by
  unfold attempt
  refine (bind_of_some (searchStep_eq tall s zero) _).trans ?_
  refine (bind_of_some (placeStep_eq _) _).trans ?_
  unfold State.attempt
  dsimp only
  generalize (s.searchStep tall).placeStep.capRegion.evaluateTrial = result
  obtain ⟨evaluated, outcome⟩ := result
  cases outcome with
  | some e => rfl
  | none => exact conclude_eq tall c evaluated _

end LeastSquares.Checked
