import LeastSquares.Batch.Solve
import LeastSquares.Proofs.Acceptance

/-!
# The slots of a batch

Every slot owns one stretch of each pool, and no two stretches overlap. Storing a slot is therefore
seen in that slot only, and a slot keeps what it holds until its own turn in a schedule, whatever
the other slots go through before and after.
-/
namespace LeastSquares

variable {α : Type}

/-! ### Stretches -/

theorem size_stretch_le (pool : Array α) (stride i : Nat) :
    (stretch pool stride i).size ≤ stride := by
  rw [stretch, Array.size_extract, Nat.succ_mul]
  omega

theorem size_stretch {pool : Array α} {stride i : Nat} (room : (i + 1) * stride ≤ pool.size) :
    (stretch pool stride i).size = stride := by
  rw [stretch, Array.size_extract, Nat.min_eq_left room, Nat.succ_mul]
  omega

theorem stretch_writeStretch_self {pool values : Array α} {stride i : Nat}
    (room : (i + 1) * stride ≤ pool.size) (fits : values.size = stride) :
    stretch (writeStretch pool stride i values) stride i = values := by
  apply Array.ext
  · rw [size_stretch (by rwa [size_writeStretch]), fits]
  · intro k _ bound
    simp [stretch, writeStretch, overwriteFrom, bound]

theorem stretch_writeStretch_of_ne {pool values : Array α} {stride i j : Nat} (other : i ≠ j)
    (fits : values.size ≤ stride) :
    stretch (writeStretch pool stride i values) stride j = stretch pool stride j := by
  apply Array.ext
  · simp only [stretch, Array.size_extract, size_writeStretch]
  · intro k bound _
    have inside : k < stride := by
      simp only [stretch, Array.size_extract, Nat.succ_mul] at bound
      omega
    simp only [stretch, writeStretch, overwriteFrom, Array.getElem_extract,
      Array.getElem_mapFinIdx]
    split
    next reached =>
      -- The index lies behind the stretch of slot `i`, not in it.
      have later : i + 1 ≤ j := by
        rcases Nat.lt_or_gt_of_ne other with before | after
        · exact before
        · have := Nat.mul_le_mul_right stride (Nat.succ_le_of_lt after)
          rw [Nat.succ_mul] at this
          omega
      have past := Nat.mul_le_mul_right stride later
      rw [Nat.succ_mul] at past
      rw [Array.getD_eq_getD_getElem?, Array.getElem?_eq_none (by omega), Option.getD_none]
    · rfl

/-! ### Slots -/

/-- The arrays of a slot have the lengths that the batch has room for. -/
structure Slot.Fits (slot : Slot α) (b : Batch α) : Prop where
  params : slot.params.size = b.parameterCount
  residuals : slot.residuals.size = b.residualCount
  diag : slot.diag.size = b.parameterCount

/-- A workspace has the shape that the problems of a batch need. -/
structure Workspace.Suits (w : Workspace α) (b : Batch α) : Prop where
  rows : w.residualCount = b.residualCount
  cols : w.parameterCount = b.parameterCount

namespace Batch

variable {b : Batch α} {i j : Nat} {slot : Slot α}

theorem lt_size_of_slot? (found : b.slot? i = some slot) : i < b.size := by
  obtain ⟨outcome, stored, -⟩ := Option.map_eq_some_iff.mp found
  exact (Array.getElem?_eq_some_iff.mp stored).1

theorem exists_slot? (b : Batch α) (inside : i < b.size) : ∃ slot, b.slot? i = some slot := by
  rw [Pools.slot?, Array.getElem?_eq_getElem inside]
  exact ⟨_, rfl⟩

/-- Every pool has room for the stretch of every slot. -/
theorem room (b : Batch α) (inside : i < b.size) :
    (i + 1) * b.parameterCount ≤ b.params.size ∧
      (i + 1) * b.residualCount ≤ b.residuals.size ∧
      (i + 1) * b.parameterCount ≤ b.diag.size := by
  rw [b.size_params, b.size_residuals, b.size_diag]
  have stretches := Nat.succ_le_of_lt inside
  exact ⟨Nat.mul_le_mul_right _ stretches, Nat.mul_le_mul_right _ stretches,
    Nat.mul_le_mul_right _ stretches⟩

theorem fits_of_slot? (found : b.slot? i = some slot) : slot.Fits b := by
  have room := b.room (lt_size_of_slot? found)
  obtain ⟨outcome, -, rfl⟩ := Option.map_eq_some_iff.mp found
  exact ⟨size_stretch room.1, size_stretch room.2.1, size_stretch room.2.2⟩

/-- A slot that exists holds what was stored in it. -/
theorem slot?_store_self (inside : i < b.size) (fits : slot.Fits b) :
    (b.store i slot).slot? i = some slot := by
  have room := b.room inside
  have stored : (b.outcomes.setIfInBounds i slot.outcome)[i]? = some slot.outcome := by
    rw [Array.getElem?_setIfInBounds_self_of_lt inside]
  simp only [Pools.slot?, store, Pools.store, stored, Option.map_some]
  rw [stretch_writeStretch_self room.1 fits.params,
    stretch_writeStretch_self room.2.1 fits.residuals,
    stretch_writeStretch_self room.2.2 fits.diag]

theorem slot?_store_of_ne (other : i ≠ j) (params : slot.params.size ≤ b.parameterCount)
    (residuals : slot.residuals.size ≤ b.residualCount)
    (diag : slot.diag.size ≤ b.parameterCount) : (b.store i slot).slot? j = b.slot? j := by
  have kept : (b.outcomes.setIfInBounds i slot.outcome)[j]? = b.outcomes[j]? :=
    Array.getElem?_setIfInBounds_ne other
  simp only [Pools.slot?, store, Pools.store, kept, stretch_writeStretch_of_ne other params,
    stretch_writeStretch_of_ne other residuals, stretch_writeStretch_of_ne other diag]

end Batch

/-! ### Schedules -/

variable [Scalar α]

namespace BatchRun

variable {c : Config α} {p : Problem α} {problems : Array (Problem α)} {r : BatchRun α}
  {job i j : Nat}

theorem start_suits (b : Batch α) (job : Nat) : ((start b).workspace job).Suits b :=
  ⟨rfl, rfl⟩

theorem workspace_solveSlot (other : Nat) :
    (r.solveSlot c p job i).workspace other =
      if other = job then (r.slotRun c p job i).workspace else r.workspace other := by
  split
  next same =>
    rw [same]
    simp only [workspace, solveSlot, List.lookup_cons_self, Option.getD_some]
  next distinct =>
    simp only [workspace, solveSlot, List.lookup_cons, beq_false_of_ne distinct]
    rfl

theorem slotRun_sameShape : (r.slotRun c p job i).SameShape
    (stretch r.batch.params r.batch.parameterCount i)
    (stretch r.batch.residuals r.batch.residualCount i)
    (stretch r.batch.diag r.batch.parameterCount i) (r.workspace job) :=
  solve_sameShape ..

/-- All jobs keep workspaces of the shape of the batch. -/
theorem solveSlot_suits {b : Batch α} (h : ∀ job, (r.workspace job).Suits b) (other : Nat) :
    ((r.solveSlot c p job i).workspace other).Suits b := by
  have shape := @slotRun_sameShape _ _ c p r job i
  rw [workspace_solveSlot]
  split
  · exact ⟨shape.rows.trans (h job).rows, shape.cols.trans (h job).cols⟩
  · exact h other

theorem solveSlot_slot? {before : Slot α} (found : r.batch.slot? i = some before) :
    (r.solveSlot c p job i).batch.slot? i =
      some (solve p c before.params before.residuals before.diag (r.workspace job)).slot := by
  have inside := Batch.lt_size_of_slot? found
  have fits := Batch.fits_of_slot? found
  have shape := @slotRun_sameShape _ _ c p r job i
  obtain ⟨outcome, -, rfl⟩ := Option.map_eq_some_iff.mp found
  apply Batch.slot?_store_self inside
  exact {
    params := shape.x.trans fits.params
    residuals := shape.residuals.trans fits.residuals
    diag := shape.diag.trans fits.diag }

/-- A job writes to no slot but the one it solves. -/
theorem solveSlot_slot?_of_ne (other : i ≠ j) :
    (r.solveSlot c p job i).batch.slot? j = r.batch.slot? j := by
  have shape := @slotRun_sameShape _ _ c p r job i
  apply Batch.slot?_store_of_ne other
  · exact Nat.le_trans (Nat.le_of_eq shape.x) (size_stretch_le ..)
  · exact Nat.le_trans (Nat.le_of_eq shape.residuals) (size_stretch_le ..)
  · exact Nat.le_trans (Nat.le_of_eq shape.diag) (size_stretch_le ..)

theorem follow_append (earlier later : Schedule) :
    r.follow c problems (earlier ++ later) =
      (r.follow c problems earlier).follow c problems later := by
  simp only [follow, List.foldl_append]

theorem follow_cons {later : Schedule} (known : problems[i]? = some p) :
    r.follow c problems ((job, i) :: later) =
      (r.solveSlot c p job i).follow c problems later := by
  simp only [follow, List.foldl_cons, known]

/-- What every solve keeps, a schedule keeps. -/
theorem follow_invariant {P : BatchRun α → Prop} {schedule : Schedule}
    (step : ∀ entry ∈ schedule, ∀ (p : Problem α) (r : BatchRun α), P r →
      P (r.solveSlot c p entry.1 entry.2)) (start : P r) : P (r.follow c problems schedule) := by
  induction schedule generalizing r with
  | nil => exact start
  | cons entry rest ih =>
    apply ih (fun other member => step other (List.mem_cons_of_mem entry member))
    dsimp only
    split
    next p _ => exact step entry List.mem_cons_self p r start
    · exact start

theorem follow_suits {b : Batch α} (h : ∀ job, (r.workspace job).Suits b) (schedule : Schedule)
    (job : Nat) : ((r.follow c problems schedule).workspace job).Suits b := by
  refine follow_invariant (P := fun r => ∀ job, (r.workspace job).Suits b) ?_ h job
  intro entry _ p r suits
  exact solveSlot_suits suits

/-- A slot that a schedule does not visit stays as it is. -/
theorem follow_slot?_of_not_mem {schedule : Schedule} (unvisited : i ∉ schedule.map Prod.snd) :
    (r.follow c problems schedule).batch.slot? i = r.batch.slot? i := by
  apply follow_invariant (P := fun now => now.batch.slot? i = r.batch.slot? i) _ rfl
  intro entry member p now same
  have other : entry.2 ≠ i := fun visit => unvisited (List.mem_map.mpr ⟨entry, member, visit⟩)
  exact (solveSlot_slot?_of_ne other).trans same

end BatchRun

/-- In a schedule that visits no slot twice, every visit has a before and an after. -/
theorem Schedule.exists_turn {schedule : Schedule} {i : Nat}
    (once : (schedule.map Prod.snd).Nodup) (visited : i ∈ schedule.map Prod.snd) :
    ∃ (earlier later : Schedule) (job : Nat), schedule = earlier ++ (job, i) :: later ∧
      i ∉ earlier.map Prod.snd ∧ i ∉ later.map Prod.snd := by
  obtain ⟨⟨job, _⟩, member, rfl⟩ := List.mem_map.mp visited
  obtain ⟨earlier, later, rfl⟩ := List.append_of_mem member
  rw [List.map_append, List.map_cons, List.nodup_append] at once
  obtain ⟨-, turn, apart⟩ := once
  refine ⟨earlier, later, job, rfl, ?_, (List.nodup_cons.mp turn).1⟩
  intro before
  exact apart _ before _ List.mem_cons_self rfl

/-- The contents `after` of slot `i` are what one solve of its problem leaves, from what the slot
held in `b` and on some workspace of the right shape. -/
def Batch.Solves (c : Config α) (problems : Array (Problem α)) (b : Batch α) (i : Nat)
    (after : Slot α) : Prop :=
  ∃ (p : Problem α) (before : Slot α) (w : Workspace α), problems[i]? = some p ∧
    b.slot? i = some before ∧ w.Suits b ∧
    after = (solve p c before.params before.residuals before.diag w).slot

/-- A slot holds at the end what its own solve left, which started from what the slot held at the
start. Of the other slots only the workspace of the job can tell. -/
theorem Batch.solveBy_slot? {c : Config α} {problems : Array (Problem α)} {b : Batch α}
    {earlier later : Schedule} {job i : Nat} {p : Problem α} {before : Slot α}
    (notBefore : i ∉ earlier.map Prod.snd) (notAfter : i ∉ later.map Prod.snd)
    (known : problems[i]? = some p) (found : b.slot? i = some before) :
    (b.solveBy c problems (earlier ++ (job, i) :: later)).slot? i =
      some (solve p c before.params before.residuals before.diag
        (((BatchRun.start b).follow c problems earlier).workspace job)).slot := by
  -- Neither the entries before its turn nor those after it visit the slot.
  have untouched : ((BatchRun.start b).follow c problems earlier).batch.slot? i = some before :=
    (BatchRun.follow_slot?_of_not_mem notBefore).trans found
  rw [solveBy, BatchRun.follow_append, BatchRun.follow_cons known,
    BatchRun.follow_slot?_of_not_mem notAfter, BatchRun.solveSlot_slot? untouched]

/-- A schedule that visits every slot once leaves in each what its solve leaves. -/
theorem Batch.solveBy_solves {c : Config α} {problems : Array (Problem α)} {b : Batch α}
    {schedule : Schedule} {i : Nat} {p : Problem α} {before : Slot α}
    (once : (schedule.map Prod.snd).Nodup) (visited : i ∈ schedule.map Prod.snd)
    (known : problems[i]? = some p) (found : b.slot? i = some before) :
    ∃ after, (b.solveBy c problems schedule).slot? i = some after ∧
      b.Solves c problems i after := by
  obtain ⟨earlier, later, job, rfl, notBefore, notAfter⟩ := Schedule.exists_turn once visited
  refine ⟨_, solveBy_slot? notBefore notAfter known found, p, before, _, known, found, ?_, rfl⟩
  exact BatchRun.follow_suits (BatchRun.start_suits b) earlier job

end LeastSquares
