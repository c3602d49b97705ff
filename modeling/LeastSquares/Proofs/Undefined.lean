import LeastSquares.Proofs.Magnitudes
import LeastSquares.Proofs.Outcome
import LeastSquares.Proofs.Signs
import LeastSquares.Proofs.Vanishing

/-!
# Residuals that are not numbers

A component that is not a number fails the tests for the middle and the large class, so it is summed
with the small ones. There it leaves a partial sum that is not a number either; but where a large
component outweighs the small class, that sum is not read. So such a component shows in the guarded
norm if no component is large, and is taken for a zero otherwise. A step to residuals whose norm is
not a number is never taken, but one to residuals that are not all numbers can be.
-/
namespace LeastSquares

/-! ### Operations on what is not a number -/

namespace Double

open Float.Model UnpackedFloat

theorem isNaN_iff (x : Float) : x.isNaN ↔ x.toModel.unpack = .notANumber :=
  UnpackedFloat.isNaN_iff

theorem unpack_pack_notANumber :
    UnpackedFloat.unpack .binary64 (UnpackedFloat.pack .binary64 .notANumber) = .notANumber := by
  rw [UnpackedFloat.pack, unpack_packedNaN]

variable {x y : Float}

theorem isNaN_add (h : x.isNaN ∨ y.isNaN) : (x + y).isNaN := by
  simp only [isNaN_iff] at *
  have sum : x.toModel.unpack.add .binary64 y.toModel.unpack = .notANumber := by
    rcases h with left | right
    · rw [left]
      rfl
    · rw [right]
      cases x.toModel.unpack <;> rfl
  exact (congrArg _ (congrArg _ sum)).trans unpack_pack_notANumber

theorem isNaN_mul (h : x.isNaN ∨ y.isNaN) : (x * y).isNaN := by
  simp only [isNaN_iff] at *
  have product : x.toModel.unpack.mul .binary64 y.toModel.unpack = .notANumber := by
    rcases h with left | right
    · rw [left]
      rfl
    · rw [right]
      cases x.toModel.unpack <;> rfl
  exact (congrArg _ (congrArg _ product)).trans unpack_pack_notANumber

theorem isNaN_div (h : x.isNaN) (y : Float) : (x / y).isNaN := by
  rw [isNaN_iff] at *
  have quotient : x.toModel.unpack.div .binary64 y.toModel.unpack = .notANumber := by
    rw [h]
    rfl
  exact (congrArg _ (congrArg _ quotient)).trans unpack_pack_notANumber

theorem isNaN_sqrt (h : x.isNaN) : x.sqrt.isNaN := by
  rw [isNaN_iff] at *
  have root : x.toModel.unpack.sqrt .binary64 = .notANumber := by
    rw [h]
    rfl
  exact (congrArg _ (congrArg _ root)).trans unpack_pack_notANumber

theorem isNaN_abs (h : x.isNaN) : x.abs.isNaN := by
  rw [isNaN_iff] at *
  have magnitude : x.toModel.unpack.abs = .notANumber := by
    rw [h]
    rfl
  exact (congrArg _ (congrArg _ magnitude)).trans unpack_pack_notANumber

theorem not_lt_of_isNaN (h : x.isNaN ∨ y.isNaN) : ¬ x < y := by
  rw [not_lt_iff]
  exact .inr h

theorem le_iff_lt_or_beq (x y : Float) : x ≤ y ↔ x < y ∨ x == y := by
  have le : x ≤ y ↔ (x.toModel.unpack.compare y.toModel.unpack).any Ordering.isLE :=
    decide_eq_true_iff
  have lt : x < y ↔ x.toModel.unpack.compare y.toModel.unpack = some .lt :=
    decide_eq_true_iff.trans beq_iff_eq
  have eq : x == y ↔ x.toModel.unpack.compare y.toModel.unpack = some .eq :=
    beq_iff_eq (α := Option Ordering)
  rw [le, lt, eq]
  rcases x.toModel.unpack.compare y.toModel.unpack with _ | _ | _ | _ <;> decide

theorem bne_of_not_le (h : ¬ x ≤ y) : (x != y) = true := by
  rw [le_iff_lt_or_beq, not_or, Bool.not_eq_true] at h
  exact congrArg Bool.not h.2

theorem bne_of_isNaN (h : x.isNaN) (y : Float) : (x != y) = true := by
  apply bne_of_not_le
  rw [not_le_iff]
  exact .inr (.inl h)

theorem zero_lt_of_lt (nonneg : ¬ x < 0) (above : x < y) : 0 < y := by
  rw [lt_iff] at *
  simp only [above.1, true_and, not_and, not_lt] at nonneg
  exact ⟨rfl, above.2.1, (nonneg rfl).trans_lt above.2.2⟩

theorem not_le_zero_of_lt (nonneg : ¬ x < 0) (above : x < y) : ¬ y ≤ 0 := by
  rw [not_le_iff]
  exact .inl (zero_lt_of_lt nonneg above)

end Double

/-! ### Partial sums -/

namespace SquareSums

open Double

/-- Two partial sums that differ in the small class only. -/
structure SameAbove (s t : SquareSums Float) : Prop where
  large : t.large = s.large
  medium : t.medium = s.medium
  largeMax : t.largeMax = s.largeMax

/-- No large component has been summed. -/
def Unbegun (s : SquareSums Float) : Prop :=
  s.large = 0 ∧ s.largeMax = 0

/-- A large component has been summed. -/
def Begun (s : SquareSums Float) : Prop :=
  ¬ s.large ≤ 0 ∧ ¬ s.largeMax < 0

section

variable {low high size : Float} {s t : SquareSums Float}

theorem SameAbove.trans {r : SquareSums Float} (h : SameAbove r s) (h' : SameAbove s t) :
    SameAbove r t :=
  ⟨h'.large.trans h.large, h'.medium.trans h.medium, h'.largeMax.trans h.largeMax⟩

theorem SameAbove.symm (h : SameAbove s t) : SameAbove t s :=
  ⟨h.large.symm, h.medium.symm, h.largeMax.symm⟩

namespace Added

theorem sameAbove (h : Added low high size s t) (below : ¬ low < size) : SameAbove s t := by
  cases h with
  | medium above => exact absurd above below
  | largest above => exact absurd above below
  | large above => exact absurd above below
  | smallest => exact ⟨rfl, rfl, rfl⟩
  | small => exact ⟨rfl, rfl, rfl⟩
  | nothing => exact ⟨rfl, rfl, rfl⟩

/-- What is not a number is summed with the small components. -/
theorem isNaN_small (h : Added low high size s t) (undefined : size.isNaN) : t.small.isNaN := by
  cases h with
  | medium above => exact absurd above (not_lt_of_isNaN (.inr undefined))
  | largest above => exact absurd above (not_lt_of_isNaN (.inr undefined))
  | large above => exact absurd above (not_lt_of_isNaN (.inr undefined))
  | smallest _ new => exact absurd new (not_lt_of_isNaN (.inr undefined))
  | small => exact isNaN_add (.inr (isNaN_mul (.inl (isNaN_div undefined _))))
  | nothing _ _ zero => exact absurd (bne_of_isNaN undefined 0) zero

theorem isNaN_small_of_isNaN (h : Added low high size s t) (undefined : s.small.isNaN) :
    t.small.isNaN := by
  cases h with
  | smallest =>
    exact isNaN_add (.inr (isNaN_mul (.inl (isNaN_mul (.inl undefined)))))
  | small => exact isNaN_add (.inl undefined)
  | _ => exact undefined

theorem unbegun (h : Added low high size s t) (start : Unbegun s)
    (other : ¬ (low < size ∧ ¬ size < high)) : Unbegun t := by
  cases h with
  | largest above beyond => exact absurd ⟨above, beyond⟩ other
  | large above beyond => exact absurd ⟨above, beyond⟩ other
  | _ => exact start

/-- The first term of a new maximum is one, so the sum is not zero. -/
theorem begun_of_largest (low_nonneg : ¬ low < 0) (above : low < size) (sum : ¬ s.large < 0)
    (max : ¬ s.largeMax < 0) : Begun { s with
      large := 1 + s.large * (s.largeMax / size) * (s.largeMax / size)
      largeMax := size } := by
  have positive : ¬ size ≤ 0 := not_le_zero_of_lt low_nonneg above
  have ratio : ¬ s.largeMax / size < 0 := div_not_neg max positive
  have rescaled := mul_not_neg (mul_not_neg sum ratio) ratio
  exact ⟨add_not_nonpos (by decide +kernel) rescaled, fun neg => positive (le_of_lt neg)⟩

theorem begun_of_large (start : Begun s) : Begun { s with
    large := s.large + size / s.largeMax * (size / s.largeMax) } :=
  ⟨add_not_nonpos start.1 (square_not_neg _), start.2⟩

theorem begun_of_begun (h : Added low high size s t) (low_nonneg : ¬ low < 0) (start : Begun s) :
    Begun t := by
  cases h with
  | largest above =>
    exact begun_of_largest low_nonneg above (fun neg => start.1 (le_of_lt neg)) start.2
  | large => exact begun_of_large start
  | _ => exact start

theorem begun (h : Added low high size s t) (low_nonneg : ¬ low < 0) (start : Unbegun s)
    (large : low < size ∧ ¬ size < high) : Begun t := by
  cases h with
  | medium above below => exact absurd below large.2
  | largest above =>
    refine begun_of_largest low_nonneg above ?_ ?_
    · rw [start.1]
      decide +kernel
    · rw [start.2]
      decide +kernel
  | large above beyond old =>
    rw [start.2] at old
    exact absurd (zero_lt_of_lt low_nonneg above) old
  | smallest below => exact absurd large.1 below
  | small below => exact absurd large.1 below
  | nothing below => exact absurd large.1 below

end Added

end

/-! ### Sums of all components -/

/-- The partial sums of more components, in the order of the list. -/
def extend (low high : Float) (s : SquareSums Float) (x : List Float) : SquareSums Float :=
  x.foldl (fun s v => s.add low high (abs v)) s

/-- A component, or zero if it is not a number. -/
def cleared (v : Float) : Float :=
  if v.isNaN then 0 else v

section

variable {low high : Float} {s t : SquareSums Float} {x : List Float}

theorem SameAbove.add (h : SameAbove s t) (size : Float) :
    SameAbove (s.add low high size) (t.add low high size) := by
  by_cases above : low < size
  · obtain ⟨large, medium, largeMax⟩ := h
    -- Above the small class both are cases of one equation.
    simp only [SquareSums.add, gt_iff_lt, above, true_and, if_true, large, medium, largeMax]
    split
    · exact ⟨rfl, rfl, rfl⟩
    · split
      · exact ⟨rfl, rfl, rfl⟩
      · exact ⟨rfl, rfl, rfl⟩
  · have left := (s.added low high size).sameAbove above
    have right := (t.added low high size).sameAbove above
    exact (left.symm.trans h).trans right

/-- Of what is not a number, the sums of the other two classes take no notice. -/
theorem SameAbove.extend (h : SameAbove s t) (low_nonneg : ¬ low < 0) :
    SameAbove (s.extend low high x) (t.extend low high (x.map cleared)) := by
  induction x generalizing s t with
  | nil => exact h
  | cons v x ih =>
    refine ih ?_
    by_cases undefined : v.isNaN
    · have clear : cleared v = 0 := if_pos undefined
      rw [clear]
      have left := (s.added low high (abs v)).sameAbove
        (not_lt_of_isNaN (.inr (isNaN_abs undefined)))
      have right := (t.added low high (abs 0)).sameAbove low_nonneg
      exact (left.symm.trans h).trans right
    · have same : cleared v = v := if_neg undefined
      rw [same]
      exact h.add _

theorem extend_isNaN_small (h : s.small.isNaN ∨ ∃ v ∈ x, v.isNaN) :
    (s.extend low high x).small.isNaN := by
  induction x generalizing s with
  | nil => exact h.resolve_right (by simp)
  | cons v x ih =>
    apply ih
    have added := s.added low high (abs v)
    rcases h with already | ⟨u, member, undefined⟩
    · exact .inl (added.isNaN_small_of_isNaN already)
    · rcases List.mem_cons.mp member with rfl | later
      · exact .inl (added.isNaN_small (isNaN_abs undefined))
      · exact .inr ⟨u, later, undefined⟩

theorem extend_unbegun (start : Unbegun s)
    (none : ∀ v ∈ x, ¬ (low < abs v ∧ ¬ abs v < high)) : Unbegun (s.extend low high x) := by
  induction x generalizing s with
  | nil => exact start
  | cons v x ih =>
    have added := s.added low high (abs v)
    obtain ⟨first, later⟩ := List.forall_mem_cons.mp none
    exact ih (added.unbegun start first) later

theorem extend_begun_of_begun (low_nonneg : ¬ low < 0) (start : Begun s) :
    Begun (s.extend low high x) := by
  induction x generalizing s with
  | nil => exact start
  | cons v x ih => exact ih ((s.added low high (abs v)).begun_of_begun low_nonneg start)

theorem extend_begun (start : Unbegun s) (low_nonneg : ¬ low < 0)
    (large : ∃ v ∈ x, low < abs v ∧ ¬ abs v < high) : Begun (s.extend low high x) := by
  induction x generalizing s with
  | nil => simp at large
  | cons v x ih =>
    have added := s.added low high (abs v)
    by_cases first : low < abs v ∧ ¬ abs v < high
    · have begun := added.begun low_nonneg start first
      exact extend_begun_of_begun (x := x) low_nonneg begun
    · refine ih (added.unbegun start first) ?_
      obtain ⟨u, member, isLarge⟩ := large
      rcases List.mem_cons.mp member with rfl | later
      · exact absurd isLarge first
      · exact ⟨u, later, isLarge⟩

end

/-! ### The root -/

variable {s : SquareSums Float}

theorem root_of_begun (h : Begun s) :
    s.root = s.largeMax * sqrt (s.large + s.medium / s.largeMax / s.largeMax) :=
  if_pos (bne_of_not_le h.1)

theorem root_isNaN (h : Unbegun s) (undefined : s.small.isNaN) : s.root.isNaN := by
  have weighted : (s.smallMax * s.small).isNaN := isNaN_mul (.inr undefined)
  unfold root
  split
  next begun =>
    rw [h.1] at begun
    exact absurd begun (by decide +kernel)
  next =>
    split
    · split
      · exact isNaN_sqrt (isNaN_mul (.inr (isNaN_add (.inr (isNaN_mul (.inr weighted))))))
      · exact isNaN_sqrt (isNaN_mul (.inr (isNaN_add (.inr weighted))))
    · exact isNaN_mul (.inr (isNaN_sqrt undefined))

end SquareSums

/-! ### The norm -/

section

open SquareSums Double

variable {x : List Float}

theorem smallBound_not_neg : ¬ (smallBound : Float) < 0 := by decide +kernel

theorem guardedNorm_eq (x : List Float) : guardedNorm x =
    if x.isEmpty then 0 else
      (SquareSums.zero.extend smallBound (largeBound / Numeric.ofNat x.length) x).root :=
  rfl

theorem guardedNorm_isNaN (undefined : ∃ v ∈ x, v.isNaN) (none : ∀ v ∈ x, ¬ Large x.length v) :
    (guardedNorm x).isNaN := by
  obtain ⟨v, member, -⟩ := id undefined
  have nonempty : ¬ x.isEmpty = true := by
    rw [List.isEmpty_iff]
    exact List.ne_nil_of_mem member
  rw [guardedNorm_eq, if_neg nonempty]
  exact root_isNaN (extend_unbegun ⟨rfl, rfl⟩ none) (extend_isNaN_small (.inr undefined))

/-- If a component is large, those that are not numbers count as zeros. -/
theorem guardedNorm_of_large (large : ∃ v ∈ x, Large x.length v) :
    guardedNorm x = guardedNorm (x.map cleared) := by
  obtain ⟨v, member, -⟩ := id large
  have nonempty : ¬ x.isEmpty = true := by
    rw [List.isEmpty_iff]
    exact List.ne_nil_of_mem member
  have nonempty' : ¬ (x.map cleared).isEmpty = true := by rwa [List.isEmpty_map]
  rw [guardedNorm_eq, guardedNorm_eq, if_neg nonempty, if_neg nonempty', List.length_map]
  have same : SameAbove
      (SquareSums.zero.extend smallBound (largeBound / Numeric.ofNat x.length) x)
      (SquareSums.zero.extend smallBound (largeBound / Numeric.ofNat x.length) (x.map cleared)) :=
    SameAbove.extend ⟨rfl, rfl, rfl⟩ smallBound_not_neg
  have begun : Begun (SquareSums.zero.extend smallBound (largeBound / Numeric.ofNat x.length) x) :=
    extend_begun ⟨rfl, rfl⟩ smallBound_not_neg large
  have begun' : Begun (SquareSums.zero.extend smallBound (largeBound / Numeric.ofNat x.length)
      (x.map cleared)) := by
    rw [Begun, same.large, same.largeMax]
    exact begun
  rw [root_of_begun begun, root_of_begun begun', same.large, same.medium, same.largeMax]

end

/-! ### Steps that are taken -/

section

open Double

/-- A failure is not a good step, whatever the model predicts. -/
theorem Reduction.not_acceptable_of_failure {r : Reduction Float} (failed : r.actual = -1)
    (predicted : ¬ r.predicted < 0)
    (ratio : r.ratio = if r.predicted != 0 then r.actual / r.predicted else 0) :
    ¬ r.acceptable := by
  have nonpos : ¬ 0 < r.ratio := by
    rw [ratio]
    split
    next nonzero =>
      have positive : ¬ r.predicted ≤ 0 := by
        rw [le_iff_lt_or_beq, not_or]
        exact ⟨predicted, by simpa [bne] using nonzero⟩
      rw [failed]
      exact div_not_pos (by decide +kernel) positive
    next => decide +kernel
  intro good
  have least : (Reduction.acceptRatio : Float) ≤ r.ratio := of_decide_eq_true good
  rw [le_iff] at least
  have positive : (0 : Float) < Reduction.acceptRatio := by decide +kernel
  rw [lt_iff] at positive nonpos
  exact nonpos ⟨rfl, least.2.1, positive.2.2.trans_le least.2.2⟩

/-- A step to residuals whose norm is not a number is not a good one. -/
theorem Reduction.not_acceptable_of_isNaN {n : Nat} {trial : Float} (undefined : trial.isNaN)
    (current length par : Float) (image : Vector Float n) :
    ¬ (Reduction.measure current trial length par image).acceptable := by
  have damping : ¬ sqrt par * length / current * (sqrt par * length / current) / 0.5 < 0 :=
    div_not_neg (square_not_neg _) (by decide +kernel)
  exact not_acceptable_of_failure (if_neg (not_lt_of_isNaN (.inl (isNaN_mul (.inr undefined)))))
    (add_not_neg (square_not_neg _) damping) rfl

namespace State

variable {p : Problem Float} {tall : p.parameterCount ≤ p.residualCount} {s : State p}

theorem trial_defined_of_acceptable (good : (s.trialReduction tall).acceptable) :
    (norm (s.proposed tall).evaluateTrial.1.buffers.trial.toList).isNaN = false := by
  rw [Bool.eq_false_iff]
  intro undefined
  exact Reduction.not_acceptable_of_isNaN undefined _ _ _ _ good

theorem tried_residuals_of_acceptable (good : (s.trialReduction tall).acceptable) :
    (s.tried tall).residuals = (s.proposed tall).evaluateTrial.1.buffers.trial := by
  unfold tried judged
  rw [if_pos (show (State.judge tall _ _).2.acceptable from good)]
  exact overwrite_get _ _

/-- Residuals that a step is taken to and that are not all numbers have a large one among them. -/
theorem large_of_acceptable (good : (s.trialReduction tall).acceptable)
    (undefined : ∃ v ∈ (s.tried tall).residuals.toList, v.isNaN) :
    ∃ v ∈ (s.tried tall).residuals.toList, Large p.residualCount v := by
  rw [tried_residuals_of_acceptable good] at *
  by_contra none
  have defined := trial_defined_of_acceptable good
  have hidden : (norm (s.proposed tall).evaluateTrial.1.buffers.trial.toList).isNaN :=
    guardedNorm_isNaN undefined fun v member large => none ⟨v, member, by simpa using large⟩
  rw [hidden] at defined
  cases defined

end State

end

/-! ### What the norm hides -/

/-- The norm of components that are not all numbers is not a number if none of them is large;
otherwise those that are not numbers count as zeros. A solve takes a step to residuals that are not
all numbers only if one of them is large. -/
theorem solve_undefined (values : List Float) :
    ((∃ v ∈ values, v.isNaN) →
      ((guardedNorm values).isNaN ↔ (∀ v ∈ values, ¬ Large values.length v) ∨
        (guardedNorm (values.map SquareSums.cleared)).isNaN) ∧
      ((∃ v ∈ values, Large values.length v) →
        guardedNorm values = guardedNorm (values.map SquareSums.cleared))) ∧
    ∀ {p : Problem Float} {c : Config Float} {x residuals diag : Array Float}
      {w : Workspace Float} (h : Accepted p c x residuals diag w) (k : Nat) (s : State p),
      h.first.run h.tall c k = .attempt s → (s.proposed h.tall).evaluateTrial.2 = none →
      (s.trialReduction h.tall).acceptable →
      (s.tried h.tall).fnorm.isNaN = false ∧
        ((∃ v ∈ (s.tried h.tall).residuals.toList, v.isNaN) →
          ∃ v ∈ (s.tried h.tall).residuals.toList, Large p.residualCount v) := by
  refine ⟨fun undefined => ⟨⟨fun hidden => ?_, ?_⟩, guardedNorm_of_large⟩, ?_⟩
  · by_cases large : ∃ v ∈ values, Large values.length v
    · rw [guardedNorm_of_large large] at hidden
      exact .inr hidden
    · exact .inl fun v member isLarge => large ⟨v, member, isLarge⟩
  · rintro (none | hidden)
    · exact guardedNorm_isNaN undefined none
    · by_cases large : ∃ v ∈ values, Large values.length v
      · rwa [guardedNorm_of_large large]
      · exact guardedNorm_isNaN undefined fun v member isLarge => large ⟨v, member, isLarge⟩
  · intro p c x residuals diag w h k s here success good
    refine ⟨?_, State.large_of_acceptable good⟩
    have recorded : (h.first.run h.tall c k).Recorded :=
      Stage.run_recorded k (State.start_recorded ..)
    rw [here] at recorded
    rw [(State.tried_recorded recorded success).fnorm, State.tried_residuals_of_acceptable good]
    exact State.trial_defined_of_acceptable good

/-- The residuals `x - 1e300`, `x + 1e300` and `sqrt (x - 5e300)`. -/
def concealed : Problem Float :=
  Formula.system #[[.parameter 0, .constant 1e300, .binary .sub],
    [.parameter 0, .constant 1e300, .binary .add],
    [.parameter 0, .constant 5e300, .binary .sub, .unary .sqrt]] 1

theorem concealed_accepted :
    Accepted concealed (limited 6) #[1e301] #[0, 0, 0] #[1] (.new 3 1) :=
  ⟨rfl, rfl, rfl, rfl, rfl, Config.valid_of_isOk (by decide +kernel)⟩

/-- The first step of a solve of `concealed` from `1e301` leads to where the last residual is not a
number, and it is taken. -/
theorem concealed_taken :
    let h := concealed_accepted
    ∃ s, h.first.run h.tall (limited 6) 1 = .attempt s ∧
      (s.proposed h.tall).evaluateTrial.2 = none ∧ (s.trialReduction h.tall).acceptable ∧
      ∃ v ∈ (s.tried h.tall).residuals.toList, v.isNaN := by
  intro h
  have facts : ((h.first.run h.tall (limited 6) 1).trial?.any fun s =>
      (s.proposed h.tall).evaluateTrial.2.isNone && (s.trialReduction h.tall).acceptable &&
        (s.tried h.tall).residuals.toList.any Float.isNaN) = true := by
    decide +kernel
  obtain ⟨s, here, facts⟩ := (Option.any_eq_true ..).mp facts
  simp only [Bool.and_eq_true, List.any_eq_true] at facts
  obtain ⟨⟨success, good⟩, undefined⟩ := facts
  exact ⟨s, Stage.eq_attempt_of_trial? here, Option.isNone_iff_eq_none.mp success, good, undefined⟩

/-- Beside `1e150` what is not a number shows in the norm, beside `1e300` it does not, and the step
that `concealed` takes leads to a large residual. -/
theorem solve_undefined_concealed :
    (guardedNorm [1e150, (0 / 0 : Float)]).isNaN ∧ ¬ (guardedNorm [1e300, (0 / 0 : Float)]).isNaN ∧
      ∃ s, concealed_accepted.first.run concealed_accepted.tall (limited 6) 1 = .attempt s ∧
        (∃ v ∈ (s.tried concealed_accepted.tall).residuals.toList, v.isNaN) ∧
        ∃ v ∈ (s.tried concealed_accepted.tall).residuals.toList, Large 3 v := by
  obtain ⟨shown, -⟩ := (solve_undefined [1e150, 0 / 0]).1 ⟨0 / 0, by simp, by decide +kernel⟩
  obtain ⟨norm, steps⟩ := solve_undefined [1e300, 0 / 0]
  obtain ⟨hidden, -⟩ := norm ⟨0 / 0, by simp, by decide +kernel⟩
  obtain ⟨s, here, success, good, undefined⟩ := concealed_taken
  refine ⟨shown.mpr (.inl (by decide +kernel)), ?_, s, here, undefined, ?_⟩
  · rw [hidden]
    decide +kernel
  · exact (steps concealed_accepted 1 s here success good).2 undefined

/-- Not every norm of components that are not all numbers is not a number, and not every step that
is taken leads to residuals that are all numbers. -/
theorem guardedNorm_conceals :
    ¬ (∀ x : List Float, (∃ v ∈ x, v.isNaN) → (guardedNorm x).isNaN) ∧
    ¬ ∀ {p : Problem Float} {c : Config Float} {x residuals diag : Array Float}
      {w : Workspace Float} (h : Accepted p c x residuals diag w) (k : Nat) (s : State p),
      h.first.run h.tall c k = .attempt s → (s.proposed h.tall).evaluateTrial.2 = none →
      (s.trialReduction h.tall).acceptable →
      ∀ v ∈ (s.tried h.tall).residuals.toList, v.isNaN = false := by
  refine ⟨fun shown => ?_, fun refused => ?_⟩
  · have hidden : ¬ (guardedNorm [1e300, (0 / 0 : Float)]).isNaN := by decide +kernel
    exact hidden (shown [1e300, 0 / 0] ⟨0 / 0, by simp, by decide +kernel⟩)
  · obtain ⟨s, here, success, good, v, member, undefined⟩ := concealed_taken
    have defined := refused concealed_accepted 1 s here success good v member
    rw [undefined] at defined
    cases defined

end LeastSquares
