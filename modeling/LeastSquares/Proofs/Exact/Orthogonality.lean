import Mathlib
import LeastSquares.Proofs.Exact.Pivoting

/-!
# Factorizations are orthogonal

Without errors of rounding the reflectors of a factorization turn every column of the matrix it was
made of into a column of `R`, and the residuals along with them. Turning preserves products. The
columns of `R` therefore have the products with each other, and with the turned residuals, that the
columns of the matrix have with each other and with the residuals.
-/
namespace LeastSquares

open Matrix

variable {m n : Nat}

/-! ### Turning by reflectors -/

/-- Turn `w` by the reflector of position `j`, unless there was nothing to reflect. -/
noncomputable def turn (packed : Columns ℝ m n) (j : Fin (min m n)) (w : Vector ℝ m) :
    Vector ℝ m :=
  let row := j.castLE (Nat.min_le_left m n)
  let v := packed.get (j.castLE (Nat.min_le_right m n))
  if v.get row == 0 then w else reflect row v w

/-- Turn `w` by the reflectors before position `k`. -/
noncomputable def turnTo (packed : Columns ℝ m n) : Nat → Vector ℝ m → Vector ℝ m
  | 0, w => w
  | k + 1, w =>
    if inside : k < min m n then turn packed ⟨k, inside⟩ (turnTo packed k w) else turnTo packed k w

theorem turnTo_succ (packed : Columns ℝ m n) (j : Fin (min m n)) (w : Vector ℝ m) :
    turnTo packed (j + 1) w = turn packed j (turnTo packed j w) :=
  dif_pos j.isLt

theorem project_eq_turnTo (packed : Columns ℝ m n) (w : Vector ℝ m) :
    project packed w = turnTo packed (min m n) w :=
  foldl_invariant (fun k turned => turned = turnTo packed k w) rfl fun j turned now => by
    rw [turnTo_succ, ← now]
    rfl

/-- Only the reflectors before position `k` matter. -/
theorem turnTo_congr {packed packed' : Columns ℝ m n} {k : Nat}
    (same : ∀ c : Fin n, c.val < k → packed'.get c = packed.get c) (w : Vector ℝ m) :
    turnTo packed' k w = turnTo packed k w := by
  induction k with
  | zero => rfl
  | succ k ih =>
    rw [turnTo, turnTo, ih fun c before => same c (Nat.lt_succ_of_lt before)]
    split
    next inside =>
      unfold turn
      rw [same _ (Nat.lt_succ_self k)]
    next => rfl

/-! ### Products -/

theorem IsReflector.dot_reflect {j : Fin m} {v : Vector ℝ m} (h : IsReflector j v)
    (u w : Vector ℝ m) : (reflect j v u).get ⬝ᵥ (reflect j v w).get = u.get ⬝ᵥ w.get := by
  have split (a b : Vector ℝ m) : a.get ⬝ᵥ b.get =
      tailDot a b j + ∑ i with ¬ j.val ≤ i.val, a.get i * b.get i :=
    (Finset.sum_filter_add_sum_filter_not ..).symm
  rw [split, split, h.tailDot_reflect]
  refine congrArg _ (Finset.sum_congr rfl fun i before => ?_)
  have before : i < j := not_le.mp (Finset.mem_filter.mp before).2
  rw [get_reflect_of_lt before, get_reflect_of_lt before]

/-- Positions before `k` hold reflectors, or nothing that would be reflected. -/
def Reflecting (packed : Columns ℝ m n) (k : Nat) : Prop :=
  ∀ j : Fin (min m n), j.val < k →
    let row := j.castLE (Nat.min_le_left m n)
    let v := packed.get (j.castLE (Nat.min_le_right m n))
    IsReflector row v ∨ v.get row = 0

theorem Reflecting.dot_turnTo {packed : Columns ℝ m n} {k : Nat} (h : Reflecting packed k)
    (u w : Vector ℝ m) : (turnTo packed k u).get ⬝ᵥ (turnTo packed k w).get = u.get ⬝ᵥ w.get := by
  induction k with
  | zero => rfl
  | succ k ih =>
    have before := ih fun j lt => h j (Nat.lt_succ_of_lt lt)
    rw [turnTo, turnTo]
    split
    next inside =>
      unfold turn
      dsimp only
      rcases h ⟨k, inside⟩ (Nat.lt_succ_self k) with reflector | zero
      · rw [if_neg fun zero => reflector.lead (beq_iff_eq.mp zero),
          if_neg fun zero => reflector.lead (beq_iff_eq.mp zero), reflector.dot_reflect, before]
      · rw [if_pos (beq_iff_eq.mpr zero), if_pos (beq_iff_eq.mpr zero), before]
    next => exact before

namespace Factor

/-! ### One step -/

/-- The reflectors before position `k` turn the columns of `a` into those of `R`, as far as these
are finished, and else into what is left of them. -/
structure Turned (a : Columns ℝ m n) (f : Factor ℝ m n) (k : Nat) : Prop where
  reflecting : Reflecting f.packed k
  finished : ∀ c : Fin n, c.val < k → ∀ i : Fin m,
    (turnTo f.packed k (a.get (f.pivots.get c))).get i =
      if i.val < c then (f.packed.get c).get i else if i.val = c then f.rdiag.get c else 0
  pending : ∀ c : Fin n, k ≤ c.val → turnTo f.packed k (a.get (f.pivots.get c)) = f.packed.get c

/-- A factorization that does not pivot leaves the pivots as they are. -/
theorem prepare_pivots {pivot : Bool} {f : Factor ℝ m n}
    (start : pivot = false → f.pivots.get = id) : (f.prepare pivot).pivots.get = id := by
  cases pivot with
  | true => exact funext fun c => get_overwrite ..
  | false => exact start rfl

theorem prepare_turned {pivot : Bool} {f : Factor ℝ m n}
    (start : pivot = false → f.pivots.get = id) : (f.prepare pivot).Turned f.packed 0 where
  reflecting _ before := absurd before (Nat.not_lt_zero _)
  finished _ before := absurd before (Nat.not_lt_zero _)
  pending c _ := by
    rw [prepare_pivots start]
    rfl

variable {a : Columns ℝ m n}

theorem Turned.exchange {f : Factor ℝ m n} {col best : Fin n} (h : f.Turned a col)
    (inside : col ≤ best) : (f.exchange col best).Turned a col := by
  -- Positions before `col` are not touched, and none is moved before it.
  have before {c : Fin n} (lt : c < col) :
      (if c = col then best else if c = best then col else c) = c := exchanged_of_lt inside lt
  have kept {c : Fin n} (lt : c < col) :
      (f.exchange col best).packed.get c = f.packed.get c := by
    rw [get_exchange_packed, before lt]
  have same (w : Vector ℝ m) :
      turnTo (f.exchange col best).packed col w = turnTo f.packed col w :=
    turnTo_congr (fun c lt => kept lt) w
  exact {
    reflecting := fun j lt => by
      dsimp only
      rw [kept (show j.castLE (Nat.min_le_right m n) < col from lt)]
      exact h.reflecting j lt
    finished := fun c lt i => by
      have lt : c < col := lt
      rw [same, get_exchange_pivots, before lt, kept lt, get_exchange_rdiag,
        if_neg (ne_of_lt (lt_of_lt_of_le lt inside))]
      exact h.finished c lt i
    pending := fun c later => by
      rw [same, get_exchange_pivots, get_exchange_packed]
      refine h.pending _ ?_
      split
      · exact inside
      · split
        · exact le_rfl
        · exact later }

theorem Turned.eliminate_of_zero {f : Factor ℝ m n} {j : Fin (min m n)}
    (h : f.Turned a j) (pivot : Bool)
    (zero : tailSquare (f.packed.get (j.castLE (Nat.min_le_right m n))) j = 0) :
    (f.eliminate pivot (j.castLE (Nat.min_le_left m n))
      (j.castLE (Nat.min_le_right m n))).Turned a (j + 1) := by
  set row := j.castLE (Nat.min_le_left m n) with row_eq
  set col := j.castLE (Nat.min_le_right m n) with col_eq
  -- All entries from the diagonal on are zero, so nothing is turned.
  have nothing (i : Fin m) (from_row : row ≤ i) : (f.packed.get col).get i = 0 := by
    have square := (Finset.sum_eq_zero_iff_of_nonneg fun i _ => sq_nonneg _).mp zero i
      (Finset.mem_filter.mpr ⟨Finset.mem_univ i, from_row⟩)
    exact pow_eq_zero_iff two_ne_zero |>.mp square
  have still (w : Vector ℝ m) : turnTo f.packed (j + 1) w = turnTo f.packed j w := by
    rw [turnTo_succ]
    exact if_pos (beq_iff_eq.mpr (nothing row le_rfl))
  rw [Factor.eliminate_of_zero pivot row col zero]
  exact {
    reflecting := fun i before => by
      rcases Nat.lt_succ_iff_lt_or_eq.mp before with earlier | now
      · exact h.reflecting i earlier
      · obtain rfl : i = j := Fin.ext now
        exact .inr (nothing row le_rfl)
    finished := fun c done i => by
      dsimp only
      rw [still, get_overwriteAt]
      rcases Nat.lt_succ_iff_lt_or_eq.mp done with earlier | now
      · have other : col ≠ c := ne_of_gt earlier
        rw [if_neg other]
        exact h.finished c earlier i
      · obtain rfl : c = col := Fin.ext now
        rw [h.pending col le_rfl, if_pos rfl, ite_self]
        split
        · rfl
        next past => exact nothing i (not_lt.mp past)
    pending := fun c later => by
      dsimp only
      rw [still]
      exact h.pending c (by omega) }

theorem EliminatedBy.turned_succ {pivot : Bool} {f g : Factor ℝ m n} {j : Fin (min m n)}
    {v : Vector ℝ m} (made : EliminatedBy pivot (j.castLE (Nat.min_le_left m n))
      (j.castLE (Nat.min_le_right m n)) v f g) (pivots : g.pivots = f.pivots)
    (h : f.Turned a j) : g.Turned a (j + 1) := by
  set row := j.castLE (Nat.min_le_left m n) with row_eq
  set col := j.castLE (Nat.min_le_right m n) with col_eq
  have earlier {c : Fin n} (lt : c < col) : g.packed.get c = f.packed.get c := by
    rw [made.packed, if_neg (ne_of_lt lt), if_neg (not_lt_of_gt lt)]
  have here : g.packed.get col = v := by rw [made.packed, if_pos rfl]
  have turned (w : Vector ℝ m) :
      turnTo g.packed (j + 1) w = reflect row v (turnTo f.packed j w) := by
    rw [turnTo_succ, @turnTo_congr m n f.packed g.packed j fun c lt => earlier lt]
    unfold turn
    dsimp only
    rw [← row_eq, ← col_eq, here, if_neg fun zero => made.reflector.lead (beq_iff_eq.mp zero)]
  exact {
    reflecting := fun i before => by
      dsimp only
      rcases Nat.lt_succ_iff_lt_or_eq.mp before with lt | now
      · rw [earlier (show i.castLE (Nat.min_le_right m n) < col from lt)]
        exact h.reflecting i lt
      · obtain rfl : i = j := Fin.ext now
        rw [← col_eq, here]
        exact .inl made.reflector
    finished := fun c done i => by
      rw [turned, pivots]
      rcases Nat.lt_succ_iff_lt_or_eq.mp done with lt | now
      · -- A finished column has nothing that this reflector could turn.
        have lt : c < col := lt
        rw [reflect_of_zero (fun i from_row => ?_), earlier lt, made.earlier c lt]
        · exact h.finished c lt i
        · have below : c.val < i.val := lt_of_lt_of_le lt from_row
          rw [h.finished c lt, if_neg (by omega), if_neg (by omega)]
      · obtain rfl : c = col := Fin.ext now
        rw [h.pending col le_rfl, made.turned, here]
        simp only [Fin.lt_def, Fin.ext_iff]
        change (if i.val < j.val then _ else if i.val = j.val then _ else _) =
          if i.val < j.val then _ else if i.val = j.val then _ else _
        split
        next above => rw [made.above i above]
        next => rfl
    pending := fun c later => by
      have later : col < c := later
      rw [turned, pivots, h.pending c (le_of_lt later), made.packed, if_neg (ne_of_gt later),
        if_pos later] }

theorem Turned.eliminate {f : Factor ℝ m n} {j : Fin (min m n)} (h : f.Turned a j)
    (pivot : Bool) : (f.eliminate pivot (j.castLE (Nat.min_le_left m n))
      (j.castLE (Nat.min_le_right m n))).Turned a (j + 1) := by
  by_cases zero : tailSquare (f.packed.get (j.castLE (Nat.min_le_right m n))) j = 0
  · exact h.eliminate_of_zero pivot zero
  · obtain ⟨v, made⟩ := Factor.eliminate_of_nonzero pivot (j.castLE (Nat.min_le_left m n)) _ zero
    exact made.turned_succ (eliminate_pivots ..) h

theorem step_turned {f : Factor ℝ m n} (pivot : Bool) (j : Fin (min m n)) (h : f.Turned a j) :
    (f.step pivot (j.castLE (Nat.min_le_left m n))
      (j.castLE (Nat.min_le_right m n))).Turned a (j + 1) := by
  cases pivot with
  | true =>
    exact (h.exchange (pivotFrom_spec (j.castLE (Nat.min_le_right m n)) f.rdiag).1).eliminate true
  | false => exact h.eliminate false

/-! ### The whole factorization -/

theorem compute_turned {pivot : Bool} {f : Factor ℝ m n}
    (start : pivot = false → f.pivots.get = id) :
    (f.compute pivot).Turned f.packed (min m n) :=
  foldl_invariant (fun j done => Factor.Turned f.packed done j) (prepare_turned start)
    fun j _ now => step_turned pivot j now

end Factor

/-! ### Matrices -/

namespace Columns

/-- The entries as a matrix. -/
def matrix (a : Columns ℝ m n) : Matrix (Fin m) (Fin n) ℝ :=
  .of a.entry

/-- The triangle `R` in the leading square block. -/
def upper (tall : n ≤ m) (r : Columns ℝ m n) : Matrix (Fin n) (Fin n) ℝ :=
  .of fun i j => if i ≤ j then r.lead tall i j else 0

theorem upper_lower (r : Columns ℝ m n) (i j : Fin n) (below : j < i) : r.upper tall i j = 0 :=
  if_neg (not_le.mpr below)

theorem upper_diagonal (r : Columns ℝ m n) (j : Fin n) : r.upper tall j j = r.lead tall j j :=
  if_pos le_rfl

end Columns

/-- The matrix `P` that brings the columns of a matrix in the order of the pivots. -/
def pivoting (pivots : Vector (Fin n) n) : Matrix (Fin n) (Fin n) ℝ :=
  (1 : Matrix (Fin n) (Fin n) ℝ).submatrix id pivots.get

theorem mul_pivoting (pivots : Vector (Fin n) n) {k : Nat} (a : Matrix (Fin k) (Fin n) ℝ) :
    a * pivoting pivots = a.submatrix id pivots.get := by
  ext i j
  simp [pivoting, mul_apply, one_apply]

theorem pivoting_transpose_mul (pivots : Vector (Fin n) n) {k : Nat}
    (a : Matrix (Fin n) (Fin k) ℝ) :
    (pivoting pivots)ᵀ * a = a.submatrix pivots.get id := by
  rw [← transpose_inj, transpose_mul, transpose_transpose, mul_pivoting, transpose_submatrix]

theorem pivoting_mul_transpose {pivots : Vector (Fin n) n}
    (apart : Function.Injective pivots.get) : pivoting pivots * (pivoting pivots)ᵀ = 1 := by
  refine mul_eq_one_comm.mp ?_
  rw [pivoting_transpose_mul]
  exact submatrix_one pivots.get apart

/-- A sum of which only the first `n` summands are not zero. -/
theorem sum_head (tall : n ≤ m) {f : Fin m → ℝ} (zero : ∀ i : Fin m, n ≤ i.val → f i = 0) :
    ∑ i, f i = ∑ i : Fin n, f (i.castLE tall) := by
  refine Eq.trans (Finset.sum_subset (Finset.subset_univ _) fun i _ outside => zero i ?_).symm
    (Finset.sum_map Finset.univ (Fin.castLEEmb tall) f)
  by_contra inside
  exact outside (Finset.mem_map.mpr ⟨⟨i, not_le.mp inside⟩, Finset.mem_univ _, rfl⟩)

namespace Factor

variable (tall : n ≤ m) (f : Factor ℝ m n)

/-- The reflectors turn each column of the matrix into the column of `R` at its position. -/
theorem get_project_column (c : Fin n) (i : Fin m) :
    (project (f.compute true).packed (f.packed.get ((f.compute true).pivots.get c))).get i =
      if inside : i.val < n then ((f.compute true).square tall).upper tall ⟨i, inside⟩ c
      else 0 := by
  have turned := @compute_turned _ _ true f nofun
  rw [project_eq_turnTo, turned.finished c (by omega)]
  by_cases inside : i.val < n
  · simp only [inside, dite_true, Columns.upper, of_apply, square, Columns.lead_withDiagonal,
      Fin.le_def, Fin.ext_iff]
    rcases lt_trichotomy i.val c.val with above | diagonal | below
    · rw [if_pos above, if_pos (le_of_lt above), if_neg (ne_of_lt above)]
      rfl
    · rw [if_neg (by omega), if_pos diagonal, if_pos (le_of_eq diagonal), if_pos diagonal]
    · rw [if_neg (by omega), if_neg (by omega), if_neg (by omega)]
  · rw [dif_neg inside, if_neg (by omega), if_neg (by omega)]

/-- Products with a column of the matrix are those with the column of `R`, when both are turned. -/
theorem column_dot (c : Fin n) (w : Vector ℝ m) :
    ∑ i, ((f.compute true).square tall).upper tall i c *
        (project (f.compute true).packed w).get (i.castLE tall) =
      (f.packed.get ((f.compute true).pivots.get c)).get ⬝ᵥ w.get := by
  have turned := (@compute_turned _ _ true f nofun).reflecting.dot_turnTo
    (f.packed.get ((f.compute true).pivots.get c)) w
  rw [← project_eq_turnTo, ← project_eq_turnTo, dotProduct] at turned
  rw [← turned, sum_head tall fun i past => by
    rw [get_project_column tall, dif_neg (by omega), zero_mul]]
  refine Finset.sum_congr rfl fun i _ => ?_
  rw [get_project_column tall, dif_pos (show (i.castLE tall).val < n from i.isLt)]
  rfl

/-- `Rᵀ R = Pᵀ Jᵀ J P`. -/
theorem upper_gram :
    (((f.compute true).square tall).upper tall)ᵀ * ((f.compute true).square tall).upper tall =
      (f.packed.matrixᵀ * f.packed.matrix).submatrix (f.compute true).pivots.get
        (f.compute true).pivots.get := by
  ext c d
  have product := f.column_dot tall c (f.packed.get ((f.compute true).pivots.get d))
  rw [mul_apply, submatrix_apply, mul_apply]
  refine Eq.trans (Finset.sum_congr rfl fun i _ => ?_) product
  rw [get_project_column tall, dif_pos (show (i.castLE tall).val < n from i.isLt)]
  rfl

/-- `Rᵀ` applied to the turned residuals is `Pᵀ Jᵀ` applied to the residuals. -/
theorem upper_projected (w : Vector ℝ m) :
    (((f.compute true).square tall).upper tall)ᵀ *ᵥ ((f.compute true).projected tall w).get =
      (f.packed.matrixᵀ *ᵥ w.get) ∘ (f.compute true).pivots.get := by
  ext c
  refine Eq.trans ?_ (f.column_dot tall c w)
  change ∑ i : Fin n, _ = _
  refine Finset.sum_congr rfl fun i _ => ?_
  rw [get_projected]
  rfl

end Factor

end LeastSquares
