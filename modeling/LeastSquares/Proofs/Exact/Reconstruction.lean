import LeastSquares.Proofs.Exact.Orthogonality

/-!
# What a factorization stands for

Up to the smaller dimension of a packed matrix, each position stores a vector, the entries of its
column from the diagonal on, and with it a reflection. Without errors of rounding these reflections
are orthogonal, and their product, in the order of the positions, takes the triangle `R` back to the
matrix that was factored, its columns in the order of the pivots. This holds whatever the shape and
the rank of the matrix, with pivoting and without it.
-/
namespace LeastSquares

open Matrix

variable {m n : Nat}

namespace Columns

/-! ### Reflections as matrices -/

/-- The vector stored at position `j`, with zeros above the diagonal. -/
def stored (packed : Columns ℝ m n) (j : Fin (min m n)) : Fin m → ℝ := fun i =>
  if j.val ≤ i.val then packed.entry i (j.castLE (Nat.min_le_right m n)) else 0

/-- The entry on the diagonal, which leads the vector stored at position `j`. -/
def leading (packed : Columns ℝ m n) (j : Fin (min m n)) : ℝ :=
  packed.entry (j.castLE (Nat.min_le_left m n)) (j.castLE (Nat.min_le_right m n))

/-- The reflection `I - v vᵀ / v₀` by the vector `v` stored at position `j`, whose leading entry is
`v₀`; the identity if that is zero. -/
noncomputable def reflection (packed : Columns ℝ m n) (j : Fin (min m n)) :
    Matrix (Fin m) (Fin m) ℝ :=
  if packed.leading j = 0 then 1
  else 1 - (packed.leading j)⁻¹ • vecMulVec (packed.stored j) (packed.stored j)

variable {packed : Columns ℝ m n} {j : Fin (min m n)}

theorem stored_dotProduct (packed : Columns ℝ m n) (j : Fin (min m n)) (w : Vector ℝ m) :
    packed.stored j ⬝ᵥ w.get = tailDot (packed.get (j.castLE (Nat.min_le_right m n))) w j := by
  simp only [dotProduct, stored, tailDot, Finset.sum_filter, ite_mul, zero_mul]
  rfl

theorem stored_square (packed : Columns ℝ m n) (j : Fin (min m n)) :
    packed.stored j ⬝ᵥ packed.stored j =
      tailSquare (packed.get (j.castLE (Nat.min_le_right m n))) j := by
  rw [← tailDot_self, ← stored_dotProduct]
  refine Finset.sum_congr rfl fun i _ => ?_
  unfold stored
  split
  · rfl
  · rw [zero_mul, zero_mul]

theorem turn_of_zero (zero : packed.leading j = 0) (w : Vector ℝ m) : turn packed j w = w :=
  if_pos (beq_iff_eq.mpr zero)

theorem turn_of_ne (nonzero : packed.leading j ≠ 0) (w : Vector ℝ m) : turn packed j w =
    reflect (j.castLE (Nat.min_le_left m n)) (packed.get (j.castLE (Nat.min_le_right m n))) w :=
  if_neg fun zero => nonzero (beq_iff_eq.mp zero)

/-- Multiplying by a reflection is turning by it. -/
theorem reflection_mulVec (packed : Columns ℝ m n) (j : Fin (min m n)) (w : Vector ℝ m) :
    packed.reflection j *ᵥ w.get = (turn packed j w).get := by
  unfold reflection
  split
  next zero => rw [turn_of_zero zero, one_mulVec]
  next nonzero =>
    ext i
    rw [turn_of_ne nonzero, get_reflect, sub_mulVec, one_mulVec, smul_mulVec, vecMulVec_mulVec,
      stored_dotProduct]
    simp only [Pi.sub_apply, Pi.smul_apply, smul_eq_mul, MulOpposite.smul_eq_mul_unop,
      MulOpposite.unop_op, stored, Fin.le_def, Fin.val_castLE]
    split
    · rw [div_eq_inv_mul, mul_comm (entry ..), mul_assoc]
      rfl
    · rw [zero_mul, mul_zero, sub_zero]

theorem reflection_transpose (packed : Columns ℝ m n) (j : Fin (min m n)) :
    (packed.reflection j)ᵀ = packed.reflection j := by
  unfold reflection
  split
  · exact transpose_one
  · rw [transpose_sub, transpose_one, transpose_smul, transpose_vecMulVec]

end Columns

open Columns

namespace Reflecting

variable {packed : Columns ℝ m n}

/-- Reflecting twice changes nothing. -/
theorem reflection_mul_self (h : Reflecting packed (min m n)) (j : Fin (min m n)) :
    packed.reflection j * packed.reflection j = 1 := by
  unfold reflection
  split
  next => exact one_mul 1
  next nonzero =>
    have square : packed.stored j ⬝ᵥ packed.stored j = 2 * packed.leading j :=
      (stored_square packed j).trans ((h j j.isLt).resolve_right nonzero).square
    have twice : (packed.leading j)⁻¹ * (packed.leading j)⁻¹ * (2 * packed.leading j) =
        (packed.leading j)⁻¹ + (packed.leading j)⁻¹ := by
      field_simp
      ring
    rw [sub_mul, mul_sub, mul_sub, one_mul, one_mul, mul_one, smul_mul_smul_comm,
      vecMulVec_mul_vecMulVec, square, vecMulVec_smul, smul_smul, twice, add_smul]
    abel

theorem reflection_mem_orthogonalGroup (h : Reflecting packed (min m n)) (j : Fin (min m n)) :
    packed.reflection j ∈ orthogonalGroup (Fin m) ℝ := by
  rw [mem_orthogonalGroup_iff, reflection_transpose, h.reflection_mul_self]

/-- The product of the first reflections undoes their turns. -/
theorem prod_mulVec_turnTo (h : Reflecting packed (min m n)) {k : Nat} (inside : k ≤ min m n)
    (w : Vector ℝ m) :
    ((List.ofFn packed.reflection).take k).prod *ᵥ (turnTo packed k w).get = w.get := by
  induction k with
  | zero => exact one_mulVec w.get
  | succ k ih =>
    have turned : packed.reflection ⟨k, inside⟩ *ᵥ (turnTo packed (k + 1) w).get =
        (turnTo packed k w).get := by
      rw [turnTo_succ packed ⟨k, inside⟩, ← reflection_mulVec, mulVec_mulVec,
        h.reflection_mul_self, one_mulVec]
    rw [List.prod_take_succ _ k (by simpa using inside), List.getElem_ofFn, ← mulVec_mulVec, turned]
    exact ih (Nat.le_of_succ_le inside)

end Reflecting

namespace Factor

/-- `R`: the entries above the diagonal, the diagonal kept aside, and zeros below. -/
def trapezoid (f : Factor ℝ m n) : Matrix (Fin m) (Fin n) ℝ :=
  .of fun i c =>
    if i.val < c then f.packed.entry i c else if i.val = c then f.rdiag.get c else 0

variable {a : Columns ℝ m n} {f : Factor ℝ m n}

/-- At the end the reflectors have turned each column into the one of `R` at its position. -/
theorem Turned.turnTo_eq_trapezoid (h : f.Turned a (min m n)) (c : Fin n) :
    (turnTo f.packed (min m n) (a.get (f.pivots.get c))).get = f.trapezoid.col c := by
  ext i
  rcases Nat.lt_or_ge c (min m n) with inside | past
  · exact h.finished c inside i
  · -- A column past the last row is left as it was turned.
    rw [h.pending c past]
    exact (if_pos (show i.val < c.val by omega)).symm

theorem Turned.reconstructs (h : f.Turned a (min m n)) :
    a.matrix.submatrix id f.pivots.get = (List.ofFn f.packed.reflection).prod * f.trapezoid := by
  -- Column by column: the reflections lead from the column of the matrix to that of `R` and back.
  ext i c
  have column := h.reflecting.prod_mulVec_turnTo le_rfl (a.get (f.pivots.get c))
  rw [h.turnTo_eq_trapezoid, List.take_of_length_le (by simp)] at column
  exact (congrFun column i).symm

/-- Without errors of rounding, a factorization stands for the matrix it was made of, whatever its
shape and rank, if pivots that it does not choose are given as the identity. The pivots are a
permutation, each stored vector is that of an orthogonal reflection, and the product of these in
their order with `R` is the matrix with its columns in the order of the pivots. The norms are those
of the columns in their own order. -/
theorem compute_reconstructs (pivot : Bool) (f : Factor ℝ m n)
    (start : pivot = false → f.pivots.get = id) :
    let g := f.compute pivot
    Function.Bijective g.pivots.get ∧ (pivot = false → g.pivots.get = id) ∧
      (∀ j, g.packed.reflection j ∈ orthogonalGroup (Fin m) ℝ) ∧
      f.packed.matrix.submatrix id g.pivots.get =
        (List.ofFn g.packed.reflection).prod * g.trapezoid ∧
      ∀ l, g.norms.get l = √(∑ i, f.packed.entry i l ^ 2) := by
  intro g
  have turned : g.Turned f.packed (min m n) := compute_turned start
  have identity : pivot = false → g.pivots.get = id := by
    rintro rfl
    rw [show g.pivots = f.pivots from compute_pivots_of_not_pivot f]
    exact start rfl
  refine ⟨?_, identity, turned.reflecting.reflection_mem_orthogonalGroup, turned.reconstructs,
    fun l => (f.get_compute_norms pivot l).trans (norm_real _)⟩
  -- Pivots that have been chosen are a permutation whatever they were before.
  cases pivot with
  | true => exact f.compute_pivots_bijective
  | false =>
    rw [identity rfl]
    exact Function.bijective_id

/-- A wide matrix whose columns are multiples of one, with a column of zeros between the others. -/
noncomputable def degenerate : Factor ℝ 2 3 :=
  { packed := #v[#v[3, 4], #v[0, 0], #v[6, 8]]
    pivots := Vector.ofFn id
    rdiag := .replicate 3 0
    norms := .replicate 3 0
    reference := .replicate 3 0 }

/-- Without pivoting the columns keep their order, so that the second reflection has nothing but
zeros to be made of. -/
theorem compute_reconstructs_degenerate :
    degenerate.pivots.get = id ∧ degenerate.packed.get 1 = #v[0, 0] ∧
      degenerate.packed.matrix.submatrix id (degenerate.compute false).pivots.get =
        (List.ofFn (degenerate.compute false).packed.reflection).prod *
          (degenerate.compute false).trapezoid := by
  have start : degenerate.pivots.get = id := by
    funext j
    simp [degenerate, get_eq]
  obtain ⟨-, -, -, product, -⟩ := compute_reconstructs false degenerate fun _ => start
  exact ⟨start, rfl, product⟩

end Factor

end LeastSquares
