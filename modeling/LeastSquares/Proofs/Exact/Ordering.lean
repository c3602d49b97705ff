import LeastSquares.Proofs.Exact.Reconstruction

/-!
# The order of the diagonal

Without errors of rounding the norms by which pivots are chosen are those of what is left of the
columns, however they have been kept up, and each diagonal entry of `R` outweighs all that stands to
the right of it, in its own row and below. Its entries therefore never grow along the diagonal, and
the first zero there is the end of the triangle.
-/
namespace LeastSquares

variable {m n : Nat}

namespace Factor

/-! ### Entries of `R` -/

section

variable (f : Factor ℝ m n)

theorem trapezoid_of_lt {i : Fin m} {c : Fin n} (above : i.val < c.val) :
    f.trapezoid i c = f.packed.entry i c :=
  if_pos above

theorem trapezoid_of_eq {i : Fin m} {c : Fin n} (same : i.val = c.val) :
    f.trapezoid i c = f.rdiag.get c :=
  (if_neg (by omega)).trans (if_pos same)

theorem trapezoid_of_gt {i : Fin m} {c : Fin n} (below : c.val < i.val) : f.trapezoid i c = 0 :=
  (if_neg (by omega)).trans (if_neg (by omega))

/-- Entry `j` of the diagonal of `R`. -/
def diagonal (j : Fin (min m n)) : ℝ :=
  f.trapezoid (j.castLE (Nat.min_le_left m n)) (j.castLE (Nat.min_le_right m n))

theorem diagonal_eq (j : Fin (min m n)) :
    f.diagonal j = f.rdiag.get (j.castLE (Nat.min_le_right m n)) :=
  f.trapezoid_of_eq rfl

/-- The sum of the squares of the entries of column `c` of `R` from row `j` on. -/
noncomputable def columnSquare (j : Nat) (c : Fin n) : ℝ :=
  ∑ i with j ≤ i.val ∧ i.val ≤ c.val, f.trapezoid i c ^ 2

/-- Above the diagonal these are the entries of the packed matrix; the last one is kept aside. -/
theorem columnSquare_of_lt {j : Nat} {c : Fin n} (before : j ≤ c.val) (inside : c.val < m) :
    f.columnSquare j c = segmentSquare (f.packed.get c) j c + f.rdiag.get c ^ 2 := by
  have split : (Finset.univ.filter fun i : Fin m => j ≤ i.val ∧ i.val ≤ c.val) =
      insert ⟨c, inside⟩ (Finset.univ.filter fun i : Fin m => j ≤ i.val ∧ i.val < c.val) := by
    ext i
    simp only [Finset.mem_filter, Finset.mem_univ, true_and, Finset.mem_insert, Fin.ext_iff]
    omega
  rw [columnSquare, split, Finset.sum_insert (by simp), f.trapezoid_of_eq rfl, add_comm]
  refine congrArg (· + _) (Finset.sum_congr rfl fun i member => ?_)
  rw [f.trapezoid_of_lt (Finset.mem_filter.mp member).2.2]
  rfl

/-- A column past the last row has no entry on the diagonal. -/
theorem columnSquare_of_le (j : Nat) {c : Fin n} (past : m ≤ c.val) :
    f.columnSquare j c = tailSquare (f.packed.get c) j := by
  have range (i : Fin m) : j ≤ i.val ∧ i.val ≤ c.val ↔ j ≤ i.val := by omega
  unfold columnSquare tailSquare
  simp only [range]
  refine Finset.sum_congr rfl fun i _ => ?_
  rw [f.trapezoid_of_lt (by omega)]
  rfl

theorem sq_le_columnSquare {j : Nat} {i : Fin m} {c : Fin n} (from_j : j ≤ i.val)
    (upper : i.val ≤ c.val) : f.trapezoid i c ^ 2 ≤ f.columnSquare j c :=
  Finset.single_le_sum (f := fun i => f.trapezoid i c ^ 2) (fun _ _ => sq_nonneg _)
    (Finset.mem_filter.mpr ⟨Finset.mem_univ i, from_j, upper⟩)

end

/-! ### What dominates what -/

variable {f : Factor ℝ m n}

theorem Dominated.columnSquare_le (h : f.Dominated (min m n)) {j : Fin (min m n)} {c : Fin n}
    (later : j.val < c.val) : f.columnSquare j c ≤ f.diagonal j ^ 2 := by
  rw [diagonal_eq]
  -- A column that has been factored ends on the diagonal; the columns past the last row never were.
  rcases Nat.lt_or_ge c.val m with inside | past
  · rw [f.columnSquare_of_lt (Nat.le_of_lt later) inside]
    exact h.finished (j.castLE (Nat.min_le_right m n)) c later (by omega)
  · rw [f.columnSquare_of_le j past]
    exact h.pending (j.castLE (Nat.min_le_right m n)) c j.isLt (by omega)

theorem Dominated.diagonal_antitone (h : f.Dominated (min m n)) :
    Antitone fun j => |f.diagonal j| := by
  intro j k le
  rcases eq_or_lt_of_le le with rfl | lt
  · exact le_rfl
  · exact sq_le_sq.mp ((f.sq_le_columnSquare le le_rfl).trans (h.columnSquare_le lt))

theorem Dominated.trapezoid_eq_zero (h : f.Dominated (min m n)) {j : Fin (min m n)}
    (zero : f.diagonal j = 0) {i : Fin m} {c : Fin n} (row : j.val ≤ i.val) (col : j.val ≤ c.val) :
    f.trapezoid i c = 0 := by
  rcases Nat.lt_or_ge c.val i.val with below | upper
  · exact f.trapezoid_of_gt below
  rcases Nat.eq_or_lt_of_le col with here | later
  · -- The only entry of this column in question is the one on the diagonal.
    rw [f.trapezoid_of_eq (Nat.le_antisymm upper (here ▸ row)), ← zero, diagonal_eq]
    exact congrArg _ (Fin.ext here.symm)
  · have outweighed := (f.sq_le_columnSquare row upper).trans (h.columnSquare_le later)
    rw [zero, zero_pow two_ne_zero] at outweighed
    exact pow_eq_zero_iff two_ne_zero |>.mp (le_antisymm outweighed (sq_nonneg _))

/-- Without errors of rounding, whatever matrix is factored: at every choice of a pivot, and once
more at the end, the norms that have been kept up are those of what is left of the remaining
columns. Of the triangle that results, each diagonal entry outweighs every later column from its own
row on; the entries of the diagonal do not grow, and where one is zero nothing is left. -/
theorem compute_ordered (f : Factor ℝ m n) :
    let g := f.compute true
    (∀ j ≤ min m n, ∀ c : Fin n, j ≤ c.val → (f.after true j).rdiag.get c =
      √(∑ i with j ≤ i.val, (f.after true j).packed.entry i c ^ 2)) ∧
    (∀ (j : Fin (min m n)) (c : Fin n), j.val < c.val →
      ∑ i with j.val ≤ i.val ∧ i.val ≤ c.val, g.trapezoid i c ^ 2 ≤ g.diagonal j ^ 2) ∧
    (Antitone fun j => |g.diagonal j|) ∧
    ∀ j : Fin (min m n), g.diagonal j = 0 →
      ∀ (i : Fin m) (c : Fin n), j.val ≤ i.val → j.val ≤ c.val → g.trapezoid i c = 0 := by
  intro g
  have dominated : g.Dominated (min m n) := f.compute_reduced.toDominated
  refine ⟨fun j inside c remaining => ?_, fun j c later => dominated.columnSquare_le later,
    dominated.diagonal_antitone, fun j zero i c row col => dominated.trapezoid_eq_zero zero row col⟩
  exact ((f.after_reduced inside).remaining c remaining).trans (tailNorm_real ..)

end Factor

end LeastSquares
