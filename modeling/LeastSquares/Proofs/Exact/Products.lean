import LeastSquares.Proofs.Exact.Orthogonality

/-!
# What a factorization sees of a matrix

Without errors of rounding the pivots that a factorization chooses, and the diagonal of `R` up to
signs, depend on the products of the columns alone. Two matrices whose columns have the same
products, such as one with its rows in another order, are factored alike, whichever signs and
reflectors come out.
-/
namespace LeastSquares

open Matrix

variable {m n : Nat}

theorem tailDot_zero (v w : Vector ℝ m) : tailDot v w 0 = v.get ⬝ᵥ w.get := by
  simp [tailDot, dotProduct]

theorem tailDot_succ (v w : Vector ℝ m) (j : Fin m) :
    tailDot v w j = v.get j * w.get j + tailDot v w (j + 1) :=
  sum_from _ j

/-- Of a tail that is zero nothing is left, and no product with it. -/
theorem tailDot_of_zero {v : Vector ℝ m} {j k : Nat} (zero : tailSquare v j = 0) (le : j ≤ k)
    (w : Vector ℝ m) : tailDot v w k = 0 := by
  refine Finset.sum_eq_zero fun i inside => ?_
  have square := (Finset.sum_eq_zero_iff_of_nonneg fun i _ => sq_nonneg _).mp zero i
    (Finset.mem_filter.mpr ⟨Finset.mem_univ i, le.trans (Finset.mem_filter.mp inside).2⟩)
  rw [pow_eq_zero_iff two_ne_zero |>.mp square, zero_mul]

namespace Factor

/-- The choice of a pivot reads the norms of the remaining columns only. -/
theorem pivotFrom_congr {j : Fin n} {remaining remaining' : Vector ℝ n}
    (same : ∀ c, j ≤ c → remaining'.get c = remaining.get c) :
    pivotFrom j remaining' = pivotFrom j remaining := by
  have chosen : pivotFrom j remaining' = pivotFrom j remaining ∧ j ≤ pivotFrom j remaining := by
    refine foldl_related (fun _ best best' => best' = best ∧ j ≤ best) ⟨rfl, le_rfl⟩ ?_
    rintro k best _ ⟨rfl, inside⟩
    by_cases from_j : j ≤ k
    · rw [same k from_j, same _ inside]
      split
      · exact ⟨rfl, from_j⟩
      · exact ⟨rfl, inside⟩
    · rw [if_neg fun both => from_j both.1, if_neg fun both => from_j both.1]
      exact ⟨rfl, inside⟩
  exact chosen.1

/-- Two factorizations in progress that have moved the same columns to the first `j` positions, with
the same diagonal up to signs. What is left of their other columns has the same products. -/
structure SameProducts (j : Nat) (f f' : Factor ℝ m n) : Prop where
  pivots : f'.pivots = f.pivots
  diagonal : ∀ c : Fin n, c.val < j → f'.rdiag.get c ^ 2 = f.rdiag.get c ^ 2
  product : ∀ c d : Fin n, j ≤ c.val → j ≤ d.val →
    tailDot (f'.packed.get c) (f'.packed.get d) j = tailDot (f.packed.get c) (f.packed.get d) j

variable {f f' : Factor ℝ m n}

theorem SameProducts.tailSquare_eq {j : Nat} (h : SameProducts j f f') {c : Fin n}
    (later : j ≤ c.val) : tailSquare (f'.packed.get c) j = tailSquare (f.packed.get c) j := by
  rw [← tailDot_self, ← tailDot_self, h.product c c later later]

theorem prepare_sameProducts
    (gram : f'.packed.matrixᵀ * f'.packed.matrix = f.packed.matrixᵀ * f.packed.matrix) :
    SameProducts 0 (f.prepare true) (f'.prepare true) where
  pivots := eq_of_get_eq fun j => (get_overwrite ..).trans (get_overwrite ..).symm
  diagonal _ before := absurd before (Nat.not_lt_zero _)
  product c d _ _ := by
    rw [tailDot_zero, tailDot_zero]
    exact congrFun (congrFun gram c) d

/-! ### One step -/

theorem SameProducts.exchange {col : Fin n} (h : SameProducts col f f') (reduced : f.Reduced col)
    (reduced' : f'.Reduced col) :
    SameProducts col (f.exchange col (pivotFrom col f.rdiag))
      (f'.exchange col (pivotFrom col f'.rdiag)) := by
  have same : pivotFrom col f'.rdiag = pivotFrom col f.rdiag := pivotFrom_congr fun c later => by
    rw [reduced.remaining c later, reduced'.remaining c later, tailNorm_real, tailNorm_real,
      h.tailSquare_eq later]
  have inside := (pivotFrom_spec col f.rdiag).1
  rw [same]
  set best := pivotFrom col f.rdiag
  -- Columns that are still to come trade places with each other.
  have moved {c : Fin n} (later : col ≤ c) :
      col ≤ if c = col then best else if c = best then col else c := by
    split
    · exact inside
    · split
      · exact le_rfl
      · exact later
  exact {
    pivots := by simp only [Factor.exchange, h.pivots]
    diagonal := fun c before => by
      have before : c < col := before
      rw [get_exchange_rdiag, get_exchange_rdiag, if_neg (ne_of_lt (lt_of_lt_of_le before inside))]
      exact h.diagonal c before
    product := fun c d from_c from_d => by
      simp only [get_exchange_packed]
      exact h.product _ _ (moved from_c) (moved from_d) }

theorem SameProducts.eliminate_of_zero {row : Fin m} {col : Fin n} (at_col : row.val = col)
    (h : SameProducts col f f') (chosen : f.Chosen col)
    (zero : tailSquare (f.packed.get col) row = 0) :
    SameProducts (col + 1) (f.eliminate true row col) (f'.eliminate true row col) := by
  have zero' : tailSquare (f'.packed.get col) row = 0 := by
    rw [at_col, h.tailSquare_eq le_rfl, ← at_col, zero]
  rw [Factor.eliminate_of_zero true row col zero, Factor.eliminate_of_zero true row col zero']
  rw [at_col] at zero
  -- Where the longest column is zero, all are.
  have none {c : Fin n} (later : col < c) : tailSquare (f.packed.get c) col = 0 :=
    le_antisymm ((chosen.largest c later).trans_eq zero) (tailSquare_nonneg _ _)
  exact {
    pivots := h.pivots
    diagonal := fun c done => by
      dsimp only
      rw [get_overwriteAt, get_overwriteAt]
      split
      · rfl
      next other =>
        exact h.diagonal c (lt_of_le_of_ne (Nat.le_of_lt_succ done) fun same =>
          other (Fin.ext same.symm))
    product := fun c d from_c _ => by
      have later : col < c := from_c
      have none' : tailSquare (f'.packed.get c) col = 0 := by
        rw [h.tailSquare_eq (le_of_lt later), none later]
      rw [tailDot_of_zero (none later) (Nat.le_succ _),
        tailDot_of_zero none' (Nat.le_succ _)] }

/-- What a reflection splits off the products of the columns after the one it is made for. -/
theorem EliminatedBy.product {g : Factor ℝ m n} {row : Fin m} {col : Fin n} {v : Vector ℝ m}
    (made : EliminatedBy true row col v f g) {c d : Fin n} (later_c : col < c) (later_d : col < d) :
    tailDot (g.packed.get c) (g.packed.get d) (row + 1) =
      tailDot (f.packed.get c) (f.packed.get d) row -
        tailDot (f.packed.get col) (f.packed.get c) row *
          tailDot (f.packed.get col) (f.packed.get d) row / tailSquare (f.packed.get col) row := by
  have later {c : Fin n} (lt : col < c) : g.packed.get c = reflect row v (f.packed.get c) := by
    rw [made.packed, if_neg (ne_of_gt lt), if_pos lt]
  -- The column it is made for keeps its first entry only, so that entry carries all its products.
  have lead {c : Fin n} (lt : col < c) : g.rdiag.get col * (g.packed.get c).get row =
      tailDot (f.packed.get col) (f.packed.get c) row := by
    have turned := made.reflector.tailDot_reflect (f.packed.get col) (f.packed.get c)
    have rest : tailDot (reflect row v (f.packed.get col)) (reflect row v (f.packed.get c))
        (row + 1) = 0 := by
      refine Finset.sum_eq_zero fun i after => ?_
      have after : row < i := (Finset.mem_filter.mp after).2
      rw [made.turned, if_neg (not_lt_of_gt after), if_neg (ne_of_gt after), zero_mul]
    rw [tailDot_succ, rest, add_zero, made.turned, if_neg (lt_irrefl row), if_pos rfl] at turned
    rw [later lt, turned]
  have split := tailDot_succ (g.packed.get c) (g.packed.get d) row
  rw [later later_c, later later_d, made.reflector.tailDot_reflect, ← later later_c,
    ← later later_d] at split
  have nonzero := made.nonzero
  rw [← lead later_c, ← lead later_d, ← made.diagonal, split]
  field_simp
  ring

theorem SameProducts.eliminate {row : Fin m} {col : Fin n} (at_col : row.val = col)
    (h : SameProducts col f f') (chosen : f.Chosen col) :
    SameProducts (col + 1) (f.eliminate true row col) (f'.eliminate true row col) := by
  by_cases zero : tailSquare (f.packed.get col) row = 0
  · exact h.eliminate_of_zero at_col chosen zero
  · have square : tailSquare (f'.packed.get col) row = tailSquare (f.packed.get col) row := by
      rw [at_col, h.tailSquare_eq le_rfl]
    obtain ⟨v, made⟩ := eliminate_of_nonzero true row col zero
    obtain ⟨v', made'⟩ := eliminate_of_nonzero true row col (square.trans_ne zero)
    exact {
      pivots := by rw [eliminate_pivots, eliminate_pivots, h.pivots]
      diagonal := fun c done => by
        rcases Nat.lt_succ_iff_lt_or_eq.mp done with before | now
        · rw [made.earlier c before, made'.earlier c before]
          exact h.diagonal c before
        · obtain rfl : c = col := Fin.ext now
          rw [made.diagonal, made'.diagonal, square]
      product := fun c d from_c from_d => by
        have product {c d : Fin n} (later_c : col ≤ c) (later_d : col ≤ d) :
            tailDot (f'.packed.get c) (f'.packed.get d) row =
              tailDot (f.packed.get c) (f.packed.get d) row := by
          rw [at_col]
          exact h.product c d later_c later_d
        have later_c : col < c := from_c
        have later_d : col < d := from_d
        rw [← at_col, made.product later_c later_d, made'.product later_c later_d, square,
          product (le_of_lt later_c) (le_of_lt later_d), product le_rfl (le_of_lt later_c),
          product le_rfl (le_of_lt later_d)] }

/-! ### The whole factorization -/

/-- Two factorizations side by side, each with the norms of what is left of its columns. -/
structure Matched (j : Nat) (f f' : Factor ℝ m n) : Prop extends SameProducts j f f' where
  reduced : f.Reduced j
  reduced' : f'.Reduced j

theorem step_matched {row : Fin m} {col : Fin n} (at_col : row.val = col)
    (h : Matched col f f') :
    Matched (col + 1) (f.step true row col) (f'.step true row col) := by
  have exchanged := h.toSameProducts.exchange h.reduced h.reduced'
  exact {
    toSameProducts := exchanged.eliminate at_col h.reduced.exchange
    reduced := h.reduced.exchange.eliminate at_col
    reduced' := h.reduced'.exchange.eliminate at_col }

/-- Matrices whose columns have the same products are factored with the same pivots and, up to
signs, the same diagonal. -/
theorem compute_sameProducts
    (gram : f'.packed.matrixᵀ * f'.packed.matrix = f.packed.matrixᵀ * f.packed.matrix) :
    SameProducts (min m n) (f.compute true) (f'.compute true) := by
  have matched : Matched (min m n) (f.compute true) (f'.compute true) := by
    refine foldl_related Matched
      ⟨prepare_sameProducts gram, prepare_reduced true f, prepare_reduced true f'⟩ ?_
    intro j done done' now
    exact @step_matched m n done done' (j.castLE (Nat.min_le_left m n))
      (j.castLE (Nat.min_le_right m n)) rfl now
  exact matched.toSameProducts

end Factor

end LeastSquares
