import LeastSquares.Proofs.Exact.Scalar
import LeastSquares.Spot.Image

/-!
# Where the fit of a spot starts

The floors under background and amplitude put the threshold of the bright pixels above the
background. So every bright pixel has a positive weight, and their centroid, if there are any, lies
between the first and the last column and row. Without errors of rounding the estimate therefore is
a spot that the vector of a fit stands for, and its residuals can be evaluated, whatever the image.
-/
namespace LeastSquares

namespace Image

/-! ### Weights -/

/-- The sums over bright pixels in the columns up to `right` and in the rows up to `bottom`. -/
structure Moments.Weighed (right bottom : ℝ) (s : Moments ℝ) : Prop where
  total : 0 ≤ s.total
  columns : 0 ≤ s.columns ∧ s.columns ≤ s.total * right
  rows : 0 ≤ s.rows ∧ s.rows ≤ s.total * bottom

variable {right bottom : ℝ}

/-- One more bright pixel. -/
theorem Moments.Weighed.add {s : Moments ℝ} (h : s.Weighed right bottom) {weight column row : ℝ}
    (positive : 0 ≤ weight) (inColumns : 0 ≤ column ∧ column ≤ right)
    (inRows : 0 ≤ row ∧ row ≤ bottom) :
    Weighed right bottom ⟨s.total + weight, s.columns + weight * column, s.rows + weight * row,
      s.count + 1⟩ := by
  have within {sum place last : ℝ} (sums : 0 ≤ sum ∧ sum ≤ s.total * last)
      (places : 0 ≤ place ∧ place ≤ last) :
      0 ≤ sum + weight * place ∧ sum + weight * place ≤ (s.total + weight) * last := by
    refine ⟨add_nonneg sums.1 (mul_nonneg positive places.1), ?_⟩
    rw [add_mul]
    exact add_le_add sums.2 (mul_le_mul_of_nonneg_left places.2 positive)
  exact ⟨add_nonneg h.total positive, within h.columns inColumns, within h.rows inRows⟩

end Image

end LeastSquares
