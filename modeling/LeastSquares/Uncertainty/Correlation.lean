import LeastSquares.Columns

/-!
# Standard errors and correlation

Readings of a covariance matrix: the root of each variance, and each covariance relative to the
roots of its two variances. A parameter without variance has no error and no correlation.
-/
namespace LeastSquares

variable {α : Type} [Scalar α] {m n : Nat}

/-- The correlation matrix of a covariance matrix with at least as many columns as rows. A single
parameter is correlated with nothing, so its covariance is not needed. -/
def correlation (wide : 1 < m → m ≤ n) (cov : Columns α m n) : Columns α m m :=
  .ofEntries fun i j =>
    if same : i = j then 1
    else
      -- Two different rows mean that there is more than one.
      have wide : m ≤ n := wide (by omega)
      let variance (k : Fin m) : α := cov.entry k (k.castLE wide)
      let scale := sqrt (variance i * variance j)
      if scale > 0 then cov.entry i (j.castLE wide) / scale else 0

def standardErrors (cov : Columns α m n) : Vector α (min m n) :=
  Vector.ofFn fun k =>
    let variance := cov.entry (k.castLE (Nat.min_le_left m n)) (k.castLE (Nat.min_le_right m n))
    if variance > 0 then sqrt variance else 0

end LeastSquares
