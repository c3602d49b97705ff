import LeastSquares.Proofs.Pivots

/-!
# Arranging the columns beforehand

A factorization with pivoting exchanges columns between its reflections, and carries the remaining
ones along under them. It nevertheless leaves exactly what a factorization without pivoting makes of
the matrix whose columns stand in the order of the final pivots from the start: the norms that
pivoting keeps up decide about the order only, and a column meets the same reflectors wherever it
waits for its turn. No law of arithmetic is needed for this, so it holds of rounded numbers, and of
what is no number, as well.
-/
namespace LeastSquares.Factor

variable {α : Type} [Scalar α] {m n : Nat}

/-! ### Both factorizations side by side -/

/-- `g`, whose columns are in their final order, and `f`, in which they are still on the way there,
hold the same columns. The indices that `f` carries along tell which column is which. -/
structure Prearranged (final : Fin n → Fin n) (k : Nat) (f g : Factor α m n) : Prop where
  column : ∀ c d : Fin n, f.pivots.get d = final c → g.packed.get c = f.packed.get d
  diagonal : ∀ c : Fin n, c.val < k → g.rdiag.get c = f.rdiag.get c

variable {final : Fin n → Fin n} {f g : Factor α m n}

omit [Scalar α] in
theorem Prearranged.exchange {col best : Fin n} (h : Prearranged final col f g)
    (inside : col ≤ best) : Prearranged final col (f.exchange col best) g where
  column c d label := by
    rw [get_exchange_pivots] at label
    rw [get_exchange_packed]
    exact h.column c _ label
  diagonal c before := by
    have fixed : c ≠ best := Fin.ne_of_lt (Fin.lt_of_lt_of_le before inside)
    rw [get_exchange_rdiag, if_neg fixed]
    exact h.diagonal c before

/-- The column at its final position is reflected in both, and the columns after it with it. -/
theorem Prearranged.eliminate {row : Fin m} {col : Fin n} (h : Prearranged final col f g)
    (settled : ∀ c ≤ col, f.pivots.get c = final c) (apart : Function.Injective f.pivots.get)
    (apart' : Function.Injective final) :
    Prearranged final (col + 1) (f.eliminate true row col) (g.eliminate false row col) := by
  have current : g.packed.get col = f.packed.get col :=
    h.column col col (settled col (Fin.le_refl col))
  have length : g.signedLength row col = f.signedLength row col := by
    simp only [signedLength, current]
  have reflector : g.columnReflector row col = f.columnReflector row col := by
    simp only [columnReflector, length, current]
  constructor
  · intro c d label
    rw [eliminate_pivots] at label
    have same := h.column c d label
    rw [eliminate_packed, eliminate_packed, current]
    split
    · exact same
    simp only [reflected, get_overwrite, reflector, same]
    -- A column up to `col` is where it belongs, so only columns after it can be elsewhere.
    by_cases c_settled : c ≤ col
    · rw [apart (label.trans (settled c c_settled).symm)]
    by_cases d_settled : d ≤ col
    · rw [apart' (label.symm.trans (settled d d_settled))]
    have c_later := Fin.not_le.mp c_settled
    have d_later := Fin.not_le.mp d_settled
    rw [if_neg (Fin.ne_of_gt c_later), if_neg (Fin.ne_of_gt d_later), if_pos c_later,
      if_pos d_later]
  · intro c done
    rcases Nat.lt_succ_iff_lt_or_eq.mp done with before | now
    · rw [get_eliminate_rdiag_of_lt _ _ _ _ before, get_eliminate_rdiag_of_lt _ _ _ _ before]
      exact h.diagonal c before
    · obtain rfl : c = col := Fin.ext now
      rw [get_eliminate_rdiag, get_eliminate_rdiag, current, length]

/-- The buffers `b`, with the columns of `f` in the order of the pivots that it ends with. -/
def arranged (f b : Factor α m n) : Factor α m n :=
  { b with packed := Vector.ofFn fun j => f.packed.get ((f.compute true).pivots.get j) }

theorem get_arranged (f b : Factor α m n) (j : Fin n) : (f.arranged b).packed.get j =
    f.packed.get ((f.compute true).pivots.get j) := by
  simp [arranged, get_eq]

theorem after_prearranged (f b : Factor α m n) {k : Nat} (inside : k ≤ min m n) :
    Prearranged (f.compute true).pivots.get k (f.after true k) ((f.arranged b).after false k) := by
  -- By induction on the steps: which column is which is fixed by where it will end up, so the
  -- relation is about the final pivots throughout, and not about the exchanges made so far.
  induction k with
  | zero =>
    constructor
    · intro c d label
      have label : d = (f.compute true).pivots.get c := (get_overwrite ..).symm.trans label
      rw [label]
      exact get_arranged f b c
    · exact fun c none => absurd none (Nat.not_lt_zero _)
  | succ k ih =>
    let j : Fin (min m n) := ⟨k, inside⟩
    let row := j.castLE (Nat.min_le_left m n)
    let col := j.castLE (Nat.min_le_right m n)
    have exchanged := (ih (Nat.le_of_succ_le inside)).exchange
      (le_pivotFrom col (f.after true k).rdiag)
    -- Up to `k` the columns are at their final positions once the exchange has been made.
    have same : (f.after true (k + 1)).pivots =
        ((f.after true k).exchange col (pivotFrom col (f.after true k).rdiag)).pivots := by
      rw [after_succ true f j]
      exact eliminate_pivots ..
    rw [after_succ true f j, after_succ false _ j]
    refine exchanged.eliminate (fun c settled => ?_) ?_ f.compute_pivots_bijective.injective
    · rw [← same, compute_eq_after]
      exact (f.get_after_pivots_of_lt inside (Nat.le_refl _) (Nat.lt_succ_of_le settled)).symm
    · rw [← same]
      exact (f.after_pivots_bijective inside).injective

/-- Factoring with pivoting is factoring without it what has been arranged beforehand in the order
of the pivots: the packed matrix and the diagonal of `R` are the same, in whatever arithmetic, and
the norms are those of the same columns. -/
theorem compute_prearranged (f b : Factor α m n) :
    let g := f.compute true
    let h := Factor.compute false
      { b with packed := Vector.ofFn fun j => f.packed.get (g.pivots.get j) }
    Function.Bijective g.pivots.get ∧ h.packed = g.packed ∧
      (∀ j : Fin n, j.val < min m n → h.rdiag.get j = g.rdiag.get j) ∧
      ∀ j, h.norms.get j = g.norms.get (g.pivots.get j) := by
  intro g h
  have side : Prearranged g.pivots.get (min m n) g h := by
    have done := f.after_prearranged b (Nat.le_refl (min m n))
    rwa [← compute_eq_after, ← compute_eq_after] at done
  refine ⟨f.compute_pivots_bijective, eq_of_get_eq fun c => side.column c c rfl, side.diagonal,
    fun j => ?_⟩
  rw [get_compute_norms, get_compute_norms, ← get_arranged f b]
  rfl

end LeastSquares.Factor
