import Mathlib.Logic.Equiv.Basic
import LeastSquares.Proofs.Elimination

/-!
# Pivots and column norms

A factorization with pivoting exchanges columns and their indices alike, so that every column ends
up at one position, and a position that has been passed keeps its column. The norms it reports are
those that the columns had at first.
-/
namespace LeastSquares

theorem interchange_get {α : Type} {n : Nat} (v : Vector α n) (j k : Fin n) :
    (interchange v j k).get = v.get ∘ Equiv.swap j k := by
  funext i
  rw [get_interchange, Function.comp_apply, Equiv.swap_apply_def]
  split
  · rfl
  · split <;> rfl

variable {α : Type} [Scalar α] {m n : Nat}

namespace Factor

theorem eliminate_pivots (pivot : Bool) (row : Fin m) (col : Fin n) (f : Factor α m n) :
    (f.eliminate pivot row col).pivots = f.pivots := by
  unfold eliminate
  dsimp only
  split <;> rfl

theorem eliminate_norms (pivot : Bool) (row : Fin m) (col : Fin n) (f : Factor α m n) :
    (f.eliminate pivot row col).norms = f.norms := by
  unfold eliminate
  dsimp only
  split <;> rfl

theorem step_norms (pivot : Bool) (row : Fin m) (col : Fin n) (f : Factor α m n) :
    (f.step pivot row col).norms = f.norms := by
  unfold step
  rw [eliminate_norms]
  split <;> rfl

/-- The norms are those of the columns before anything was exchanged or reflected. -/
theorem get_compute_norms (pivot : Bool) (f : Factor α m n) (l : Fin n) :
    (f.compute pivot).norms.get l = norm (f.packed.get l).toList := by
  have kept : (f.compute pivot).norms = (f.prepare pivot).norms :=
    foldl_invariant (fun _ done => Factor.norms done = (f.prepare pivot).norms) rfl
      fun j done now => (step_norms ..).trans now
  rw [kept]
  exact get_overwrite ..

/-- Without pivoting the pivots stay as they are. -/
theorem compute_pivots_of_not_pivot (f : Factor α m n) : (f.compute false).pivots = f.pivots :=
  foldl_invariant (fun _ done => Factor.pivots done = f.pivots) rfl
    fun _ _ now => (eliminate_pivots ..).trans now

/-! ### Permutations -/

/-- Exchanging columns exchanges their indices. -/
theorem step_pivots_bijective (row : Fin m) (col : Fin n) {f : Factor α m n}
    (h : Function.Bijective f.pivots.get) :
    Function.Bijective (f.step true row col).pivots.get := by
  have exchanged : (f.step true row col).pivots.get =
      f.pivots.get ∘ Equiv.swap col (pivotFrom col f.rdiag) := by
    rw [← interchange_get]
    exact congrArg Vector.get (eliminate_pivots ..)
  rw [exchanged]
  exact h.comp (Equiv.bijective _)

/-- With pivoting every column has one position, at every step. -/
theorem after_pivots_bijective (f : Factor α m n) {k : Nat} (inside : k ≤ min m n) :
    Function.Bijective (f.after true k).pivots.get := by
  refine after_invariant (fun _ g => Function.Bijective (Factor.pivots g).get) ?_
    (fun j g now => step_pivots_bijective _ _ now) inside
  have identity : (f.prepare true).pivots.get = id := funext fun j => get_overwrite ..
  rw [identity]
  exact Function.bijective_id

theorem compute_pivots_bijective (f : Factor α m n) :
    Function.Bijective (f.compute true).pivots.get := by
  rw [compute_eq_after]
  exact f.after_pivots_bijective (Nat.le_refl _)

theorem get_step_pivots_of_lt (row : Fin m) {col c : Fin n} (before : c < col)
    (f : Factor α m n) : (f.step true row col).pivots.get c = f.pivots.get c := by
  have exchanged : (f.step true row col).pivots =
      (f.exchange col (pivotFrom col f.rdiag)).pivots := eliminate_pivots ..
  rw [exchanged, get_exchange_pivots, exchanged_of_lt (le_pivotFrom ..) before]

/-- A column that has been brought to its position stays there. -/
theorem get_after_pivots_of_lt (f : Factor α m n) {k l : Nat} (le : k ≤ l) (inside : l ≤ min m n)
    {c : Fin n} (before : c.val < k) :
    (f.after true l).pivots.get c = (f.after true k).pivots.get c := by
  induction le with
  | refl => rfl
  | @step l le ih =>
    rw [after_succ true f ⟨l, inside⟩, get_step_pivots_of_lt]
    · exact ih (Nat.le_of_succ_le inside)
    · exact Nat.lt_of_lt_of_le before le

end Factor

end LeastSquares
