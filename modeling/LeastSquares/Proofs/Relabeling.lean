import Mathlib.Data.Fintype.EquivFin
import LeastSquares.Proofs.Carrying

/-!
# The order of the parameters

The inverse is formed in the order of the pivots and then carried to the order of the parameters.
Nothing is computed on the way: what two parameters get is what their positions have in the inverse
that keeps the order of the pivots, whatever numbers these are, and a parameter at a position past
the rank gets zeros.
-/
namespace LeastSquares

namespace Columns

variable {α : Type} [Scalar α] {m n : Nat} (tall : n ≤ m) {pivots : Vector (Fin n) n}

/-- The positions themselves as the pivots. -/
def unpivoted (n : Nat) : Vector (Fin n) n :=
  .ofFn id

theorem get_unpivoted (i : Fin n) : (unpivoted n).get i = i := by
  simp [unpivoted, get_eq]

/-- Past the rank nothing is left in the order of the positions. -/
theorem lead_positioned_of_rank_le (r : Columns α m n) {rank : Nat} {i j : Fin n} (le : i ≤ j)
    (past : rank ≤ j) : (r.positioned tall rank).lead tall i j = 0 := by
  rw [positioned, lead_clearFrom _ le, if_pos past]

/-- Either way round, two parameters get the entry of their positions above the diagonal. -/
theorem lead_gramInverse_sorted (apart : Function.Injective pivots.get) (r : Columns α m n)
    (tol : α) (i j : Fin n) :
    (r.gramInverse tall pivots tol).1.lead tall (pivots.get i) (pivots.get j) =
      (r.positioned tall (r.leadingRank tall tol)).lead tall (min i j) (max i j) := by
  obtain ⟨symmetric, placed⟩ := @lead_gramInverse α m n _ tall _ apart r tol
  rcases le_total i j with le | le
  · rw [min_eq_left le, max_eq_right le, placed i j le]
  · rw [min_eq_right le, max_eq_left le, symmetric, placed j i le]

theorem lead_gramInverse_of_rank_le (apart : Function.Injective pivots.get) (r : Columns α m n)
    (tol : α) {i j : Fin n}
    (past : r.leadingRank tall tol ≤ i ∨ r.leadingRank tall tol ≤ j) :
    (r.gramInverse tall pivots tol).1.lead tall (pivots.get i) (pivots.get j) = 0 := by
  have later : r.leadingRank tall tol ≤ max i j :=
    past.elim (le_trans · (le_max_left i j)) (le_trans · (le_max_right i j))
  rw [lead_gramInverse_sorted tall apart, lead_positioned_of_rank_le tall r min_le_max later]

/-- Without pivots the entries are at the places of their positions. -/
theorem lead_gramInverse_unpivoted (apart : Function.Injective pivots.get) (r : Columns α m n)
    (tol : α) (i j : Fin n) :
    (r.gramInverse tall pivots tol).1.lead tall (pivots.get i) (pivots.get j) =
      (r.gramInverse tall (unpivoted n) tol).1.lead tall i j := by
  have still : Function.Injective (unpivoted n).get := fun i j same => by
    rwa [get_unpivoted, get_unpivoted] at same
  have straight := lead_gramInverse_sorted tall still r tol i j
  rw [get_unpivoted, get_unpivoted] at straight
  rw [lead_gramInverse_sorted tall apart, straight]

/-- For every permutation as pivots the inverse is symmetric and is the one without pivots, entry by
entry in the order of the parameters and with the same rank. The parameters at positions past the
rank have zeros in their rows and columns. -/
theorem gramInverse_relabeled (r : Columns α m n)
    (permutation : Function.Bijective pivots.get) (tol : α) :
    let (inverse, rank) := r.gramInverse tall pivots tol
    let (unmoved, rank') := r.gramInverse tall (unpivoted n) tol
    (∀ k l, inverse.lead tall k l = inverse.lead tall l k) ∧
    (∀ i j, inverse.lead tall (pivots.get i) (pivots.get j) = unmoved.lead tall i j) ∧
    rank = rank' ∧
    ∀ k : Fin n, rank ≤ k → ∀ l, inverse.lead tall (pivots.get k) l = 0 ∧
      inverse.lead tall l (pivots.get k) = 0 := by
  obtain ⟨symmetric, -⟩ := @lead_gramInverse α m n _ tall _ permutation.injective r tol
  refine ⟨symmetric, lead_gramInverse_unpivoted tall permutation.injective r tol, rfl, ?_⟩
  intro k past l
  obtain ⟨j, rfl⟩ := permutation.surjective l
  exact ⟨lead_gramInverse_of_rank_le tall permutation.injective r tol (.inl past),
    lead_gramInverse_of_rank_le tall permutation.injective r tol (.inr past)⟩

/-- A triangle with entries that are no numbers, whose last parameter depends on the others. -/
theorem gramInverse_relabeled_nan :
    let r : Columns Float 3 3 := #v[#v[2, 0 / 0, 5], #v[0 / 0, 3, 8], #v[1, 4, 0]]
    let pivots : Vector (Fin 3) 3 := #v[2, 0, 1]
    let (inverse, rank) := r.gramInverse (Nat.le_refl 3) pivots 0
    Function.Bijective pivots.get ∧ rank = 2 ∧ (∀ k l, inverse.entry k l = inverse.entry l k) ∧
      ∀ l, inverse.entry 1 l = (0.0 : Float) ∧ inverse.entry l 1 = (0.0 : Float) := by
  intro r pivots
  have permutation : Function.Bijective pivots.get := by decide
  have rank : (r.gramInverse (Nat.le_refl 3) pivots 0).2 = 2 := by decide +kernel
  obtain ⟨symmetric, -, -, zeros⟩ := gramInverse_relabeled (Nat.le_refl 3) r permutation 0
  exact ⟨permutation, rank, symmetric, zeros 2 (le_of_eq rank)⟩

end Columns

end LeastSquares
