import Mathlib
import LeastSquares.Buffer

/-!
# Exact arithmetic

The real numbers as scalars: no operation rounds, roots are exact and the norm of a vector is its
Euclidean norm. Only the constants are still those of double precision. Every routine of the library
can be read over them, and is then the method itself without its errors of rounding.
-/
namespace LeastSquares

noncomputable instance : Numeric ℝ where
  toZero := inferInstance
  toOne := inferInstance
  toAdd := inferInstance
  toSub := inferInstance
  toMul := inferInstance
  toDiv := inferInstance
  toNeg := inferInstance
  toOfScientific := inferInstance
  toLT := inferInstance
  toLE := inferInstance
  toBEq := inferInstance
  decLt := inferInstance
  decLe := inferInstance
  ofNat n := n
  sqrt := Real.sqrt
  abs x := |x|
  exp := Real.exp
  larger := max
  smaller := min
  epsilon := 2 ^ (-52 : ℤ)
  tiny := 2 ^ (-1022 : ℤ)

noncomputable instance : Scalar ℝ where
  norm x := √(x.map (· ^ 2)).sum

/-! ### Operations -/

@[simp] theorem sqrt_real (x : ℝ) : sqrt x = √x := rfl

@[simp] theorem abs_real (x : ℝ) : abs x = |x| := rfl

@[simp] theorem larger_real (x y : ℝ) : larger x y = max x y := rfl

@[simp] theorem smaller_real (x y : ℝ) : smaller x y = min x y := rfl

theorem epsilon_pos : 0 < (Numeric.epsilon : ℝ) := by
  change (0 : ℝ) < 2 ^ (-52 : ℤ)
  positivity

theorem tiny_pos : 0 < (Numeric.tiny : ℝ) := by
  change (0 : ℝ) < 2 ^ (-1022 : ℤ)
  positivity

/-! ### Sums -/

variable {n : Nat}

theorem sumWhere_real (p : Fin n → Prop) [DecidablePred p] (f : Fin n → ℝ) :
    sumWhere p f = ∑ i with p i, f i := by
  rw [Finset.sum_filter]
  unfold sumWhere
  induction n with
  | zero => simp
  | succ n ih =>
    rw [Fin.foldl_succ_last, Fin.sum_univ_castSucc,
      ← ih (fun i => p i.castSucc) (fun i => f i.castSucc)]
    split
    · rfl
    · rw [add_zero]

/-- A sum over the indices from `j` on begins with the summand of `j`. -/
theorem sum_from (f : Fin n → ℝ) (j : Fin n) :
    ∑ i with j.val ≤ i.val, f i = f j + ∑ i with j.val + 1 ≤ i.val, f i := by
  have split : (Finset.univ.filter fun i : Fin n => j.val ≤ i.val) =
      insert j (Finset.univ.filter fun i : Fin n => j.val + 1 ≤ i.val) := by
    ext i
    simp only [Finset.mem_filter, Finset.mem_univ, true_and, Finset.mem_insert, Fin.ext_iff]
    omega
  rw [split, Finset.sum_insert (by simp)]

/-! ### Norms -/

/-- The sum of the squares of the entries from position `j` on. -/
noncomputable def tailSquare (v : Vector ℝ n) (j : Nat) : ℝ :=
  ∑ i with j ≤ i.val, v.get i ^ 2

theorem toList_eq_ofFn {α : Type} (v : Vector α n) : v.toList = List.ofFn v.get := by
  apply List.ext_getElem
  · simp
  · intro i _ _
    simp [get_eq]

theorem sum_drop_ofFn (f : Fin n → ℝ) (j : Nat) :
    ((List.ofFn f).drop j).sum = ∑ i with j ≤ i.val, f i := by
  rw [Finset.sum_filter]
  induction n generalizing j with
  | zero => simp
  | succ n ih =>
    rw [List.ofFn_succ, Fin.sum_univ_succ]
    cases j with
    | zero => simp [List.sum_ofFn]
    | succ j => simp [ih]

theorem tailNorm_real (v : Vector ℝ n) (j : Nat) : tailNorm v j = √(tailSquare v j) := by
  change √((v.toList.drop j).map (· ^ 2)).sum = _
  rw [toList_eq_ofFn, List.map_drop, List.map_ofFn, sum_drop_ofFn]
  rfl

theorem norm_real (v : Vector ℝ n) : norm v.toList = √(∑ i, v.get i ^ 2) := by
  have whole := tailNorm_real v 0
  simpa [tailNorm, tailSquare] using whole

theorem norm_nonneg (v : Vector ℝ n) : 0 ≤ norm v.toList :=
  Real.sqrt_nonneg _

theorem norm_eq_zero_iff (v : Vector ℝ n) : norm v.toList = 0 ↔ ∀ i, v.get i = 0 := by
  rw [norm_real, Real.sqrt_eq_zero (Finset.sum_nonneg fun i _ => sq_nonneg (v.get i)),
    Finset.sum_eq_zero_iff_of_nonneg fun i _ => sq_nonneg (v.get i)]
  simp

end LeastSquares
