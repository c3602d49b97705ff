import LeastSquares.Proofs.Divisors

/-!
# Other divisions

A routine none of whose divisors is zero makes nothing of what a division by zero would give: it
computes the same with any operation that divides by what is not zero. So the lists of divisors
leave out none that counts. Every lemma below is about one routine, with the other division on its
left side.
-/
namespace LeastSquares

variable {α : Type}

/-- The scalars with `quotient` for their division. -/
abbrev Scalar.redivide [Scalar α] (quotient : α → α → α) : Scalar α :=
  { ‹Scalar α› with div := quotient }

/-- An operation that divides by what is not zero. -/
def Scalar.Divides [Scalar α] (quotient : α → α → α) : Prop :=
  ∀ x y, y ≠ 0 → quotient x y = x / y

variable [Scalar α] {q : α → α → α} (h : Scalar.Divides q) {m n : Nat}
include h

/-! ### Factorization -/

theorem reflector_redivide {length : α} (nonzero : length ≠ 0) (j : Fin m) (col : Vector α m) :
    @reflector α (.redivide q) m j length col = reflector j length col := by
  have quotient : (fun i => q (col.get i) length) = fun i => col.get i / length :=
    funext fun i => h _ _ nonzero
  exact congrArg (fun f => overwriteAt (overwriteWhere col (j ≤ ·) f) j
    ((overwriteWhere col (j ≤ ·) f).get j + 1)) quotient

theorem reflect_redivide {j : Fin m} {v : Vector α m} (nonzero : v.get j ≠ 0) (w : Vector α m) :
    @reflect α (.redivide q) m j v w = reflect j v w :=
  congrArg (fun t => overwriteWhere w (j ≤ ·) fun i => w.get i - t * v.get i) (h _ _ nonzero)

namespace Factor

theorem downdate_redivide {remaining reference : α}
    (clear : 0 ∉ downdateDivisors remaining reference) (j : Fin m) (col : Vector α m) :
    @downdate α (.redivide q) m j col remaining reference = downdate j col remaining reference := by
  unfold downdate
  split
  · rfl
  next nonzero =>
    rw [downdateDivisors, if_neg nonzero, List.mem_cons, List.mem_singleton, not_or] at clear
    dsimp only
    rw [← h _ _ (Ne.symm clear.1), ← h _ _ (Ne.symm clear.2)]
    rfl

variable {pivot : Bool} {row : Fin m} {col : Fin n} {f : Factor α m n}

theorem reflected_redivide (nonzero : f.signedLength row col ≠ 0)
    (lead : ∀ k, col < k → (f.columnReflector row col).get row ≠ 0) :
    @reflected α (.redivide q) m n row col f = f.reflected row col := by
  have v : @columnReflector α (.redivide q) m n row col f = f.columnReflector row col :=
    reflector_redivide h nonzero row (f.packed.get col)
  refine congrArg (overwrite f.packed) (funext fun k => ?_)
  rw [v]
  refine ite_congr rfl (fun _ => rfl) fun _ => ?_
  exact ite_congr rfl (fun after => reflect_redivide h (lead k after) _) fun _ => rfl

theorem downdated_redivide (row : Fin m) (clear : ∀ k, col < k → pivot →
      0 ∉ downdateDivisors (f.rdiag.get k) (f.reference.get k)) (packed : Columns α m n) :
    @downdated α (.redivide q) m n pivot row col f packed = f.downdated pivot row col packed := by
  refine congrArg (overwrite f.rdiag) (funext fun k => ?_)
  refine ite_congr rfl (fun both => ?_) fun _ => rfl
  exact downdate_redivide h (clear k both.2 both.1) row _

theorem eliminate_redivide (clear : 0 ∉ f.eliminateDivisors pivot row col) :
    @eliminate α (.redivide q) m n pivot row col f = f.eliminate pivot row col := by
  by_cases zero : (tailNorm (f.packed.get col) row == 0) = true
  · exact (if_pos zero).trans (if_pos zero).symm
  · obtain ⟨nonzero, later⟩ := not_mem_eliminateDivisors.mp clear zero
    have reflected := reflected_redivide h nonzero fun k after => (later k after).1
    have downdated := downdated_redivide h row (fun k after => (later k after).2)
    rw [eliminate_of_size zero, ← downdated, ← reflected]
    exact @eliminate_of_size α (.redivide q) m n pivot row col f zero

theorem compute_redivide (clear : 0 ∉ f.divisors pivot) :
    @compute α (.redivide q) m n pivot f = f.compute pivot :=
  foldl_eq_of_not_mem_tally clear fun _ _ clear => eliminate_redivide h clear

end Factor

theorem project_redivide {packed : Columns α m n} (clear : 0 ∉ projectDivisors packed)
    (w : Vector α m) : @project α (.redivide q) m n packed w = project packed w := by
  refine congrArg (fun f => Fin.foldl (min m n) f w) (funext fun w => funext fun j => ?_)
  refine ite_congr rfl (fun _ => rfl) fun nonzero => reflect_redivide h (fun zero => clear ?_) w
  rw [projectDivisors, List.mem_flatMap]
  refine ⟨j, List.mem_finRange j, ?_⟩
  rw [if_neg nonzero, zero]
  exact List.mem_singleton_self 0

theorem gradientNorm_redivide (tall : n ≤ m) (r : Columns α m n) {pivots : Vector (Fin n) n}
    (qtf : Vector α n) {norms : Vector α n} {fnorm : α}
    (clear : 0 ∉ gradientDivisors pivots norms fnorm) :
    @gradientNorm α (.redivide q) m n tall r pivots qtf norms fnorm =
      gradientNorm tall r pivots qtf norms fnorm := by
  refine ite_congr rfl (fun _ => rfl) fun some => ?_
  refine congrArg (fun f => Fin.foldl n f 0) (funext fun g => funext fun j => ?_)
  refine ite_congr rfl (fun _ => rfl) fun nonzero => ?_
  have divisors : 0 ∉ [fnorm, norms.get (pivots.get j)] := by
    intro zero
    rw [gradientDivisors, if_neg some, List.mem_flatMap] at clear
    exact clear ⟨j, List.mem_finRange j, by rwa [if_neg nonzero]⟩
  rw [List.mem_cons, List.mem_singleton, not_or] at divisors
  have quotients : (fun i => r.lead tall i j * q (qtf.get i) fnorm) =
      fun i => r.lead tall i j * (qtf.get i / fnorm) :=
    funext fun i => congrArg _ (h _ _ (Ne.symm divisors.1))
  refine congrArg (fun x => larger g (abs x)) ((h _ _ (Ne.symm divisors.2)).trans ?_)
  exact congrArg (fun f => sumWhere (· ≤ j) f / norms.get (pivots.get j)) quotients

/-! ### Damped solves -/

theorem Rotation.annihilate_redivide {a b : α} (clear : 0 ∉ Rotation.divisors a b) :
    @Rotation.annihilate α (.redivide q) a b = Rotation.annihilate a b := by
  -- Either way the larger entry and a root are divided by.
  have quotients (x y : α) (clear : 0 ∉ [y, sqrt (0.25 + 0.25 * (x / y) * (x / y))]) :
      q x y = x / y ∧ q 0.5 (sqrt (0.25 + 0.25 * q x y * q x y)) =
        0.5 / sqrt (0.25 + 0.25 * (x / y) * (x / y)) := by
    rw [List.mem_cons, List.mem_singleton, not_or] at clear
    have quotient := h x y (Ne.symm clear.1)
    exact ⟨quotient, by rw [quotient]; exact h _ _ (Ne.symm clear.2)⟩
  unfold Rotation.divisors at clear
  by_cases small : abs a < abs b
  · rw [if_pos small] at clear
    obtain ⟨cotan, sin⟩ := quotients a b clear
    refine (if_pos small).trans (Eq.trans ?_ (if_pos small).symm)
    dsimp only
    rw [← sin, ← cotan]
    rfl
  · rw [if_neg small] at clear
    obtain ⟨tan, cos⟩ := quotients b a clear
    refine (if_neg small).trans (Eq.trans ?_ (if_neg small).symm)
    dsimp only
    rw [← cos, ← tan]
    rfl

namespace Absorption

variable {tall : n ≤ m} {s : Absorption α m n}

theorem rotate_redivide {k : Fin n} (clear : 0 ∉ s.rotateDivisors tall k) :
    @rotate α (.redivide q) m n tall k s = s.rotate tall k := by
  refine ite_congr rfl (fun _ => rfl) fun nonzero => ?_
  rw [rotateDivisors, if_neg nonzero] at clear
  exact congrArg (fun g : Rotation α => ({
    triangle := overwriteAt s.triangle k <|
      overwriteHead (s.triangle.get k) fun i : Fin n =>
        if k ≤ i then g.cos * s.triangle.lead tall i k + g.sin * s.row.get i
        else s.triangle.lead tall i k
    rhs := overwriteAt s.rhs k (g.cos * s.rhs.get k + g.sin * s.extra)
    row := overwriteWhere s.row (k < ·) fun i =>
      -g.sin * s.triangle.lead tall i k + g.cos * s.row.get i
    extra := -g.sin * s.rhs.get k + g.cos * s.extra } : Absorption α m n))
    (Rotation.annihilate_redivide h clear)

theorem run_redivide (clear : 0 ∉ s.divisors tall) :
    @run α (.redivide q) m n tall s = s.run tall :=
  foldl_eq_of_not_mem_tally clear fun _ _ clear => rotate_redivide h clear

end Absorption

namespace Triangular

variable {tall : n ≤ m} {s : Triangular α m n} {diag : Vector α n}

theorem backSubstitute_redivide (a : Columns α m n) {sdiag : Vector α n} {rank : Nat}
    (nonzero : ∀ j : Fin n, j < rank → sdiag.get j ≠ 0) (rhs : Vector α n) :
    @backSubstitute α (.redivide q) m n tall a sdiag rank rhs =
      backSubstitute tall a sdiag rank rhs := by
  refine congrArg (fun f => Fin.foldr n f _) (funext fun j => funext fun w => ?_)
  refine ite_congr rfl (fun inside => ?_) fun _ => rfl
  exact congrArg (overwriteAt w j) (h _ _ (nonzero j inside))

theorem absorbDamping_redivide {state : Columns α m n × Vector α n} {j : Fin n}
    (clear : 0 ∉ s.absorbDivisors tall diag state j) :
    @absorbDamping α (.redivide q) m n tall s diag j state = s.absorbDamping tall diag j state :=
  congrArg (fun done : Absorption α m n => (done.triangle, done.rhs))
    (Absorption.run_redivide h clear)

omit h

/-- The solution, from what is left of a system when its damping has been absorbed. -/
def solution (tall : n ≤ m) (s : Triangular α m n) (x sdiag : Vector α n)
    (absorbed : Columns α m n × Vector α n) : DampedSolution α m n :=
  let saved := overwrite x fun j => s.r.lead tall j j
  let sdiag := overwrite sdiag fun j => absorbed.1.lead tall j j
  let r := absorbed.1.withDiagonal tall saved
  let z := backSubstitute tall r sdiag (firstIndex fun j : Fin n => sdiag.get j == 0) absorbed.2
  { r, x := scatter s.pivots z saved, sdiag, permuted := z }

theorem damped_eq_solution (tall : n ≤ m) (s : Triangular α m n)
    (diag x sdiag permuted : Vector α n) : s.damped tall diag x sdiag permuted =
      s.solution tall x sdiag (Fin.foldl n (fun state j => s.absorbDamping tall diag j state)
        (withLowerCopy tall s.r, overwrite permuted s.qtb.get)) :=
  rfl

include h

theorem solution_redivide {x sdiag : Vector α n} {absorbed : Columns α m n × Vector α n}
    (clear : 0 ∉ entriesBefore (s.solution tall x sdiag absorbed).sdiag.get
      (firstIndex fun j : Fin n => (s.solution tall x sdiag absorbed).sdiag.get j == 0)) :
    @solution α (.redivide q) m n tall s x sdiag absorbed = s.solution tall x sdiag absorbed := by
  have z := @backSubstitute_redivide _ _ _ h m n tall (s.solution tall x sdiag absorbed).r _ _
    (fun j inside zero => clear (mem_entriesBefore.mpr ⟨j, inside, zero⟩)) absorbed.2
  exact congrArg (fun z => { s.solution tall x sdiag absorbed with
    x := scatter s.pivots z (overwrite x fun j => s.r.lead tall j j), permuted := z }) z

theorem damped_redivide {x sdiag permuted : Vector α n}
    (clear : 0 ∉ s.dampedDivisors tall diag x sdiag permuted) :
    @damped α (.redivide q) m n tall s diag x sdiag permuted =
      s.damped tall diag x sdiag permuted := by
  rw [dampedDivisors, List.mem_append, not_or] at clear
  obtain ⟨absorbing, substituting⟩ := clear
  have absorbed := foldl_eq_of_not_mem_tally absorbing
    fun _ _ clear => absorbDamping_redivide h clear
  refine (@damped_eq_solution α (.redivide q) m n tall s diag x sdiag permuted).trans ?_
  exact (congrArg (@solution α (.redivide q) m n tall s x sdiag) absorbed).trans
    (solution_redivide h substituting)

theorem undamped_redivide (clear : 0 ∉ entriesBefore (fun j => s.r.lead tall j j) (s.rank tall))
    (buffer : Vector α n) :
    @undamped α (.redivide q) m n tall s buffer = s.undamped tall buffer := by
  refine congrArg (fun f => Fin.foldr n f _) (funext fun j => funext fun w => ?_)
  refine ite_congr rfl (fun inside => ?_) fun _ => rfl
  have nonzero : s.r.lead tall j j ≠ 0 := fun zero =>
    clear (mem_entriesBefore.mpr ⟨j, inside, zero⟩)
  exact congrArg (fun t => overwriteWhere (overwriteAt w j t) (· < j) fun i =>
    w.get i - s.r.lead tall i j * t) (h _ _ nonzero)

theorem boundaryNormal_redivide {length : α} (nonzero : length ≠ 0) (scaled buffer : Vector α n) :
    @boundaryNormal α (.redivide q) m n s diag scaled length buffer =
      s.boundaryNormal diag scaled length buffer :=
  congrArg (overwrite buffer) (funext fun _ => congrArg _ (h _ _ nonzero))

theorem forwardSubstitute_redivide (nonzero : ∀ j, s.r.lead tall j j ≠ 0) (w : Vector α n) :
    @forwardSubstitute α (.redivide q) m n tall s w = s.forwardSubstitute tall w :=
  congrArg (fun f => Fin.foldl n f w) (funext fun w => funext fun j =>
    congrArg (overwriteAt w j) (h _ _ (nonzero j)))

theorem scaledGradient_redivide (nonzero : ∀ j, diag.get (s.pivots.get j) ≠ 0)
    (buffer : Vector α n) :
    @scaledGradient α (.redivide q) m n tall s diag buffer = s.scaledGradient tall diag buffer :=
  congrArg (overwrite buffer) (funext fun j => h _ _ (nonzero j))

theorem solveDampedTranspose_redivide (r : Columns α m n) {sdiag : Vector α n}
    (nonzero : ∀ j, sdiag.get j ≠ 0) (w : Vector α n) :
    @solveDampedTranspose α (.redivide q) m n tall r sdiag w =
      solveDampedTranspose tall r sdiag w :=
  congrArg (fun f => Fin.foldl n f w) (funext fun w => funext fun j =>
    congrArg (fun t => overwriteWhere (overwriteAt w j t) (j < ·) fun i =>
      w.get i - r.lead tall i j * t) (h _ _ (nonzero j)))

end Triangular

/-! ### The search for the damping -/

namespace Refinement

variable {tall : n ≤ m} {s : Triangular α m n} {diag : Vector α n} {delta : α}
  {state : Refinement α m n}

theorem attempt_redivide (clear : 0 ∉ state.attemptDivisors tall s diag) :
    @attempt α (.redivide q) m n tall s diag delta state = state.attempt tall s diag delta := by
  have solved := Triangular.damped_redivide h clear
  unfold damping at solved
  unfold attempt
  dsimp only
  rw [← solved]
  rfl

theorem correct_redivide (clear : 0 ∉ state.correctDivisors tall s diag delta) :
    @correct α (.redivide q) m n tall s diag delta state = state.correct tall s diag delta := by
  unfold correctDivisors at clear
  simp only [List.mem_append, List.mem_cons, List.mem_ofFn, List.not_mem_nil, or_false, not_or,
    not_exists] at clear
  obtain ⟨⟨length, sdiag⟩, radius, slope⟩ := clear
  have normal := @Triangular.boundaryNormal_redivide _ _ _ h m n s diag _ (Ne.symm length)
    state.buffers.scaled state.buffers.direction
  have direction := @Triangular.solveDampedTranspose_redivide _ _ _ h m n tall state.r _ sdiag
    (s.boundaryNormal diag state.buffers.scaled state.length state.buffers.direction)
  unfold correct
  dsimp only
  rw [← h _ _ (Ne.symm slope), ← h _ _ (Ne.symm slope), ← h _ _ (Ne.symm radius), ← direction,
    ← normal]
  rfl

theorem run_redivide (more : Nat) {state : Refinement α m n}
    (clear : 0 ∉ divisors tall s diag delta more state) :
    @run α (.redivide q) m n tall s diag delta more state = run tall s diag delta more state := by
  induction more generalizing state with
  | zero => exact congrArg Prod.fst (attempt_redivide h clear)
  | succ more ih =>
    rw [divisors, List.mem_append, not_or] at clear
    obtain ⟨attempting, going⟩ := clear
    unfold run
    rw [attempt_redivide h attempting]
    split
    next => rfl
    next t poor =>
      rw [poor, List.mem_append, not_or] at going
      rw [correct_redivide h going.1]
      exact ih going.2

end Refinement

namespace Triangular

variable {tall : n ≤ m} {s : Triangular α m n} {diag : Vector α n} {delta par : α}

theorem newton_redivide {length : α} {buffers : SearchBuffers α n}
    (clear : 0 ∉ s.newtonDivisors tall diag delta length buffers) :
    @newtonNormal α (.redivide q) m n tall s diag length buffers =
        s.newtonNormal tall diag length buffers ∧
      @newtonBound α (.redivide q) m n tall s diag delta length buffers =
        s.newtonBound tall diag delta length buffers := by
  have parts (full : ¬ s.rank tall < n) : length ≠ 0 ∧ (∀ j, s.r.lead tall j j ≠ 0) ∧
      delta ≠ 0 ∧ norm (s.newtonNormal tall diag length buffers).toList ≠ 0 := by
    rw [newtonDivisors, if_neg full] at clear
    simp only [List.mem_append, List.mem_cons, List.mem_ofFn, List.not_mem_nil, or_false, not_or,
      not_exists] at clear
    exact ⟨Ne.symm clear.1.1, clear.1.2, Ne.symm clear.2.1, Ne.symm clear.2.2⟩
  have normal : @newtonNormal α (.redivide q) m n tall s diag length buffers =
      s.newtonNormal tall diag length buffers := by
    refine ite_congr rfl (fun _ => rfl) fun full => ?_
    obtain ⟨nonzero, diagonal, -, -⟩ := parts full
    rw [← forwardSubstitute_redivide h diagonal, ← boundaryNormal_redivide h nonzero]
  refine ⟨normal, ite_congr rfl (fun _ => rfl) fun full => ?_⟩
  obtain ⟨-, -, radius, slope⟩ := parts full
  rw [normal, ← h _ _ slope, ← h _ _ slope, ← h _ _ radius]
  rfl

theorem gradientBound_redivide {steepness : α}
    (clear : 0 ∉ gradientBoundDivisors delta steepness) :
    @gradientBound α (.redivide q) delta steepness = gradientBound delta steepness := by
  rw [gradientBoundDivisors, List.mem_cons, not_or, List.mem_ite_nil_right, List.mem_singleton,
    not_and] at clear
  obtain ⟨radius, smallest⟩ := clear
  have bound : q steepness delta = steepness / delta := h _ _ (Ne.symm radius)
  unfold gradientBound
  dsimp only
  rw [← bound] at smallest ⊢
  exact ite_congr rfl (fun zero => h _ _ (Ne.symm (smallest zero))) fun _ => rfl

theorem firstDamping_redivide {lower upper length : α} (steepness : α)
    (clear : 0 ∉ firstDampingDivisors par lower upper length) :
    @firstDamping α (.redivide q) par lower upper steepness length =
      firstDamping par lower upper steepness length := by
  rw [firstDampingDivisors, List.mem_ite_nil_right, List.mem_singleton, not_and] at clear
  exact ite_congr rfl (fun zero => h _ _ (Ne.symm (clear zero))) fun _ => rfl

theorem bracket_redivide {length : α} {buffers : SearchBuffers α n}
    (clear : 0 ∉ s.bracketDivisors tall diag delta par length buffers) :
    @bracket α (.redivide q) m n tall s diag delta par length buffers =
      s.bracket tall diag delta par length buffers := by
  simp only [bracketDivisors, List.mem_append, not_or, List.mem_ofFn, not_exists] at clear
  obtain ⟨⟨⟨newton, scales⟩, bound⟩, damping⟩ := clear
  obtain ⟨normal, lower⟩ := newton_redivide h newton
  have gradient := @scaledGradient_redivide _ _ _ h m n tall s diag scales
    (s.newtonNormal tall diag length buffers)
  refine Eq.trans ?_ (bracket_eq ..).symm
  dsimp only
  rw [← firstDamping_redivide h _ damping, ← gradientBound_redivide h bound, ← lower, ← gradient,
    ← normal]
  rfl

theorem search_redivide {buffers : SearchBuffers α n}
    (clear : 0 ∉ s.searchDivisors tall diag delta par buffers) :
    @search α (.redivide q) m n tall s diag delta par buffers =
      s.search tall diag delta par buffers := by
  unfold searchDivisors at clear
  dsimp only at clear
  rw [List.mem_append, not_or, List.mem_ite_nil_left, List.mem_append, not_and, not_or] at clear
  obtain ⟨rank, leaves⟩ := clear
  unfold search
  rw [undamped_redivide h rank]
  dsimp only
  refine ite_congr rfl (fun _ => rfl) fun long => ?_
  obtain ⟨bracketing, refining⟩ := leaves long
  rw [← Refinement.run_redivide h _ refining, ← bracket_redivide h bracketing]
  rfl

end Triangular

/-! ### The region -/

theorem Reduction.measure_redivide {current trial length par : α} {image : Vector α n}
    (clear : 0 ∉ Reduction.divisors current trial length par image) :
    @Reduction.measure α (.redivide q) n current trial length par image =
      measure current trial length par image := by
  simp only [Reduction.divisors, List.mem_append, List.mem_ite_nil_right, List.mem_cons,
    List.not_mem_nil, or_false, not_or, not_and] at clear
  obtain ⟨⟨-, norm, half⟩, some⟩ := clear
  have quotients (x : α) : x / current = q x current := (h x _ (Ne.symm norm)).symm
  have halves (x : α) : x / 0.5 = q x 0.5 := (h x _ (Ne.symm half)).symm
  unfold measure at some ⊢
  dsimp only at some ⊢
  simp only [quotients, halves] at some ⊢
  refine congrArg (Reduction.mk _ _ _) (ite_congr rfl (fun nonzero => ?_) fun _ => rfl)
  exact h _ _ (Ne.symm (some nonzero))

namespace Region

theorem shrinkage_redivide {r : Reduction α} (current trial : α)
    (clear : ¬ 0 ≤ r.actual → r.slope + 0.5 * r.actual ≠ 0) :
    @shrinkage α (.redivide q) r current trial = shrinkage r current trial :=
  congrArg (fun factor => if current ≤ 0.1 * trial ∨ factor < 0.1 then 0.1 else factor)
    (ite_congr rfl (fun _ => rfl) fun growth => h _ _ (clear growth))

theorem update_redivide {g : Region α} {r : Reduction α} {current trial : α} (length : α)
    (clear : 0 ∉ g.divisors r current trial) :
    @update α (.redivide q) g r current trial length = g.update r current trial length := by
  unfold divisors at clear
  refine ite_congr rfl (fun poor => ?_) fun good => ite_congr rfl (fun expands => ?_) fun _ => rfl
  · simp only [if_pos poor, List.mem_append, List.mem_ite_nil_left, List.mem_cons, List.not_mem_nil,
      or_false, not_or, not_and] at clear
    obtain ⟨parabola, tenth, factor⟩ := clear
    have shrunk := shrinkage_redivide h current trial fun growth => Ne.symm (parabola growth)
    dsimp only
    rw [← h _ _ (Ne.symm tenth), ← h _ _ (Ne.symm factor), ← shrunk]
    rfl
  · rw [if_neg good, if_pos expands, List.mem_singleton] at clear
    rw [← h _ _ (Ne.symm clear)]
    rfl

end Region

/-! ### Stages -/

theorem Differencing.run_redivide {p : Problem α} {epsfcn : α} {residuals : Vector α m}
    {d : Differencing α m n} (clear : 0 ∉ d.divisors p epsfcn residuals) :
    @Differencing.run α (.redivide q) m n p epsfcn residuals d = d.run p epsfcn residuals := by
  refine foldl_eq_of_not_mem_tally clear fun d j clear => ?_
  rw [columnDivisors, List.mem_ite_nil_left, List.mem_ite_nil_left, List.mem_singleton] at clear
  by_cases failed : d.failure.isSome
  · exact (if_pos failed).trans (if_pos failed).symm
  have intact : d.failure = none := Option.not_isSome_iff_eq_none.mp failed
  cases response : (d.probe p (differenceScale epsfcn) j).response.failure with
  | some e =>
    rw [column_of_failure intact response]
    exact @column_of_failure α (.redivide q) m n p _ residuals j d e intact response
  | none =>
    rw [column_of_success intact response]
    refine (@column_of_success α (.redivide q) m n p _ residuals j d intact response).trans ?_
    have step : differenceStep (differenceScale epsfcn) (d.x.get j) ≠ 0 := fun zero =>
      clear ⟨failed, by rw [response]; exact Bool.false_ne_true, zero.symm⟩
    exact congrArg (fun entries : Fin m → α =>
      { d with
        x := overwriteAt (d.probe p (differenceScale epsfcn) j).point j (d.x.get j)
        buffer := (d.probe p (differenceScale epsfcn) j).response.buffer
        jacobian := overwriteAt d.jacobian j (overwrite (d.jacobian.get j) entries)
        nfev := d.nfev + 1
        calls := d.calls.push (d.probe p (differenceScale epsfcn) j) })
      (funext fun i => h _ _ step)

namespace State

variable {p : Problem α} {tall : p.parameterCount ≤ p.residualCount} {c : Config α} {s : State p}

theorem testGradient_redivide {norms : Vector α p.parameterCount}
    (clear : 0 ∉ gradientDivisors s.buffers.pivots norms s.fnorm) :
    @testGradient α (.redivide q) p tall c norms s = s.testGradient tall c norms := by
  obtain ⟨scaled, buffers⟩ := s.settle_buffers c norms
  have pivots : (s.settle c norms).buffers.pivots = s.buffers.pivots := by rw [buffers]
  rw [← pivots, ← (settle_same c norms s).fnorm] at clear
  unfold testGradient
  dsimp only
  rw [← gradientNorm_redivide h tall _ _ clear]
  rfl

theorem linearize_redivide (clear : 0 ∉ s.linearizeDivisors c) :
    @linearize α (.redivide q) p tall c s = s.linearize tall c := by
  rw [linearizeDivisors, List.mem_append, not_or, List.mem_ite_nil_left, not_and] at clear
  obtain ⟨differencing, clear⟩ := clear
  have differentiated : @differentiate α (.redivide q) p c s = s.differentiate c :=
    Differencing.run_redivide h differencing
  cases outcome : (s.differentiate c).failure with
  | some e =>
    rw [linearize_of_failure outcome, ← differentiated]
    exact @linearize_of_failure α (.redivide q) p tall c s e
      ((congrArg Differencing.failure differentiated).trans outcome)
  | none =>
    have intact : ¬ (s.differentiate c).failure.isSome := by
      rw [outcome]
      exact Bool.false_ne_true
    have clear := clear intact
    rw [List.mem_append, List.mem_append, not_or, not_or] at clear
    obtain ⟨⟨factoring, projecting⟩, testing⟩ := clear
    have factored := Factor.compute_redivide h factoring
    have projected := project_redivide h projecting
      (overwrite (s.differentiate c).buffer s.residuals.get)
    have factorized : @factorize α (.redivide q) p tall s (s.differentiate c) =
        s.factorize tall (s.differentiate c) := by
      unfold factorize
      unfold State.factored at projected
      dsimp only
      rw [← projected, ← factored]
    rw [linearize_of_success outcome]
    refine (@linearize_of_success α (.redivide q) p tall c s
      ((congrArg Differencing.failure differentiated).trans outcome)).trans ?_
    rw [differentiated, factorized]
    exact testGradient_redivide h testing

theorem judge_redivide {length : α} (clear : 0 ∉ s.judgeDivisors tall length) :
    @judge α (.redivide q) p tall length s = s.judge tall length := by
  unfold judgeDivisors at clear
  dsimp only at clear
  rw [List.mem_append, not_or] at clear
  obtain ⟨measuring, adapting⟩ := clear
  have measured := Reduction.measure_redivide h measuring
  have adapted := Region.update_redivide h length adapting
  unfold judge at adapted ⊢
  dsimp only at adapted ⊢
  rw [← adapted, ← measured]
  rfl

theorem conclude_redivide {length : α} (clear : 0 ∉ s.judgeDivisors tall length) :
    @conclude α (.redivide q) p tall c length s = s.conclude tall c length := by
  unfold conclude
  rw [← judge_redivide h clear]
  rfl

theorem attempt_redivide (clear : 0 ∉ s.attemptDivisors tall) :
    @attempt α (.redivide q) p tall c s = s.attempt tall c := by
  rw [attemptDivisors, List.mem_append, not_or] at clear
  obtain ⟨searching, judging⟩ := clear
  have searched : @searchStep α (.redivide q) p tall s = s.searchStep tall := by
    unfold searchStep
    dsimp only
    rw [← Triangular.search_redivide h searching]
  unfold attempt
  dsimp only
  rw [searched]
  unfold proposed at judging
  -- Nothing is divided between the search and the evaluation of the trial.
  split
  next evaluated e failure =>
    have failed : (s.searchStep tall).placeStep.capRegion.evaluateTrial = (evaluated, some e) :=
      failure
    rw [failed]
    rfl
  next evaluated success =>
    have succeeded : (s.searchStep tall).placeStep.capRegion.evaluateTrial = (evaluated, none) :=
      success
    rw [succeeded] at judging ⊢
    exact conclude_redivide h judging

end State

namespace Stage

variable {p : Problem α} {tall : p.parameterCount ≤ p.residualCount} {c : Config α}

theorem next_redivide {stage : Stage p} (clear : 0 ∉ stage.divisors tall c) :
    @next α (.redivide q) p tall c stage = stage.next tall c := by
  cases stage with
  | linearize s => exact State.linearize_redivide h clear
  | attempt s => exact State.attempt_redivide h clear
  | stopped info s => rfl

theorem run_redivide (steps : Nat) {stage : Stage p}
    (clear : ∀ k, 0 ∉ (stage.run tall c k).divisors tall c) :
    @run α (.redivide q) p tall c steps stage = stage.run tall c steps := by
  induction steps with
  | zero => rfl
  | succ steps ih =>
    refine (@run_succ_last α (.redivide q) p tall c stage steps).trans ?_
    rw [ih, run_succ_last]
    exact next_redivide h (clear steps)

end Stage

/-- A solve whose divisors are none of them zero does not depend on what a division by zero would
give. -/
theorem solve_redivide {p : Problem α} {c : Config α} {x residuals diag : Array α}
    {w : Workspace α} (accepted : Accepted p c x residuals diag w)
    (clear : ∀ k, 0 ∉ (accepted.first.run accepted.tall c k).divisors accepted.tall c) :
    @solve α (.redivide q) p c x residuals diag w = solve p c x residuals diag w := by
  have redivided : @Accepted α (.redivide q) p c x residuals diag w :=
    @Accepted.mk α (.redivide q) _ _ _ _ _ _ accepted.size_x accepted.size_residuals
      accepted.size_diag accepted.rows accepted.cols accepted.valid
  refine (@solve_of_accepted α (.redivide q) _ _ _ _ _ _ redivided).trans ?_
  rw [solve_of_accepted accepted]
  exact congrArg (fun stage : Stage p => Run.ended stage.result.1 stage.result.2)
    (Stage.run_redivide h (stepBound (c.budget p.parameterCount)) clear)

end LeastSquares
