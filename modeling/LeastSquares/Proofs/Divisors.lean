import LeastSquares.Proofs.Elimination
import LeastSquares.Proofs.Factorization

/-!
# Divisors

What a stage of a solve divides by. Each list below is computed along the routine that it is about,
through the same branches and the same states. A divisor that several quotients of a routine share
may be listed once. The norm is an operation of the scalars, and what it divides by is not listed.
-/
namespace LeastSquares

/-! ### Traversals -/

section

variable {β γ : Type} {n : Nat} {f : β → Fin n → β} {list : β → Fin n → List γ} {z : γ}

/-- A step of a traversal, together with what has been listed so far. -/
def listing (f : β → Fin n → β) (list : β → Fin n → List γ) (s : List γ × β) (i : Fin n) :
    List γ × β :=
  (s.1 ++ list s.2 i, f s.2 i)

/-- What the steps of a traversal list, one after the other. -/
def tally (f : β → Fin n → β) (list : β → Fin n → List γ) (b : β) : List γ :=
  (Fin.foldl n (listing f list) ([], b)).1

theorem foldl_listing (f : β → Fin n → β) (list : β → Fin n → List γ) (b : β) :
    Fin.foldl n (listing f list) ([], b) = (tally f list b, Fin.foldl n f b) := by
  refine Prod.ext rfl (foldl_related (fun _ (s : List γ × β) (b : β) => s.2 = b) rfl ?_)
  rintro i s _ rfl
  rfl

theorem tally_succ (f : β → Fin (n + 1) → β) (list : β → Fin (n + 1) → List γ) (b : β) :
    tally f list b = tally (fun b i => f b i.castSucc) (fun b i => list b i.castSucc) b ++
      list (Fin.foldl n (fun b i => f b i.castSucc) b) (Fin.last n) := by
  rw [tally, Fin.foldl_succ_last]
  exact congrArg (fun s : List γ × β => s.1 ++ list s.2 (Fin.last n))
    (foldl_listing (fun b i => f b i.castSucc) (fun b i => list b i.castSucc) b)

/-- What no step lists, given what holds of the states it is taken in. -/
theorem not_mem_tally (P : Nat → β → Prop) {b : β} (start : P 0 b)
    (step : ∀ (i : Fin n) (b : β), P i b → z ∉ list b i ∧ P (i + 1) (f b i)) :
    z ∉ tally f list b := by
  have all : z ∉ (Fin.foldl n (listing f list) ([], b)).1 ∧
      P n (Fin.foldl n (listing f list) ([], b)).2 := by
    refine foldl_invariant (fun i (s : List γ × β) => z ∉ s.1 ∧ P i s.2)
      ⟨List.not_mem_nil, start⟩ ?_
    rintro i s ⟨before, now⟩
    obtain ⟨here, next⟩ := step i s.2 now
    exact ⟨fun found => (List.mem_append.mp found).elim before here, next⟩
  exact all.1

/-- Two traversals agree if their steps do wherever `z` is not listed. -/
theorem foldl_eq_of_not_mem_tally {g : β → Fin n → β} {b : β} (clear : z ∉ tally f list b)
    (same : ∀ b i, z ∉ list b i → g b i = f b i) : Fin.foldl n g b = Fin.foldl n f b := by
  induction n with
  | zero => rfl
  | succ n ih =>
    rw [tally_succ, List.mem_append, not_or] at clear
    rw [Fin.foldl_succ_last, Fin.foldl_succ_last,
      ih (g := fun b i => g b i.castSucc) clear.1 fun b i => same b i.castSucc]
    exact same _ _ clear.2

/-- The entries before position `k`. -/
def entriesBefore (v : Fin n → γ) (k : Nat) : List γ :=
  ((List.finRange n).filter (·.val < k)).map v

theorem mem_entriesBefore {v : Fin n → γ} {k : Nat} :
    z ∈ entriesBefore v k ↔ ∃ j : Fin n, j.val < k ∧ v j = z := by
  simp [entriesBefore]

end

variable {α : Type} [Scalar α] {m n : Nat}

/-! ### Differences -/

namespace Differencing

def columnDivisors (p : Problem α) (scale : α) (d : Differencing α m n) (j : Fin n) : List α :=
  if d.failure.isSome then []
  else if (d.probe p scale j).response.failure.isSome then []
  else [differenceStep scale (d.x.get j)]

def divisors (p : Problem α) (epsfcn : α) (residuals : Vector α m) (d : Differencing α m n) :
    List α :=
  tally (fun d j => d.column p (differenceScale epsfcn) residuals j)
    (columnDivisors p (differenceScale epsfcn)) d

end Differencing

/-! ### Factorization -/

namespace Factor

def downdateDivisors (remaining reference : α) : List α :=
  if remaining == 0 then [] else [remaining, reference]

def eliminateDivisors (pivot : Bool) (row : Fin m) (col : Fin n) (f : Factor α m n) : List α :=
  if tailNorm (f.packed.get col) row == 0 then []
  else f.signedLength row col :: (List.finRange n).flatMap fun k =>
    if col < k then
      (f.columnReflector row col).get row ::
        if pivot then downdateDivisors (f.rdiag.get k) (f.reference.get k) else []
    else []

theorem not_mem_eliminateDivisors {pivot : Bool} {row : Fin m} {col : Fin n} {f : Factor α m n} :
    0 ∉ f.eliminateDivisors pivot row col ↔ ¬ (tailNorm (f.packed.get col) row == 0) →
      f.signedLength row col ≠ 0 ∧ ∀ k, col < k → (f.columnReflector row col).get row ≠ 0 ∧
        (pivot → 0 ∉ downdateDivisors (f.rdiag.get k) (f.reference.get k)) := by
  simp only [eliminateDivisors, List.mem_ite_nil_left, List.mem_cons, List.mem_flatMap,
    List.mem_finRange, true_and, List.mem_ite_nil_right, not_and, not_or, not_exists, ne_eq,
    @eq_comm _ (0 : α)]

def stepDivisors (pivot : Bool) (row : Fin m) (col : Fin n) (f : Factor α m n) : List α :=
  (if pivot then f.exchange col (pivotFrom col f.rdiag) else f).eliminateDivisors pivot row col

def divisors (pivot : Bool) (f : Factor α m n) : List α :=
  tally (fun f (j : Fin (min m n)) =>
      f.step pivot (j.castLE (Nat.min_le_left m n)) (j.castLE (Nat.min_le_right m n)))
    (fun f j =>
      f.stepDivisors pivot (j.castLE (Nat.min_le_left m n)) (j.castLE (Nat.min_le_right m n)))
    (f.prepare pivot)

end Factor

def projectDivisors (packed : Columns α m n) : List α :=
  (List.finRange (min m n)).flatMap fun j =>
    let lead := (packed.get (j.castLE (Nat.min_le_right m n))).get (j.castLE (Nat.min_le_left m n))
    if lead == 0 then [] else [lead]

def gradientDivisors (pivots : Vector (Fin n) n) (norms : Vector α n) (fnorm : α) : List α :=
  if fnorm == 0 then []
  else (List.finRange n).flatMap fun j =>
    let size := norms.get (pivots.get j)
    if size == 0 then [] else [fnorm, size]

/-! ### Damped solves -/

def Rotation.divisors (a b : α) : List α :=
  if abs a < abs b then [b, sqrt (0.25 + 0.25 * (a / b) * (a / b))]
  else [a, sqrt (0.25 + 0.25 * (b / a) * (b / a))]

namespace Absorption

def rotateDivisors (tall : n ≤ m) (s : Absorption α m n) (k : Fin n) : List α :=
  if s.row.get k == 0 then [] else Rotation.divisors (s.triangle.lead tall k k) (s.row.get k)

def divisors (tall : n ≤ m) (s : Absorption α m n) : List α :=
  tally (fun s k => s.rotate tall k) (rotateDivisors tall) s

end Absorption

namespace Triangular

def absorbDivisors (tall : n ≤ m) (s : Triangular α m n) (diag : Vector α n)
    (state : Columns α m n × Vector α n) (j : Fin n) : List α :=
  Absorption.divisors tall
    { triangle := state.1
      rhs := state.2
      row := Vector.ofFn fun k => if k = j then diag.get (s.pivots.get j) else 0
      extra := 0 }

def dampedDivisors (tall : n ≤ m) (s : Triangular α m n) (diag x sdiag permuted : Vector α n) :
    List α :=
  let solved := s.damped tall diag x sdiag permuted
  tally (fun state j => s.absorbDamping tall diag j state) (s.absorbDivisors tall diag)
      (withLowerCopy tall s.r, overwrite permuted s.qtb.get) ++
    entriesBefore solved.sdiag.get (firstIndex fun j : Fin n => solved.sdiag.get j == 0)

end Triangular

/-! ### The search for the damping -/

namespace Refinement

variable (tall : n ≤ m) (s : Triangular α m n) (diag : Vector α n) (delta : α)

def attemptDivisors (state : Refinement α m n) : List α :=
  Triangular.dampedDivisors tall { s with r := state.r }
    (overwrite state.buffers.direction fun j => sqrt state.damping * diag.get j)
    state.buffers.x state.buffers.sdiag state.buffers.scaled

def correctDivisors (state : Refinement α m n) : List α :=
  let direction := Triangular.solveDampedTranspose tall state.r state.buffers.sdiag
    (s.boundaryNormal diag state.buffers.scaled state.length state.buffers.direction)
  state.length :: List.ofFn state.buffers.sdiag.get ++ [delta, norm direction.toList]

def divisors : Nat → Refinement α m n → List α
  | 0, state => state.attemptDivisors tall s diag
  | more + 1, state =>
    state.attemptDivisors tall s diag ++
      match state.attempt tall s diag delta with
      | (_, true) => []
      | (tried, false) =>
        tried.correctDivisors tall s diag delta ++ divisors more (tried.correct tall s diag delta)

end Refinement

namespace Triangular

section

variable (tall : n ≤ m) (s : Triangular α m n) (diag : Vector α n) (delta length : α)
  (buffers : SearchBuffers α n)

/-- The right-hand side of the Newton step at zero, or whatever its buffer holds without one. -/
def newtonNormal : Vector α n :=
  if s.rank tall < n then buffers.direction
  else s.forwardSubstitute tall (s.boundaryNormal diag buffers.scaled length buffers.direction)

/-- The lower bound for the damping. -/
def newtonBound : α :=
  let slope := norm (s.newtonNormal tall diag length buffers).toList
  if s.rank tall < n then 0 else (length - delta) / delta / slope / slope

def newtonDivisors : List α :=
  if s.rank tall < n then []
  else
    length :: List.ofFn (fun j => s.r.lead tall j j) ++
      [delta, norm (s.newtonNormal tall diag length buffers).toList]

end

/-- The upper bound for the damping. -/
def gradientBound (delta steepness : α) : α :=
  let bound := steepness / delta
  if bound == 0 then Numeric.tiny / smaller delta 0.1 else bound

def gradientBoundDivisors (delta steepness : α) : List α :=
  delta :: if steepness / delta == 0 then [smaller delta 0.1] else []

/-- The first damping to try. -/
def firstDamping (par lower upper steepness length : α) : α :=
  let clamped := smaller (larger par lower) upper
  if clamped == 0 then steepness / length else clamped

def firstDampingDivisors (par lower upper length : α) : List α :=
  if smaller (larger par lower) upper == 0 then [length] else []

theorem bracket_eq (tall : n ≤ m) (s : Triangular α m n) (diag : Vector α n)
    (delta par length : α) (buffers : SearchBuffers α n) :
    s.bracket tall diag delta par length buffers =
      let gradient := s.scaledGradient tall diag (s.newtonNormal tall diag length buffers)
      let lower := s.newtonBound tall diag delta length buffers
      let upper := gradientBound delta (norm gradient.toList)
      { par := firstDamping par lower upper (norm gradient.toList) length
        lower, upper, length
        error := length - delta
        trials := 0
        r := s.r
        buffers := { buffers with direction := gradient } } :=
  rfl

def bracketDivisors (tall : n ≤ m) (s : Triangular α m n) (diag : Vector α n)
    (delta par length : α) (buffers : SearchBuffers α n) : List α :=
  let gradient := s.scaledGradient tall diag (s.newtonNormal tall diag length buffers)
  let lower := s.newtonBound tall diag delta length buffers
  let upper := gradientBound delta (norm gradient.toList)
  s.newtonDivisors tall diag delta length buffers ++
    List.ofFn (fun j => diag.get (s.pivots.get j)) ++
    gradientBoundDivisors delta (norm gradient.toList) ++
    firstDampingDivisors par lower upper length

def searchDivisors (tall : n ≤ m) (s : Triangular α m n) (diag : Vector α n) (delta par : α)
    (buffers : SearchBuffers α n) : List α :=
  let direction := s.undamped tall buffers.direction
  let x := scatter s.pivots direction buffers.x
  let scaled := overwrite buffers.scaled fun j => diag.get j * x.get j
  let length := norm scaled.toList
  let buffers := { buffers with x, direction, scaled }
  entriesBefore (fun j => s.r.lead tall j j) (s.rank tall) ++
    if length - delta ≤ 0.1 * delta then []
    else
      s.bracketDivisors tall diag delta par length buffers ++
        Refinement.divisors tall s diag delta (maxTrials - 1)
          (s.bracket tall diag delta par length buffers)

end Triangular

/-! ### The region -/

def Reduction.divisors (current trial length par : α) (image : Vector α n) : List α :=
  let r := measure current trial length par image
  (if 0.1 * trial < current then [current] else []) ++ [current, 0.5] ++
    if r.predicted != 0 then [r.predicted] else []

def Region.divisors (g : Region α) (r : Reduction α) (current trial : α) : List α :=
  if r.ratio ≤ 0.25 then
    (if 0 ≤ r.actual then [] else [r.slope + 0.5 * r.actual]) ++
      [0.1, shrinkage r current trial]
  else if g.par == 0 ∨ 0.75 ≤ r.ratio then [0.5]
  else []

/-! ### Stages -/

namespace State

variable {p : Problem α} (tall : p.parameterCount ≤ p.residualCount)

def linearizeDivisors (c : Config α) (s : State p) : List α :=
  s.unfilled.divisors p c.epsfcn s.residuals ++
    if (s.differentiate c).failure.isSome then []
    else
      (s.unfactored (s.differentiate c)).divisors true ++
        projectDivisors (s.factored c).packed ++
        gradientDivisors (s.factored c).pivots (s.factored c).norms s.fnorm

def searchDivisors (s : State p) : List α :=
  let b := s.buffers
  Triangular.searchDivisors tall ⟨b.jacobian, b.pivots, b.qtf⟩ s.diag s.region.delta s.region.par
    { x := b.step
      sdiag := b.point
      direction := b.scaled
      scaled := Vector.ofFn fun j => b.trial.get (j.castLE tall) }

def judgeDivisors (length : α) (s : State p) : List α :=
  let b := s.buffers
  let trialNorm := norm b.trial.toList
  Reduction.divisors s.fnorm trialNorm length s.region.par
      (Reduction.image tall b.jacobian b.pivots b.step b.scaled) ++
    Region.divisors s.region (s.judge tall length).2 s.fnorm trialNorm

def attemptDivisors (s : State p) : List α :=
  s.searchDivisors tall ++
    match (s.proposed tall).evaluateTrial with
    | (_, some _) => []
    | (evaluated, none) =>
      evaluated.judgeDivisors tall (s.searchStep tall).placeStep.stepLength

end State

/-- What the next step of a solve divides by. -/
def Stage.divisors {p : Problem α} (tall : p.parameterCount ≤ p.residualCount) (c : Config α) :
    Stage p → List α
  | linearize s => s.linearizeDivisors c
  | attempt s => s.attemptDivisors tall
  | stopped .. => []

end LeastSquares
