import LeastSquares.Checked.Memory
import LeastSquares.Damping.Search

/-!
# The damping search on checked storage

The search for the damping with its damped solves, loop by loop and entry by entry. One of its
buffers may be longer than the number of unknowns, as it is lent by the caller.
-/
namespace LeastSquares.Checked

variable {α : Type} [Scalar α] {m n k : Nat}

structure Scratch (α : Type) (m n k : Nat) where
  r : Columns α m n
  x : Vector α n
  sdiag : Vector α n
  direction : Vector α n
  /-- The unknowns in pivoted order, then the scaled step. -/
  scaled : Vector α k

namespace Scratch

/-! ### Damped solves -/

/-- Copy row `j` of `R` below the diagonal, and keep its diagonal entry and its right-hand side. -/
def copyRow (qtb : Vector α n) (j : Nat) (s : Scratch α m n k) : Option (Scratch α m n k) := do
  let r ← fillColumn j n j (fun i r => readEntry r j i) s.r
  let x ← write s.x j (← readEntry r j j)
  let scaled ← write s.scaled j (← read qtb j)
  return { s with r, x, scaled }

/-- Apply a rotation to entry `i` of column `l` and of the row that is absorbed. -/
def turn (g : Rotation α) (l i : Nat) (s : Scratch α m n k) : Option (Scratch α m n k) := do
  let below ← readEntry s.r i l
  let entry ← read s.sdiag i
  let sdiag ← write s.sdiag i (-g.sin * below + g.cos * entry)
  let r ← writeEntry s.r i l (g.cos * below + g.sin * entry)
  return { s with r, sdiag }

/-- Rotate entry `l` of the row into the triangle. The number beside the storage is the right-hand
side of the row. -/
def rotate (l : Nat) (state : Scratch α m n k × α) : Option (Scratch α m n k × α) := do
  let (s, extra) := state
  let entry ← read s.sdiag l
  if entry == 0 then return (s, extra)
  else
    let pivot ← readEntry s.r l l
    let g := Rotation.annihilate pivot entry
    let r ← writeEntry s.r l l (g.cos * pivot + g.sin * entry)
    let rhs ← read s.scaled l
    let scaled ← write s.scaled l (g.cos * rhs + g.sin * extra)
    let s ← loop (l + 1) n (turn g l) { s with r, scaled }
    return (s, -g.sin * rhs + g.cos * extra)

/-- Absorb a row that is zero but for the entry `damping` at `j`. -/
def absorb (damping : α) (j : Nat) (s : Scratch α m n k) : Option (Scratch α m n k) := do
  let sdiag ← fill j n (fun _ _ => some 0) s.sdiag
  let sdiag ← write sdiag j damping
  let (s, _) ← loop j n rotate ({ s with sdiag }, 0)
  return s

/-- Absorb row `j` of the damping, and put the diagonal entry of `R` back in its place. -/
def absorbRow (pivots : Vector Nat n) (diag : Vector α n) (j : Nat) (s : Scratch α m n k) :
    Option (Scratch α m n k) := do
  let damping ← read diag (← read pivots j)
  let s ← (if damping == 0 then some s else s.absorb damping j)
  let sdiag ← write s.sdiag j (← readEntry s.r j j)
  let r ← writeEntry s.r j j (← read s.x j)
  return { s with r, sdiag }

/-- Solve for the unknowns below `rank`; those from `rank` on are zero. -/
def backSubstitute (r : Columns α m n) (sdiag : Vector α n) (rank : Nat) (w : Vector α k) :
    Option (Vector α k) := do
  let w ← fill rank n (fun _ _ => some 0) w
  loopDown rank (fun j w => do
    let product ← sum (j + 1) rank fun i => do return (← readEntry r i j) * (← read w i)
    write w j (((← read w j) - product) / (← read sdiag j))) w

def damped (pivots : Vector Nat n) (diag qtb : Vector α n) (s : Scratch α m n k) :
    Option (Scratch α m n k) := do
  let s ← loop 0 n (copyRow qtb) s
  let s ← loop 0 n (absorbRow pivots diag) s
  let rank ← firstZero n (read s.sdiag)
  let scaled ← backSubstitute s.r s.sdiag rank s.scaled
  let x ← scatter pivots scaled s.x
  return { s with x, scaled }

end Scratch

/-! ### Triangular solves -/

/-- Start from the right-hand side, up to the first zero on the diagonal, which gives the rank. -/
def truncate (r : Columns α m n) (qtb : Vector α n) (j : Nat) (state : Vector α n × Nat) :
    Option (Vector α n × Nat) := do
  let (w, rank) := state
  let w ← write w j (← read qtb j)
  let rank := if rank = n ∧ (← readEntry r j j) == 0 then j else rank
  let w ← (if rank < n then write w j 0 else some w)
  return (w, rank)

/-- The undamped step in pivoted order, and the rank. -/
def undamped (r : Columns α m n) (qtb w : Vector α n) : Option (Vector α n × Nat) := do
  let (w, rank) ← loop 0 n (truncate r qtb) (w, n)
  let w ← loopDown rank (fun j w => do
    let t := (← read w j) / (← readEntry r j j)
    let w ← write w j t
    fill 0 j (fun i w => do return (← read w i) - (← readEntry r i j) * t) w) w
  return (w, rank)

def boundaryNormal (pivots : Vector Nat n) (diag : Vector α n) (scaled : Vector α k) (length : α)
    (w : Vector α n) : Option (Vector α n) :=
  fill 0 n (fun j _ => do
    let l ← read pivots j
    return (← read diag l) * ((← read scaled l) / length)) w

def forwardSubstitute (r : Columns α m n) (w : Vector α n) : Option (Vector α n) :=
  loop 0 n (fun j w => do
    let product ← sum 0 j fun i => do return (← readEntry r i j) * (← read w i)
    write w j (((← read w j) - product) / (← readEntry r j j))) w

def scaledGradient (pivots : Vector Nat n) (diag qtb : Vector α n) (r : Columns α m n)
    (w : Vector α n) : Option (Vector α n) :=
  fill 0 n (fun j _ => do
    let product ← sum 0 (j + 1) fun i => do return (← readEntry r i j) * (← read qtb i)
    return product / (← read diag (← read pivots j))) w

def solveDampedTranspose (r : Columns α m n) (sdiag w : Vector α n) : Option (Vector α n) :=
  loop 0 n (fun j w => do
    let t := (← read w j) / (← read sdiag j)
    let w ← write w j t
    fill (j + 1) n (fun i w => do return (← read w i) - (← readEntry r i j) * t) w) w

/-- The scaled form of the step `x`, and its norm. -/
def scaleStep (diag x : Vector α n) (w : Vector α k) : Option (Vector α k × α) := do
  let w ← fill 0 n (fun j _ => do return (← read diag j) * (← read x j)) w
  return (w, norm (← slice w 0 n))

/-! ### The search -/

structure Refinement (α : Type) (m n k : Nat) where
  par : α
  lower : α
  upper : α
  length : α
  error : α
  trials : Nat
  scratch : Scratch α m n k

structure Search (α : Type) (m n k : Nat) where
  par : α
  trials : Nat
  scratch : Scratch α m n k

namespace Refinement

def attempt (pivots : Vector Nat n) (diag qtb : Vector α n) (delta : α)
    (state : Refinement α m n k) : Option (Refinement α m n k × Bool) := do
  let par := if state.par == 0 then larger Numeric.tiny (0.001 * state.upper) else state.par
  let root := sqrt par
  let direction ← fill 0 n (fun j _ => do return root * (← read diag j)) state.scratch.direction
  let s ← { state.scratch with direction }.damped pivots direction qtb
  let (scaled, length) ← scaleStep diag s.x s.scaled
  let error := length - delta
  let settled := abs error ≤ 0.1 * delta
    ∨ (state.lower == 0 ∧ error ≤ state.error ∧ state.error < 0)
  return ({ state with
    par, length, error
    trials := state.trials + 1
    scratch := { s with scaled } }, settled)

def correct (pivots : Vector Nat n) (diag : Vector α n) (delta : α) (state : Refinement α m n k) :
    Option (Refinement α m n k) := do
  let s := state.scratch
  let direction ← boundaryNormal pivots diag s.scaled state.length s.direction
  let direction ← solveDampedTranspose s.r s.sdiag direction
  let slope := norm (← slice direction 0 n)
  let change := state.error / delta / slope / slope
  let lower := if state.error > 0 then larger state.lower state.par else state.lower
  let upper := if state.error < 0 then smaller state.upper state.par else state.upper
  return { state with
    par := larger lower (state.par + change)
    lower, upper
    scratch := { s with direction } }

def run (pivots : Vector Nat n) (diag qtb : Vector α n) (delta : α) :
    Nat → Refinement α m n k → Option (Refinement α m n k)
  | 0, state => do return (← state.attempt pivots diag qtb delta).1
  | more + 1, state => do
    let (tried, settled) ← state.attempt pivots diag qtb delta
    if settled then return tried
    else run pivots diag qtb delta more (← tried.correct pivots diag delta)

end Refinement

namespace Scratch

/-- The lower bound of the damping and the direction it leaves, where `rank` is that of `R`. -/
def newtonBound (pivots : Vector Nat n) (diag : Vector α n) (delta length : α) (rank : Nat)
    (s : Scratch α m n k) : Option (α × Vector α n) :=
  if rank < n then some (0, s.direction)
  else do
    let direction ← boundaryNormal pivots diag s.scaled length s.direction
    let direction ← forwardSubstitute s.r direction
    let slope := norm (← slice direction 0 n)
    return ((length - delta) / delta / slope / slope, direction)

def bracket (pivots : Vector Nat n) (diag qtb : Vector α n) (delta par length : α) (rank : Nat)
    (s : Scratch α m n k) : Option (Refinement α m n k) := do
  let (lower, direction) ← s.newtonBound pivots diag delta length rank
  let direction ← scaledGradient pivots diag qtb s.r direction
  let steepness := norm (← slice direction 0 n)
  let upper :=
    let bound := steepness / delta
    if bound == 0 then Numeric.tiny / smaller delta 0.1 else bound
  let clamped := smaller (larger par lower) upper
  return {
    par := if clamped == 0 then steepness / length else clamped
    lower, upper, length
    error := length - delta
    trials := 0
    scratch := { s with direction } }

def search (pivots : Vector Nat n) (diag qtb : Vector α n) (delta par : α)
    (s : Scratch α m n k) : Option (Search α m n k) := do
  let (direction, rank) ← undamped s.r qtb s.direction
  let x ← scatter pivots direction s.x
  let (scaled, length) ← scaleStep diag x s.scaled
  let s := { s with x, direction, scaled }
  if length - delta ≤ 0.1 * delta then
    return { par := 0, trials := 0, scratch := s }
  else
    let first ← s.bracket pivots diag qtb delta par length rank
    let last ← first.run pivots diag qtb delta (maxTrials - 1)
    return { par := last.par, trials := last.trials, scratch := last.scratch }

end Scratch

end LeastSquares.Checked
