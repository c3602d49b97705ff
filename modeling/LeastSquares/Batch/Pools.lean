import LeastSquares.Batch.Operation

/-!
# Storage as it is allocated and cut up

The lengths of the pools and the places of the slots in them are counted in 64 bits. A product that
is too large for that wraps around, and the pool that is made then has no room for all its slots.
No operation reads or writes behind the end of a pool: it is out of bounds there, and ends.
-/
namespace LeastSquares

variable {α : Type}

/-! ### Places -/

namespace Pools

/-- Where slot `i` of length `stride` begins and ends in a pool that has `length` entries, if the
pool reaches that far. -/
def place? (length stride i : Nat) : Option (Nat × Nat) :=
  let start := i * stride % UInt64.size
  let stop := (i + 1) * stride % UInt64.size
  if start ≤ stop ∧ stop ≤ length then some (start, stop) else none

def read? (pool : Array α) (stride i : Nat) : Option (Array α) :=
  (place? pool.size stride i).map fun (start, stop) => pool.extract start stop

def write? (pool : Array α) (stride i : Nat) (values : Array α) : Option (Array α) :=
  (place? pool.size stride i).map fun (start, _) => overwriteFrom pool start values

end Pools

/-! ### Allocation -/

namespace Pools

/-- Storage for `count` problems, with parameters zero and all variables on the same scale. -/
def new [Zero α] [One α] (count m n : Nat) : Except (Error α) (Pools α) :=
  if m = 0 ∨ n = 0 then .error (.emptyBatchShape m n)
  else .ok
    { residualCount := m
      parameterCount := n
      params := Array.replicate (count * n % UInt64.size) 0
      residuals := Array.replicate (count * m % UInt64.size) 0
      diag := Array.replicate (count * n % UInt64.size) 1
      outcomes := Array.replicate count none }

end Pools

/-! ### One slot -/

/-- Why work on pools ends before it is done. -/
inductive Halt (α : Type) where
  | refused (e : Error α)
  | outOfBounds

/-- Work on pools in place. What ends it leaves the pools as they are by then. -/
abbrev Pooling (α β : Type) := EStateM (Halt α) (Pools α) β

namespace Pools

def setInitial (i : Nat) (values : Array α) : Pooling α Unit := do
  let p ← get
  ofExcept ((p.checkSlot i values.size).mapError Halt.refused)
  let some params := write? p.params p.parameterCount i values | throw .outOfBounds
  set { p with params }

def setDiag (i : Nat) (values : Array α) : Pooling α Unit := do
  let p ← get
  ofExcept ((p.checkSlot i values.size).mapError Halt.refused)
  let some diag := write? p.diag p.parameterCount i values | throw .outOfBounds
  set { p with diag }

/-- Storage for as many problems as there are starting points. -/
def ofInitial [Zero α] [One α] (m : Nat) (initial : List (Array α)) :
    Except (Halt α) (Pools α) := do
  -- The first starting point sets the number of parameters for all.
  let n := (initial.head?.map (·.size)).getD 0
  let empty ← (new initial.length m n).mapError Halt.refused
  match (initial.zipIdx.forM fun (values, i) => setInitial i values).run empty with
  | .ok _ filled => return filled
  | .error halt _ => throw halt

/-- What worker `i` sees of its slot. There may be no such slot; or the slot may be out of bounds,
and there is no answer at all. -/
def worker (p : Pools α) (i : Nat) : Option (Option (Slot α)) :=
  match p.outcomes[i]? with
  | none => some none
  | some outcome => do
    let params ← read? p.params p.parameterCount i
    let residuals ← read? p.residuals p.residualCount i
    let diag ← read? p.diag p.parameterCount i
    return some ⟨params, residuals, diag, outcome⟩

def result (p : Pools α) (i : Nat) : Option (Option (Fit α)) :=
  (p.worker i).map fun slot => slot.bind Slot.fit?

/-- The fits in all slots that have been solved, in the order of the slots. -/
def results (p : Pools α) : Option (List (Fit α)) :=
  ((List.range p.size).mapM p.result).map fun fits => fits.filterMap id

end Pools

/-! ### All slots at once -/

/-- Pools in use with the workspaces of the jobs that have begun. -/
structure PoolsRun (α : Type) where
  pools : Pools α
  workspaces : List (Nat × Workspace α)

/-- What a solve is handed of slot `i`: the next chunk of every pool, as long as there is one left
in each of them. The last chunk of a pool may be shorter than the others. -/
def Pools.chunk? (p : Pools α) (i : Nat) : Option (Slot α) :=
  if i * p.parameterCount < p.params.size ∧ i * p.residualCount < p.residuals.size ∧
      i * p.parameterCount < p.diag.size then p.slot? i
  else none

variable [Scalar α]

namespace PoolsRun

def solveChunk (c : Config α) (p : Problem α) (job i : Nat) (chunk : Slot α) (r : PoolsRun α) :
    PoolsRun α :=
  let w := (r.workspaces.lookup job).getD (.new r.pools.residualCount r.pools.parameterCount)
  let run := solve p c chunk.params chunk.residuals chunk.diag w
  { pools := r.pools.store i run.slot
    workspaces := (job, run.workspace) :: r.workspaces }

/-- Carry out a schedule, where `problems[i]` belongs in slot `i`. -/
def follow (c : Config α) (problems : Array (Problem α)) (r : PoolsRun α) (schedule : Schedule) :
    PoolsRun α :=
  schedule.foldl (fun r (job, i) =>
    match problems[i]?, r.pools.chunk? i with
    | some p, some chunk => r.solveChunk c p job i chunk
    | _, _ => r) r

end PoolsRun

namespace Pools

/-- Solve every slot with its problem, by jobs scheduled in any way, and sum up how they ended. -/
def solve (c : Config α) (problems : Array (Problem α)) (schedule : Schedule) :
    Pooling α Batch.Summary := do
  let count := (← get).size
  if problems.size ≠ count then throw (.refused (.problemCount problems.size count))
  modify fun p => (PoolsRun.follow c problems ⟨p, []⟩ schedule).pools
  return (← get).summary

/-- Every slot is solved by a job of its own. -/
def solveAll (c : Config α) (problems : Array (Problem α)) : Pooling α Batch.Summary := do
  solve c problems (.separate (← get).size)

end Pools

/-- Carry out an operation on pools. -/
def Operation.run : Operation α → Pooling α (Option Batch.Summary)
  | setInitial i values => do
    Pools.setInitial i values
    return none
  | setDiag i values => do
    Pools.setDiag i values
    return none
  | solve c problems schedule => some <$> Pools.solve c problems schedule

end LeastSquares
