import LeastSquares.Batch.Storage

/-!
# Solving a batch

Slots are solved by jobs. A job takes its slots one after another and lends all of them its one
workspace; the slots of different jobs may be interleaved in any way. A schedule says which job
solves which slot, in the order in which it happens.
-/
namespace LeastSquares

variable {α : Type} [Scalar α]

/-- The slots in the order in which they are solved, each with the job that solves it. -/
abbrev Schedule := List (Nat × Nat)

def Schedule.separate (count : Nat) : Schedule :=
  (List.range count).map fun i => (i, i)

/-- A batch in progress with the workspaces of the jobs that have begun. -/
structure BatchRun (α : Type) where
  batch : Batch α
  workspaces : List (Nat × Workspace α)

namespace BatchRun

def start (b : Batch α) : BatchRun α := ⟨b, []⟩

/-- The workspace of a job, new if the job has not begun. -/
def workspace (r : BatchRun α) (job : Nat) : Workspace α :=
  (r.workspaces.lookup job).getD (.new r.batch.residualCount r.batch.parameterCount)

/-- The run in which a job solves `p` in slot `i`. -/
def slotRun (c : Config α) (p : Problem α) (job i : Nat) (r : BatchRun α) : Run p :=
  let b := r.batch
  solve p c (stretch b.params b.parameterCount i) (stretch b.residuals b.residualCount i)
    (stretch b.diag b.parameterCount i) (r.workspace job)

def solveSlot (c : Config α) (p : Problem α) (job i : Nat) (r : BatchRun α) : BatchRun α :=
  let run := r.slotRun c p job i
  { batch := r.batch.store i run.slot
    -- The latest entry of a job is the one that counts.
    workspaces := (job, run.workspace) :: r.workspaces }

/-- Carry out a schedule, where `problems[i]` belongs in slot `i`. -/
def follow (c : Config α) (problems : Array (Problem α)) (r : BatchRun α) (schedule : Schedule) :
    BatchRun α :=
  schedule.foldl (fun r (job, i) =>
    match problems[i]? with
    | some p => r.solveSlot c p job i
    | none => r) r

end BatchRun

namespace Batch

/-- Solve `problems[i]` in slot `i`, for all slots of the schedule. -/
def solveBy (c : Config α) (problems : Array (Problem α)) (schedule : Schedule) (b : Batch α) :
    Batch α :=
  ((BatchRun.start b).follow c problems schedule).batch

structure Summary where
  converged : Nat
  failed : Nat
  stopped : Nat
  totalNfev : Nat

def Summary.add (s : Summary) (o : Outcome α) : Summary :=
  let s := { s with totalNfev := s.totalNfev + o.nfev }
  if o.info.isConverged then { s with converged := s.converged + 1 }
  else if o.info.isError then { s with failed := s.failed + 1 }
  else { s with stopped := s.stopped + 1 }

end Batch

def Pools.summary (p : Pools α) : Batch.Summary :=
  (p.outcomes.toList.filterMap id).foldl Batch.Summary.add ⟨0, 0, 0, 0⟩

/-- Solve every slot with its problem, by jobs scheduled in any way. -/
def Batch.solveScheduled (c : Config α) (problems : Array (Problem α)) (schedule : Schedule)
    (b : Batch α) : Except (Error α) (Batch α × Summary) :=
  -- Checked before any slot is touched.
  if problems.size ≠ b.size then .error (.problemCount problems.size b.size)
  else
    let solved := b.solveBy c problems schedule
    .ok (solved, solved.summary)

/-- Fit every problem from its own start. The problems may differ in shape. -/
def fitAll (c : Config α) (problems : List (Problem α)) (starts : List (Array α)) :
    Except (Error α) (List (Fit α)) :=
  if problems.length ≠ starts.length then
    .error (.startCount problems.length starts.length)
  else .ok (List.zipWith (fun p start => (fit p c start).1) problems starts)

end LeastSquares
