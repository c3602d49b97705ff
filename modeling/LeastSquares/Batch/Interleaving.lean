import LeastSquares.Batch.Solve

/-!
# Jobs at work side by side

The jobs of a batch need not wait for each other. A job that has taken up a slot solves it where it
is: each step reads the iterate, the residuals and the scaling from the stretches of the slot and
writes them back there. Between two steps of one job the others may take any number of theirs.
-/
namespace LeastSquares

variable {α : Type}

/-- The part of a state that a solve keeps in its slot. -/
def State.slot {p : Problem α} (s : State p) (outcome : Option (Outcome α)) : Slot α :=
  ⟨s.x.toArray, s.residuals.toArray, s.diag.toArray, outcome⟩

/-- Read that part from the slot. -/
def State.load {p : Problem α} (slot : Slot α) (s : State p) : State p :=
  if fits : slot.params.size = p.parameterCount ∧ slot.residuals.size = p.residualCount ∧
      slot.diag.size = p.parameterCount then
    { s with
      x := ⟨slot.params, fits.1⟩
      residuals := ⟨slot.residuals, fits.2.1⟩
      diag := ⟨slot.diag, fits.2.2⟩ }
  else s

namespace Stage

variable {p : Problem α}

def load (slot : Slot α) : Stage p → Stage p
  | linearize s => linearize (s.load slot)
  | attempt s => attempt (s.load slot)
  | stopped info s => stopped info (s.load slot)

end Stage

/-- A solve under way in a slot, with the number of steps it may still take. -/
structure Task (α : Type) where
  slot : Nat
  problem : Problem α
  tall : problem.parameterCount ≤ problem.residualCount
  steps : Nat
  stage : Stage problem

/-- What a job is at. While it solves, its workspace is that of the solve. -/
inductive Job (α : Type) where
  | idle (w : Workspace α)
  | busy (t : Task α)

def Job.isIdle : Job α → Bool
  | idle _ => true
  | busy _ => false

structure Crew (α : Type) where
  batch : Batch α
  jobs : Array (Job α)

inductive Move where
  /-- An idle job takes up a slot. -/
  | take (job slot : Nat)
  /-- A busy job takes one step. -/
  | step (job : Nat)

/-- The slots taken up in the course of some moves. -/
def Move.taken (moves : List Move) : List Nat :=
  moves.filterMap fun
    | take _ slot => some slot
    | step _ => none

variable [Scalar α]

def Task.outcome? (t : Task α) : Option (Termination × State t.problem) :=
  match t.steps, t.stage with
  | 0, stage => some stage.result
  | _ + 1, .stopped info s => some (info, s)
  | _ + 1, _ => none

/-- One step of a task, reading from and writing to its slot. -/
def Task.next (c : Config α) (t : Task α) : Task α :=
  { t with
    steps := t.steps - 1
    stage := t.stage.next t.tall c }

namespace Crew

/-- A number of jobs, each with a new workspace. -/
def start (b : Batch α) (count : Nat) : Crew α :=
  { batch := b
    jobs := Array.replicate count (.idle (.new b.residualCount b.parameterCount)) }

/-- Write to slot `i` and let a job go on as `next`. -/
def update (crew : Crew α) (job i : Nat) (slot : Slot α) (next : Job α) : Crew α :=
  { batch := crew.batch.store i slot
    jobs := crew.jobs.setIfInBounds job next }

/-- Let an idle job with the workspace `w` take up slot `i`. A solve that is refused is over at
once. -/
def take (c : Config α) (p : Problem α) (job i : Nat) (slot : Slot α) (w : Workspace α)
    (crew : Crew α) : Crew α :=
  match Admission.of p c slot.params slot.residuals slot.diag w with
  | .error e =>
    let run : Run p := .rejected slot.params slot.residuals slot.diag w e
    -- Refused at once: nothing has been evaluated.
    crew.update job i run.slot (.idle run.workspace)
  | .ok a =>
    let stage := State.start c a.x a.residuals a.diag a.buffers
    crew.update job i (stage.state.slot slot.outcome)
      (.busy ⟨i, p, a.tall, stepBound (c.budget p.parameterCount), stage⟩)

/-- Let a job take one step of its task, or give up the slot if it has ended. -/
def proceed (c : Config α) (job : Nat) (slot : Slot α) (t : Task α) (crew : Crew α) : Crew α :=
  match t.outcome? with
  | some (info, s) =>
    let run : Run t.problem := .ended info s
    crew.update job t.slot run.slot (.idle run.workspace)
  | none =>
    -- The old outcome of the slot stays until the solve is over.
    let t := t.next c
    crew.update job t.slot (t.stage.state.slot slot.outcome) (.busy t)

def move (c : Config α) (problems : Array (Problem α)) (crew : Crew α) : Move → Option (Crew α)
  | .take job i =>
    match crew.jobs[job]?, problems[i]?, crew.batch.slot? i with
    | some (.idle w), some p, some slot => some (crew.take c p job i slot w)
    | _, _, _ => none
  | .step job =>
    match crew.jobs[job]? with
    | some (.busy t) =>
      (crew.batch.slot? t.slot).map fun slot =>
        crew.proceed c job slot { t with stage := t.stage.load slot }
    | _ => none

def run (c : Config α) (problems : Array (Problem α)) (moves : List Move) (crew : Crew α) :
    Option (Crew α) :=
  moves.foldlM (fun crew move => crew.move c problems move) crew

end Crew

end LeastSquares
