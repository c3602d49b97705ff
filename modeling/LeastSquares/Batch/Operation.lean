import LeastSquares.Batch.Solve

/-!
# Operations on batch storage

What the owner of batch storage can do to it. The storage outlives an operation that is refused.
-/
namespace LeastSquares

variable {α : Type}

/-- Work on storage. An error ends the work and leaves the storage as it is by then. -/
abbrev Storing (α β : Type) := EStateM (Error α) (Batch α) β

inductive Operation (α : Type) where
  | setInitial (i : Nat) (values : Array α)
  | setDiag (i : Nat) (values : Array α)
  /-- Solve `problems[i]` in slot `i`, for all slots, by jobs scheduled in any way. -/
  | solve (c : Config α) (problems : Array (Problem α)) (schedule : Schedule)

namespace Operation

variable [Scalar α]

/-- Carry out an operation. A solve sums up how its problems ended. -/
def perform : Operation α → Storing α (Option Batch.Summary)
  | setInitial i values => fun b =>
    match b.setInitial i values with
    | .ok after => .ok none after
    | .error e => .error e b
  | setDiag i values => fun b =>
    match b.setDiag i values with
    | .ok after => .ok none after
    | .error e => .error e b
  | solve c problems schedule => fun b =>
    match b.solveScheduled c problems schedule with
    | .ok (solved, summary) => .ok (some summary) solved
    | .error e => .error e b

/-- A solve takes up every one of `count` slots, and none of them twice. -/
def VisitsAll (count : Nat) : Operation α → Prop
  | setInitial .. | setDiag .. => True
  | solve _ _ schedule => (schedule.map Prod.snd).Perm (List.range count)

/-- The operation suits storage for `count` problems in `n` parameters. -/
def Suits (count n : Nat) : Operation α → Prop
  | setInitial i values | setDiag i values => i < count ∧ values.size = n
  | solve _ problems _ => problems.size = count

end Operation

end LeastSquares
