import LeastSquares.Solver.Linearize
import LeastSquares.Solver.Attempt

/-!
# Solving

The steps of a solve are strung together until it stops. A trial that does not stop has left part
of the evaluation budget unspent, and every linearization is followed by a trial, so a number of
steps read off the budget is always enough. A solve may be given buffers of any shape; it is
rejected, with nothing touched, unless they fit the problem and the configuration is valid.
-/
namespace LeastSquares

variable {α : Type} [Scalar α]

namespace Stage

variable {p : Problem α}

def next (tall : p.parameterCount ≤ p.residualCount) (c : Config α) : Stage p → Stage p
  | linearize s => s.linearize tall c
  | attempt s => s.attempt tall c
  | stopped info s => stopped info s

def run (tall : p.parameterCount ≤ p.residualCount) (c : Config α) : Nat → Stage p → Stage p
  | 0, stage => stage
  | _ + 1, stopped info s => stopped info s
  | steps + 1, stage => run tall c steps (stage.next tall c)

/-- The outcome of a solve. One cut short would have exhausted its budget. -/
def result : Stage p → Termination × State p
  | stopped info s => (info, s)
  | linearize s | attempt s => (.maxfevReached, s)

end Stage

/-- Enough steps for a solve of the given evaluation budget. -/
def stepBound (budget : Nat) : Nat := 2 * budget + 1

def solveFrom {p : Problem α} (tall : p.parameterCount ≤ p.residualCount) (c : Config α)
    (x : Vector α p.parameterCount) (residuals : Vector α p.residualCount)
    (diag : Vector α p.parameterCount) (buffers : Buffers α p.residualCount p.parameterCount) :
    Termination × State p :=
  ((State.start c x residuals diag buffers).run tall c
    (stepBound (c.budget p.parameterCount))).result

/-- A finished solve: its outcome, the buffers as it left them, and its record. -/
structure Run {α : Type} (p : Problem α) where
  outcome : Outcome α
  x : Array α
  residuals : Array α
  diag : Array α
  workspace : Workspace α
  calls : Calls α p.residualCount p.parameterCount
  events : Array (Event α)

structure Fitted {α : Type} (p : Problem α) where
  x : Vector α p.parameterCount
  residuals : Vector α p.residualCount
  diag : Vector α p.parameterCount
  buffers : Buffers α p.residualCount p.parameterCount

def Fitted.of (p : Problem α) (x residuals diag : Array α) (w : Workspace α) :
    Except (Error α) (Fitted p) :=
  if shape : x.size = p.parameterCount ∧ residuals.size = p.residualCount then
    if scaling : diag.size = p.parameterCount then
      if work : w.residualCount = p.residualCount ∧ w.parameterCount = p.parameterCount then
        .ok
          { x := ⟨x, shape.1⟩
            residuals := ⟨residuals, shape.2⟩
            diag := ⟨diag, scaling⟩
            buffers := w.cast work.1 work.2 }
      else
        .error (.workspaceShape w.residualCount w.parameterCount residuals.size x.size)
    else .error (.scalingCount x.size diag.size)
  else
    .error (.problemShape p.residualCount p.parameterCount residuals.size x.size)

theorem Config.le_of_validate {c : Config α} {m n : Nat} {diag : Array α}
    (valid : c.validate m n diag = .ok ()) : n ≤ m := by
  unfold Config.validate at valid
  split at valid
  · cases valid
  · split at valid
    · cases valid
    · omega

theorem Config.pos_of_validate {c : Config α} {m n : Nat} {diag : Array α}
    (valid : c.validate m n diag = .ok ()) : 0 < n := by
  unfold Config.validate at valid
  split at valid
  · cases valid
  · omega

/-- The run of a solve that was refused: nothing has changed. -/
def Run.rejected {p : Problem α} (x residuals diag : Array α) (w : Workspace α) (e : Error α) :
    Run p :=
  { outcome := ⟨.invalidInput, 0, 0, 0⟩
    x, residuals, diag
    workspace := w
    calls := #[]
    events := #[.rejected e] }

/-- The run of a solve that stopped in the state `s`. -/
def Run.ended {p : Problem α} (info : Termination) (s : State p) : Run p :=
  { outcome := s.outcome info
    x := s.x.toArray
    residuals := s.residuals.toArray
    diag := s.diag.toArray
    workspace := ⟨p.residualCount, p.parameterCount, s.buffers⟩
    calls := s.calls
    events := s.events }

/-- Buffers that fit a problem, under a configuration that is valid for it. -/
structure Admission {α : Type} (p : Problem α) extends Fitted p where
  tall : p.parameterCount ≤ p.residualCount

/-- Decide whether to solve `p` at all. -/
def Admission.of (p : Problem α) (c : Config α) (x residuals diag : Array α) (w : Workspace α) :
    Except (Error α) (Admission p) :=
  match Fitted.of p x residuals diag w with
  | .error e => .error e
  | .ok b =>
    match valid : c.validate p.residualCount p.parameterCount diag with
    | .error e => .error e
    | .ok () => .ok ⟨b, Config.le_of_validate valid⟩

/-- Minimize the sum of squared residuals of `p`, starting from `x`. The residual buffer receives
the residuals and `diag` the scaling, which is also read if the configuration says so. -/
def solve (p : Problem α) (c : Config α) (x residuals diag : Array α) (w : Workspace α) : Run p :=
  match Admission.of p c x residuals diag w with
  | .error e => .rejected x residuals diag w e
  | .ok a =>
    let (info, s) := solveFrom a.tall c a.x a.residuals a.diag a.buffers
    .ended info s

end LeastSquares
