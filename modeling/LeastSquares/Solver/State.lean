import LeastSquares.Jacobian
import LeastSquares.Workspace
import LeastSquares.Config
import LeastSquares.Termination
import LeastSquares.Region

/-!
# The state of a solve

A solve alternates between two kinds of steps: linearizing the residuals at a new iterate, and
trying a step from it. Besides what the iteration needs, its state keeps every residual
evaluation made and every event worth logging.
-/
namespace LeastSquares

/-- How a solve ended; the iterate and its residuals are in the buffers it worked on. -/
structure Outcome (α : Type) where
  info : Termination
  nfev : Nat
  iterations : Nat
  fnorm : α

inductive Event (α : Type) where
  | rejected (cause : Error α)
  | aborted (nfev : Nat) (cause : Error α)
  /-- A step was tried; the region is the one it led to. -/
  | tried (nfev : Nat) (region : Region α) (ratio trialNorm : α)
  | finished (outcome : Outcome α)
  | covarianceUnavailable (cause : Error α)

structure State {α : Type} (p : Problem α) where
  x : Vector α p.parameterCount
  residuals : Vector α p.residualCount
  diag : Vector α p.parameterCount
  buffers : Buffers α p.residualCount p.parameterCount
  region : Region α
  /-- The scaled length of the iterate. -/
  xnorm : α
  fnorm : α
  /-- The largest cosine between the residuals and a column of the Jacobian. -/
  gnorm : α
  nfev : Nat
  iterations : Nat
  calls : Calls α p.residualCount p.parameterCount
  events : Array (Event α)

inductive Stage {α : Type} (p : Problem α) where
  | linearize (s : State p)
  | attempt (s : State p)
  | stopped (info : Termination) (s : State p)

def Stage.state {α : Type} {p : Problem α} : Stage p → State p
  | linearize s => s
  | attempt s => s
  | stopped _ s => s

namespace State

variable {α : Type} [Scalar α] {p : Problem α}

def outcome (s : State p) (info : Termination) : Outcome α :=
  ⟨info, s.nfev, s.iterations, s.fnorm⟩

/-- Stop because the residual function failed; the norm is that of whatever it left behind. -/
def abort (s : State p) (e : Error α) : Stage p :=
  .stopped (.userAbort e.abortStatus)
    { s with
      fnorm := norm s.residuals.toList
      events := s.events.push (.aborted s.nfev e) }

def finish (s : State p) (info : Termination) : Stage p :=
  .stopped info { s with events := s.events.push (.finished (s.outcome info)) }

/-- The state after `call`, the first evaluation. -/
def opened (c : Config α) (diag : Vector α p.parameterCount)
    (buffers : Buffers α p.residualCount p.parameterCount)
    (call : Call α p.residualCount p.parameterCount) : State p :=
  { x := call.point
    residuals := call.response.buffer
    diag, buffers
    region := .start c.factor 0
    xnorm := 0
    fnorm := norm call.response.buffer.toList
    gnorm := 0
    nfev := 1
    iterations := 0
    calls := #[call]
    events := #[] }

/-- Evaluate the residuals at the starting point. -/
def start (c : Config α) (x : Vector α p.parameterCount) (residuals : Vector α p.residualCount)
    (diag : Vector α p.parameterCount) (buffers : Buffers α p.residualCount p.parameterCount) :
    Stage p :=
  let call := p.call #[] .start x residuals
  let s := opened c diag buffers call
  match call.response.failure with
  | some e => s.abort e
  | none => .linearize s

end State

end LeastSquares
