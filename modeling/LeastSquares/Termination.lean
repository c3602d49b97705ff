/-!
# Why a solve stopped

Each way to stop has an integer code: zero for input that was rejected, one to four for
convergence, five to eight for a budget or a precision exhausted, and the negative status of a
residual function that gave up.
-/
namespace LeastSquares

inductive Termination where
  /-- Improper input; nothing was evaluated. -/
  | invalidInput
  /-- The actual and the predicted relative reduction are both at most `ftol`. -/
  | ftolReached
  /-- The relative change of the iterate is at most `xtol`. -/
  | xtolReached
  | ftolAndXtolReached
  /-- The residuals are orthogonal to the columns of the Jacobian to within `gtol`. -/
  | gtolReached
  | maxfevReached
  /-- No further reduction is possible in the precision at hand. -/
  | ftolTooSmall
  /-- No further change of the iterate is possible in the precision at hand. -/
  | xtolTooSmall
  /-- The residuals are orthogonal to the precision at hand. -/
  | gtolTooSmall
  | userAbort (status : Int)
  deriving DecidableEq, Repr

namespace Termination

def code : Termination → Int
  | invalidInput => 0
  | ftolReached => 1
  | xtolReached => 2
  | ftolAndXtolReached => 3
  | gtolReached => 4
  | maxfevReached => 5
  | ftolTooSmall => 6
  | xtolTooSmall => 7
  | gtolTooSmall => 8
  | userAbort status => status

/-- The termination of a code. Codes above eight mean nothing. -/
def ofCode? (code : Int) : Option Termination :=
  if code < 0 then some (userAbort code)
  else match code with
    | 0 => some invalidInput
    | 1 => some ftolReached
    | 2 => some xtolReached
    | 3 => some ftolAndXtolReached
    | 4 => some gtolReached
    | 5 => some maxfevReached
    | 6 => some ftolTooSmall
    | 7 => some xtolTooSmall
    | 8 => some gtolTooSmall
    | _ => none

/-- The codes one to four. -/
def isConverged (t : Termination) : Bool :=
  1 ≤ t.code && t.code ≤ 4

/-- Rejected input or an abort. -/
def isError (t : Termination) : Bool :=
  t.code ≤ 0

def isAbort : Termination → Bool
  | userAbort _ => true
  | _ => false

def description : Termination → String
  | invalidInput => "Improper input parameters"
  | ftolReached => "Converged: relative reduction in the sum of squares is at most ftol"
  | xtolReached => "Converged: relative error between two iterates is at most xtol"
  | ftolAndXtolReached => "Converged: both ftol and xtol conditions hold"
  | gtolReached => "Converged: residuals are orthogonal to the Jacobian within gtol"
  | maxfevReached => "Terminated: maximum number of function evaluations reached"
  | ftolTooSmall => "Terminated: ftol is too small, no further reduction is possible"
  | xtolTooSmall => "Terminated: xtol is too small, no further improvement is possible"
  | gtolTooSmall =>
    "Terminated: gtol is too small, residuals are orthogonal to machine precision"
  | userAbort status => s!"Terminated: residual evaluation aborted with status {status}"

def text (t : Termination) : String :=
  s!"info={t.code} ({t.description})"

/-- The name under which a termination without a status is written and read. -/
def unitName? : Termination → Option String
  | invalidInput => some "InvalidInput"
  | ftolReached => some "FtolReached"
  | xtolReached => some "XtolReached"
  | ftolAndXtolReached => some "FtolAndXtolReached"
  | gtolReached => some "GtolReached"
  | maxfevReached => some "MaxFevReached"
  | ftolTooSmall => some "FtolTooSmall"
  | xtolTooSmall => some "XtolTooSmall"
  | gtolTooSmall => some "GtolTooSmall"
  | userAbort _ => none

def units : List Termination :=
  [invalidInput, ftolReached, xtolReached, ftolAndXtolReached, gtolReached, maxfevReached,
    ftolTooSmall, xtolTooSmall, gtolTooSmall]

def ofUnitName? (name : String) : Option Termination :=
  units.find? fun t => t.unitName? == some name

/-- The name, with the status of an abort in parentheses. -/
def name (t : Termination) : String :=
  match t.unitName? with
  | some name => name
  | none => s!"UserAbort({t.code})"

end Termination

end LeastSquares
