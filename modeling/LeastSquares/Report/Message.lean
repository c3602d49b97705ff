import LeastSquares.Error
import LeastSquares.Termination
import LeastSquares.Decimal.Layout

/-!
# Error messages

A message opens with the words of its kind and goes on with the particulars of its cause.
-/
namespace LeastSquares

def ErrorKind.opening : ErrorKind → String
  | dimensionMismatch => "Dimension mismatch: "
  | invalidInput => "Invalid input: "
  | invalidParameter => "Invalid parameter value: "
  | functionEvaluation => "Function evaluation error: "
  | aborted => "Evaluation aborted with status "
  | json => "JSON error: "
  | other => "Error: "

namespace Error

def detail : Error Float → String
  | problemShape m n rows cols => s!"problem is {m}x{n}, buffers are {rows}x{cols}"
  | scalingCount expected actual => s!"expected {expected} scaling entries, got {actual}"
  | workspaceShape rows cols m n => s!"workspace is {rows}x{cols}, problem is {m}x{n}"
  | noParameters => "no parameters to fit"
  | tooFewResiduals m n => s!"{m} residuals cannot determine {n} parameters"
  | negativeTolerance ftol xtol gtol =>
    "tolerances must be nonnegative (ftol=" ++ Layout.message.text ftol ++ ", xtol="
      ++ Layout.message.text xtol ++ ", gtol=" ++ Layout.message.text gtol ++ ")"
  | emptyBudget => "maxfev must be positive"
  | factorNotPositive factor => "factor must be positive, got " ++ Layout.message.text factor
  | scalingNotPositive index entry =>
    s!"diag[{index}] = " ++ Layout.message.text entry ++ " is not positive"
  | improperInput => Termination.invalidInput.description
  | aborted status => toString status
  | emptyBatchShape m n => s!"batch problems must have residuals and parameters, got {m}x{n}"
  | noSuchSlot slot count => s!"worker {slot} out of range for a batch of {count}"
  | slotLength expected actual => s!"expected {expected} values, got {actual}"
  | problemCount problems slots => s!"{problems} problems for {slots} batch slots"
  | startCount problems starts => s!"{problems} problems with {starts} starting points"
  | factorShape rows cols pivots => s!"R is {rows}x{cols} with {pivots} pivots"
  | pixelCount pixels width height => s!"image has {pixels} pixels, expected {width}x{height}"
  | imageTooSmall width height => s!"{width}x{height} image is too small for a 2D Gaussian"
  | sigmaCollapsed sigma => "sigma collapsed to " ++ Layout.message.text sigma
  | syntheticTooSmall width height => s!"{width}x{height} is too small for a synthetic spot"
  | noiseLevel noise =>
    "noise level must be finite and nonnegative, got " ++ Layout.message.text noise
  | noiseDistribution reason => "noise level: " ++ reason
  | malformedJson => "malformed"
  | reported _ text => text

def message (e : Error Float) : String :=
  e.kind.opening ++ e.detail

end Error

end LeastSquares
