/-!
# Errors

Everything that can go wrong, by cause. Every cause belongs to one of a few kinds, and each kind
opens its messages with its own words.
-/
namespace LeastSquares

inductive ErrorKind where
  | dimensionMismatch
  | invalidInput
  | invalidParameter
  | functionEvaluation
  | aborted
  | json
  | other
  deriving DecidableEq, Repr

/-- The causes of errors, where `α` is the type of the numbers they report. -/
inductive Error (α : Type) where
  /-- The problem and the buffers it is to be solved in have different shapes. -/
  | problemShape (m n bufferRows bufferCols : Nat)
  | scalingCount (expected actual : Nat)
  | workspaceShape (rows cols m n : Nat)
  | noParameters
  | tooFewResiduals (m n : Nat)
  | negativeTolerance (ftol xtol gtol : α)
  | emptyBudget
  | factorNotPositive (factor : α)
  | scalingNotPositive (index : Nat) (entry : α)
  | improperInput
  | aborted (status : Int)
  | emptyBatchShape (m n : Nat)
  | noSuchSlot (slot count : Nat)
  | slotLength (expected actual : Nat)
  | problemCount (problems slots : Nat)
  | startCount (problems starts : Nat)
  | factorShape (rows cols pivots : Nat)
  | pixelCount (pixels width height : Nat)
  | imageTooSmall (width height : Nat)
  | sigmaCollapsed (sigma : α)
  | syntheticTooSmall (width height : Nat)
  | noiseLevel (noise : α)
  | noiseDistribution (reason : String)
  | malformedJson
  | reported (kind : ErrorKind) (text : String)

namespace Error

variable {α : Type}

def kind : Error α → ErrorKind
  | problemShape .. | scalingCount .. | workspaceShape .. | slotLength .. | problemCount ..
  | startCount .. | factorShape .. | pixelCount .. => .dimensionMismatch
  | noParameters | tooFewResiduals .. | negativeTolerance .. | emptyBudget
  | factorNotPositive .. | scalingNotPositive .. | improperInput | emptyBatchShape ..
  | noSuchSlot .. | imageTooSmall .. | syntheticTooSmall .. => .invalidInput
  | sigmaCollapsed .. | noiseLevel .. | noiseDistribution .. => .invalidParameter
  | aborted .. => .aborted
  | malformedJson => .json
  | reported kind _ => kind

/-- The negative status under which a solve ends when its residual function fails: the status the
function asked for, made negative, and `-1` in all other cases. -/
def abortStatus : Error α → Int
  | aborted status => if status < 0 then status else if status = 0 then -1 else -status
  | _ => -1

theorem abortStatus_neg (e : Error α) : e.abortStatus < 0 := by
  unfold abortStatus
  split
  · split
    · assumption
    · split <;> omega
  · decide

end Error

end LeastSquares
