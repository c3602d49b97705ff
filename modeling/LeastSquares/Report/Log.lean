import LeastSquares.Report.Message
import LeastSquares.Batch.Solve

/-!
# Log lines

The text of every event, at the level it is logged.
-/
namespace LeastSquares

inductive LogLevel where
  | trace
  | debug
  | info
  | warn
  deriving DecidableEq, Repr

def LogLevel.name : LogLevel → String
  | trace => "TRACE"
  | debug => "DEBUG"
  | info => "INFO"
  | warn => "WARN"

structure LogLine where
  level : LogLevel
  text : String

def LogLine.full (l : LogLine) : String :=
  l.level.name ++ " " ++ l.text

def Event.logLine : Event Float → LogLine
  | rejected e => ⟨.warn, "lmdif rejected its input: " ++ e.message⟩
  | aborted nfev e => ⟨.warn, s!"lmdif aborted after {nfev} evaluations: " ++ e.message⟩
  | tried nfev region ratio trialNorm =>
    ⟨.trace, s!"lmdif: nfev={nfev} par=" ++ scientific 3 region.par
      ++ " delta=" ++ scientific 3 region.delta
      ++ " ratio=" ++ scientific 3 ratio
      ++ " fnorm1=" ++ scientific 6 trialNorm⟩
  | finished o =>
    ⟨.debug, "lmdif finished: " ++ o.info.text
      ++ s!" after {o.nfev} evaluations, {o.iterations} steps, fnorm = "
      ++ scientific 6 o.fnorm⟩
  | covarianceUnavailable e => ⟨.warn, "covariance unavailable: " ++ e.message⟩

def Batch.Summary.logLine (s : Batch.Summary) (count : Nat) : LogLine :=
  ⟨.info, s!"batch of {count} solved: {s.converged} converged, {s.stopped} stopped, "
    ++ s!"{s.failed} failed, {s.totalNfev} evaluations"⟩

end LeastSquares
