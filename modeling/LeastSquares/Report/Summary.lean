import LeastSquares.Fit
import LeastSquares.Decimal.Layout

/-!
# Summary of a fit

A fit in a few lines for a reader, and the version of the library that made it.
-/
namespace LeastSquares

def version : String := "0.1.0"

/-- The items of a listing. Of five hundred or more only the first and the last five are shown. -/
def elided (items : List String) : List String :=
  if items.length < 500 then items
  else items.take 5 ++ "..." :: items.drop (items.length - 5)

/-- A list of numbers with the memory layout of the vector that holds it: contiguous, of one
dimension. -/
def vectorListing (values : Array Float) : String :=
  let stride := if values.isEmpty then 0 else 1
  "[" ++ ", ".intercalate (elided (values.toList.map Layout.listing.text))
    ++ s!"], shape=[{values.size}], strides=[{stride}], layout=CFcf (0xf), const ndim=1"

def Fit.summary (f : Fit Float) : String :=
  "Optimization Result:\n"
    ++ s!"  Success: {f.converged}\n"
    ++ "  Info: " ++ f.outcome.info.text ++ "\n"
    ++ "  Cost: " ++ scientific 6 f.cost ++ "\n"
    ++ s!"  Iterations: {f.outcome.iterations}\n"
    ++ s!"  Function evaluations: {f.outcome.nfev}\n"
    ++ "  Parameters: " ++ vectorListing f.params ++ "\n"

end LeastSquares
