import LeastSquares.Problem
import LeastSquares.Columns

/-!
# Forward differences

The Jacobian of the residuals, one column and one residual evaluation at a time. Each column
moves one coordinate and afterwards puts back the very value it had. A failing evaluation ends
the work on the spot: the point stays where that evaluation looked and the columns before it
stay filled.
-/
namespace LeastSquares

variable {α : Type} [Scalar α]

def differenceScale (epsfcn : α) : α :=
  sqrt (larger epsfcn Numeric.epsilon)

/-- The step for a coordinate, never zero for a positive scale. -/
def differenceStep (scale coordinate : α) : α :=
  let h := scale * abs coordinate
  if h == 0 then scale else h

structure Differencing (α : Type) (m n : Nat) where
  x : Vector α n
  jacobian : Columns α m n
  /-- The residual buffer all columns share. -/
  buffer : Vector α m
  nfev : Nat
  calls : Calls α m n
  failure : Option (Error α)

namespace Differencing

variable {m n : Nat}

def moved (scale : α) (j : Fin n) (d : Differencing α m n) : Vector α n :=
  overwriteAt d.x j (d.x.get j + differenceStep scale (d.x.get j))

def probe (p : Problem α) (scale : α) (j : Fin n) (d : Differencing α m n) : Call α m n :=
  p.call d.calls (.column j) (d.moved scale j) d.buffer

/-- Fill column `j`, unless an earlier one failed. -/
def column (p : Problem α) (scale : α) (residuals : Vector α m) (j : Fin n)
    (d : Differencing α m n) : Differencing α m n :=
  if d.failure.isSome then d
  else
    let call := d.probe p scale j
    let buffer := call.response.buffer
    match call.response.failure with
    | some e =>
      { d with
        -- The coordinate stays where it was moved to.
        x := call.point, buffer
        nfev := d.nfev + 1
        calls := d.calls.push call
        failure := some e }
    | none =>
      -- The quotient is by the step asked for, not by the one that rounding left of it.
      let h := differenceStep scale (d.x.get j)
      { d with
        x := overwriteAt call.point j (d.x.get j)
        buffer
        jacobian := overwriteAt d.jacobian j
          (overwrite (d.jacobian.get j) fun i => (buffer.get i - residuals.get i) / h)
        nfev := d.nfev + 1
        calls := d.calls.push call }

section

variable {p : Problem α} {scale : α} {residuals : Vector α m} {j : Fin n} {d : Differencing α m n}

theorem column_of_failed (failed : d.failure.isSome) : d.column p scale residuals j = d :=
  if_pos failed

theorem column_of_failure {e : Error α} (intact : d.failure = none)
    (failure : (d.probe p scale j).response.failure = some e) :
    d.column p scale residuals j =
      { d with
        x := (d.probe p scale j).point
        buffer := (d.probe p scale j).response.buffer
        nfev := d.nfev + 1
        calls := d.calls.push (d.probe p scale j)
        failure := some e } := by
  simp only [column, intact, failure, Option.isSome_none, Bool.false_eq_true, if_false]

theorem column_of_success (intact : d.failure = none)
    (success : (d.probe p scale j).response.failure = none) :
    d.column p scale residuals j =
      { d with
        x := overwriteAt (d.probe p scale j).point j (d.x.get j)
        buffer := (d.probe p scale j).response.buffer
        jacobian := overwriteAt d.jacobian j (overwrite (d.jacobian.get j) fun i =>
          ((d.probe p scale j).response.buffer.get i - residuals.get i) /
            differenceStep scale (d.x.get j))
        nfev := d.nfev + 1
        calls := d.calls.push (d.probe p scale j) } := by
  simp only [column, intact, success, Option.isSome_none, Bool.false_eq_true, if_false]

/-- What a successful column is filled with. -/
theorem entry_column (intact : d.failure = none)
    (success : (d.probe p scale j).response.failure = none) (i : Fin m) :
    (d.column p scale residuals j).jacobian.entry i j =
      ((d.probe p scale j).response.buffer.get i - residuals.get i) /
        differenceStep scale (d.x.get j) := by
  rw [column_of_success intact success]
  simp [Columns.entry]

end

/-- Fill all columns, where `residuals` are those at `d.x`. -/
def run (p : Problem α) (epsfcn : α) (residuals : Vector α m) (d : Differencing α m n) :
    Differencing α m n :=
  Fin.foldl n (fun d j => d.column p (differenceScale epsfcn) residuals j) d

end Differencing

end LeastSquares
