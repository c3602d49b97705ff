import LeastSquares.Fit

/-!
# Batch storage

Starting points, residuals and scalings of many problems of one shape, pooled in one array each.
Slot `i` owns the `i`-th stretch of every pool. An operation on one slot overwrites that slot's
stretch and nothing else; an operation that fails changes nothing.
-/
namespace LeastSquares

variable {α : Type}

/-- Overwrite the entries of a pool from `start` on. Behind the values the old entries remain. -/
def overwriteFrom (pool : Array α) (start : Nat) (values : Array α) : Array α :=
  pool.mapFinIdx fun k old _ => if start ≤ k then values.getD (k - start) old else old

theorem size_overwriteFrom (pool : Array α) (start : Nat) (values : Array α) :
    (overwriteFrom pool start values).size = pool.size :=
  Array.size_mapFinIdx

/-- The stretch of slot `i` in a pool of stretches of length `stride`. -/
def stretch (pool : Array α) (stride i : Nat) : Array α :=
  pool.extract (i * stride) ((i + 1) * stride)

def writeStretch (pool : Array α) (stride i : Nat) (values : Array α) : Array α :=
  overwriteFrom pool (i * stride) values

theorem size_writeStretch (pool : Array α) (stride i : Nat) (values : Array α) :
    (writeStretch pool stride i values).size = pool.size :=
  size_overwriteFrom ..

structure Slot (α : Type) where
  params : Array α
  residuals : Array α
  diag : Array α
  outcome : Option (Outcome α)

/-- What a run leaves in its slot. -/
def Run.slot {p : Problem α} (run : Run p) : Slot α :=
  ⟨run.x, run.residuals, run.diag, some run.outcome⟩

/-- The fit in a slot that has been solved. -/
def Slot.fit? (slot : Slot α) : Option (Fit α) :=
  slot.outcome.map fun outcome => ⟨slot.params, slot.residuals, slot.diag, outcome, none⟩

/-- Pooled buffers for problems of `residualCount` residuals and `parameterCount` parameters, of
whatever length the pools are. -/
structure Pools (α : Type) where
  residualCount : Nat
  parameterCount : Nat
  params : Array α
  residuals : Array α
  diag : Array α
  outcomes : Array (Option (Outcome α))

namespace Pools

def size (p : Pools α) : Nat := p.outcomes.size

/-- Whether slot `i` exists and takes `length` values. -/
def checkSlot (p : Pools α) (i length : Nat) : Except (Error α) Unit :=
  if p.size ≤ i then .error (.noSuchSlot i p.size)
  else if length ≠ p.parameterCount then .error (.slotLength p.parameterCount length)
  else .ok ()

def slot? (p : Pools α) (i : Nat) : Option (Slot α) :=
  p.outcomes[i]?.map fun outcome =>
    { params := stretch p.params p.parameterCount i
      residuals := stretch p.residuals p.residualCount i
      diag := stretch p.diag p.parameterCount i
      outcome }

def store (p : Pools α) (i : Nat) (slot : Slot α) : Pools α :=
  { p with
    params := writeStretch p.params p.parameterCount i slot.params
    residuals := writeStretch p.residuals p.residualCount i slot.residuals
    diag := writeStretch p.diag p.parameterCount i slot.diag
    outcomes := p.outcomes.setIfInBounds i slot.outcome }

end Pools

/-- Every pool has room for one stretch of each slot and for nothing else. -/
structure Batch (α : Type) extends Pools α where
  size_params : params.size = outcomes.size * parameterCount
  size_residuals : residuals.size = outcomes.size * residualCount
  size_diag : diag.size = outcomes.size * parameterCount

namespace Batch

def setInitial (b : Batch α) (i : Nat) (values : Array α) : Except (Error α) (Batch α) := do
  b.checkSlot i values.size
  return { b with
    params := writeStretch b.params b.parameterCount i values
    size_params := (size_writeStretch ..).trans b.size_params }

def setDiag (b : Batch α) (i : Nat) (values : Array α) : Except (Error α) (Batch α) := do
  b.checkSlot i values.size
  return { b with
    diag := writeStretch b.diag b.parameterCount i values
    size_diag := (size_writeStretch ..).trans b.size_diag }

def store (b : Batch α) (i : Nat) (slot : Slot α) : Batch α :=
  have count : (b.outcomes.setIfInBounds i slot.outcome).size = b.outcomes.size :=
    Array.size_setIfInBounds
  { b.toPools.store i slot with
    size_params := ((size_writeStretch ..).trans b.size_params).trans (count.symm ▸ rfl)
    size_residuals := ((size_writeStretch ..).trans b.size_residuals).trans (count.symm ▸ rfl)
    size_diag := ((size_writeStretch ..).trans b.size_diag).trans (count.symm ▸ rfl) }

/-- The fit in slot `i`, if the slot exists and has been solved. -/
def result? (b : Batch α) (i : Nat) : Option (Fit α) :=
  (b.slot? i).bind Slot.fit?

def results (b : Batch α) : List (Fit α) :=
  (List.range b.size).filterMap b.result?

end Batch

end LeastSquares
