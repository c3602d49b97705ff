import LeastSquares.Jacobian

/-!
# Differences, column by column

The columns of a Jacobian are evaluated in order, each at the point with a single coordinate moved
and in the buffer that the column before it has left. What each column asks and what it is answered
can therefore be said without the loop: by the point and the buffer that the loop starts with. It
goes through all columns or ends at the first one whose evaluation fails.
-/
namespace LeastSquares

namespace Differencing

variable {α : Type} [Scalar α] {m n : Nat}

section

variable (p : Problem α) (scale : α) (d : Differencing α m n)

/-- The buffer that the first `k` columns hand on if all of their evaluations succeed. -/
def handedOn : Nat → Vector α m
  | 0 => d.buffer
  | k + 1 =>
    if inside : k < n then
      (p.eval (d.calls.size + k + 1) (d.moved scale ⟨k, inside⟩) (handedOn k)).buffer
    else handedOn k

/-- The call of column `j` if the columns before it succeed: at the starting point with coordinate
`j` moved, in the buffer that these columns have handed on. -/
def query (j : Fin n) : Call α m n where
  purpose := .column j
  point := d.moved scale j
  response := p.eval (d.calls.size + j + 1) (d.moved scale j) (d.handedOn p scale j)

theorem handedOn_succ (j : Fin n) :
    d.handedOn p scale (j + 1) = (d.query p scale j).response.buffer :=
  dif_pos j.isLt

variable (residuals : Vector α m)

/-- The first `k` columns have been asked for. -/
structure Asked (k : Nat) (e : Differencing α m n) : Prop where
  calls : e.calls.toList =
    d.calls.toList ++ ((List.finRange n).take k).map (d.query p scale)
  nfev : e.nfev = d.nfev + k
  buffer : e.buffer = d.handedOn p scale k

/-- The first `k` columns have been filled, the others are still those of `d`. -/
structure Filled (k : Nat) (e : Differencing α m n) : Prop where
  done : ∀ j : Fin n, j.val < k → ∀ i, e.jacobian.entry i j =
    ((d.query p scale j).response.buffer.get i - residuals.get i) /
      differenceStep scale (d.x.get j)
  rest : ∀ j : Fin n, k ≤ j.val → e.jacobian.get j = d.jacobian.get j

/-- The loop before column `k`, if it has got there. -/
structure Swept (k : Nat) (e : Differencing α m n) : Prop where
  asked : d.Asked p scale k e
  filled : d.Filled p scale residuals k e
  x : e.x = d.x
  failure : e.failure = none
  succeeded : ∀ j : Fin n, j.val < k → (d.query p scale j).response.failure = none

/-- The loop has ended at column `j`, which was asked for in vain. -/
structure Stranded (j : Fin n) (e : Differencing α m n) : Prop where
  asked : d.Asked p scale (j + 1) e
  filled : d.Filled p scale residuals j e
  x : e.x = d.moved scale j
  failed : ∃ error, (d.query p scale j).response.failure = some error ∧ e.failure = some error
  succeeded : ∀ k : Fin n, k < j → (d.query p scale k).response.failure = none

end

variable {p : Problem α} {scale : α} {residuals : Vector α m} {d e : Differencing α m n}

theorem Asked.size {j : Fin n} (h : d.Asked p scale j e) : e.calls.size = d.calls.size + j := by
  have sizes := congrArg List.length h.calls
  simpa [Nat.min_eq_left (Nat.le_of_lt j.isLt)] using sizes

theorem Asked.push {j : Fin n} (h : d.Asked p scale j e) {e' : Differencing α m n}
    (calls : e'.calls = e.calls.push (d.query p scale j)) (nfev : e'.nfev = e.nfev + 1)
    (buffer : e'.buffer = (d.query p scale j).response.buffer) :
    d.Asked p scale (j + 1) e' where
  calls := by
    rw [calls, Array.toList_push, h.calls, List.take_succ_eq_append_getElem (by simp),
      List.map_append, List.append_assoc]
    simp
  nfev := by rw [nfev, h.nfev, Nat.add_assoc]
  buffer := by rw [buffer, handedOn_succ]

/-- Once a column has been asked for, the first call is that of the first column. -/
theorem Asked.first {k : Nat} (h : d.Asked p scale k e) (some : 0 < k) (nonempty : 0 < n) :
    e.calls[d.calls.size]? = .some (d.query p scale ⟨0, nonempty⟩) := by
  rw [← Array.getElem?_toList, h.calls, List.getElem?_append_right (by simp)]
  simp [some, nonempty]

/-- The loop makes the call that was foreseen. -/
theorem Swept.probe_eq {j : Fin n} (h : d.Swept p scale residuals j e) :
    e.probe p scale j = d.query p scale j := by
  unfold probe Problem.call query moved
  rw [h.x, h.asked.size, h.asked.buffer]

/-! ### One column -/

theorem Swept.next {j : Fin n} (h : d.Swept p scale residuals j e)
    (success : (d.query p scale j).response.failure = none) :
    d.Swept p scale residuals (j + 1) (e.column p scale residuals j) := by
  have probe := h.probe_eq
  rw [column_of_success h.failure (probe ▸ success), probe]
  exact {
    asked := h.asked.push rfl rfl rfl
    filled := {
      done := fun k before i => by
        rcases Nat.lt_succ_iff_lt_or_eq.mp before with earlier | here
        · rw [Columns.entry, get_overwriteAt, if_neg (by rintro rfl; omega)]
          exact h.filled.done k earlier i
        · obtain rfl : k = j := Fin.ext here
          rw [Columns.entry, get_overwriteAt, if_pos rfl, get_overwrite, h.x]
      rest := fun k after => by
        rw [get_overwriteAt, if_neg (by rintro rfl; omega)]
        exact h.filled.rest k (by omega) }
    -- The coordinate gets back the value that was saved, whatever the step has made of it.
    x := by
      rw [h.x]
      exact overwriteAt_restore ..
    failure := h.failure
    succeeded := fun k before => by
      rcases Nat.lt_succ_iff_lt_or_eq.mp before with earlier | here
      · exact h.succeeded k earlier
      · obtain rfl : k = j := Fin.ext here
        exact success }

theorem Swept.strand {j : Fin n} (h : d.Swept p scale residuals j e) {error : Error α}
    (failed : (d.query p scale j).response.failure = some error) :
    d.Stranded p scale residuals j (e.column p scale residuals j) := by
  have probe := h.probe_eq
  rw [column_of_failure h.failure (probe ▸ failed), probe]
  exact {
    asked := h.asked.push rfl rfl rfl
    filled := ⟨h.filled.done, h.filled.rest⟩
    x := rfl
    failed := ⟨error, failed, rfl⟩
    succeeded := h.succeeded }

theorem Stranded.column {j : Fin n} (h : d.Stranded p scale residuals j e) (k : Fin n) :
    d.Stranded p scale residuals j (e.column p scale residuals k) := by
  obtain ⟨error, -, failure⟩ := h.failed
  rwa [column_of_failed (by rw [failure]; rfl)]

/-! ### All columns -/

theorem swept_start (intact : d.failure = none) : d.Swept p scale residuals 0 d where
  asked := ⟨by simp, rfl, rfl⟩
  filled := ⟨fun j none => absurd none (Nat.not_lt_zero _), fun _ _ => rfl⟩
  x := rfl
  failure := intact
  succeeded := fun j none => absurd none (Nat.not_lt_zero _)

theorem run_swept_or_stranded (p : Problem α) (epsfcn : α) (residuals : Vector α m)
    (intact : d.failure = none) :
    d.Swept p (differenceScale epsfcn) residuals n (d.run p epsfcn residuals) ∨
      ∃ j, d.Stranded p (differenceScale epsfcn) residuals j (d.run p epsfcn residuals) := by
  refine foldl_invariant (fun k e => d.Swept p (differenceScale epsfcn) residuals k e ∨
    ∃ j, d.Stranded p (differenceScale epsfcn) residuals j e) (.inl (swept_start intact)) ?_
  rintro j e (swept | ⟨k, stranded⟩)
  · cases outcome : (d.query p (differenceScale epsfcn) j).response.failure with
    | none => exact .inl (swept.next outcome)
    | some error => exact .inr ⟨j, swept.strand outcome⟩
  · exact .inr ⟨k, stranded.column j⟩

end Differencing

end LeastSquares
