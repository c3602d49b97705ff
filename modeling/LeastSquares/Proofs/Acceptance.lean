import LeastSquares.Solver.Run

/-!
# Accepted input

A solve either refuses its input, and then nothing happens, or it runs on buffers that fit.
-/
namespace LeastSquares

variable {α : Type} [Scalar α]

/-! ### Valid configurations -/

/-- What makes a configuration invalid for scale factors of the right number. -/
theorem Config.validate_ne_ok_iff {c : Config α} {m n : Nat} {diag : Array α}
    (size : diag.size = n) : c.validate m n diag ≠ .ok () ↔
      n = 0 ∨ m < n ∨ (¬ 0 ≤ c.ftol ∨ ¬ 0 ≤ c.xtol ∨ ¬ 0 ≤ c.gtol) ∨ c.budget n = 0 ∨
        ¬ 0 < c.factor ∨ (c.scaling = .explicit ∧ ∃ d ∈ diag, ¬ 0 < d) := by
  unfold validate
  -- A test that fails decides; one that is passed takes its clause away.
  split
  next empty => exact iff_of_true nofun (.inl empty)
  next nonempty =>
  rw [or_iff_right nonempty]
  split
  next wide => exact iff_of_true nofun (.inl wide)
  next tall =>
  rw [or_iff_right tall]
  split
  next negative => exact iff_of_true nofun (.inl negative)
  next tolerances =>
  rw [or_iff_right tolerances]
  split
  next spent => exact iff_of_true nofun (.inl spent)
  next budget =>
  rw [or_iff_right budget]
  split
  next factor => exact iff_of_true nofun (.inl factor)
  next factor =>
  rw [or_iff_right factor]
  cases scaling : c.scaling with
  | auto => exact iff_of_false (fun invalid => invalid rfl) nofun
  | explicit =>
    dsimp only
    rw [if_neg (not_not_intro size)]
    split
    next j found =>
      have bad := (Array.findFinIdx?_eq_some_iff.mp found).1
      exact iff_of_true nofun ⟨rfl, _, Array.getElem_mem _, of_decide_eq_true bad⟩
    next good =>
      rw [Array.findFinIdx?_eq_none_iff] at good
      simpa using good

theorem Config.valid_of_isOk {c : Config α} {m n : Nat} {diag : Array α}
    (accepted : (c.validate m n diag).isOk) : c.validate m n diag = .ok () := by
  cases decision : c.validate m n diag with
  | error e =>
    rw [decision] at accepted
    cases accepted
  | ok valid => rfl

/-- A configuration is valid or not whatever the scale factors are, unless they are read. -/
theorem Config.validate_congr {c : Config α} {diag diag' : Array α}
    (scaling : c.scaling = .explicit → diag' = diag) (m n : Nat) :
    c.validate m n diag' = c.validate m n diag := by
  cases mode : c.scaling with
  | auto => simp only [validate, mode]
  | explicit => rw [scaling mode]

/-! ### Accepted input -/

/-- The buffers have the shape of the problem and the configuration is valid for it. -/
structure Accepted (p : Problem α) (c : Config α) (x residuals diag : Array α)
    (w : Workspace α) : Prop where
  size_x : x.size = p.parameterCount
  size_residuals : residuals.size = p.residualCount
  size_diag : diag.size = p.parameterCount
  rows : w.residualCount = p.residualCount
  cols : w.parameterCount = p.parameterCount
  valid : c.validate p.residualCount p.parameterCount diag = .ok ()

namespace Accepted

variable {p : Problem α} {c : Config α} {x residuals diag : Array α} {w : Workspace α}

theorem tall (h : Accepted p c x residuals diag w) : p.parameterCount ≤ p.residualCount :=
  Config.le_of_validate h.valid

/-- The buffers, at the shape of the problem. -/
def given (h : Accepted p c x residuals diag w) : Fitted p :=
  { x := ⟨x, h.size_x⟩
    residuals := ⟨residuals, h.size_residuals⟩
    diag := ⟨diag, h.size_diag⟩
    buffers := w.cast h.rows h.cols }

/-- How an accepted solve ends. -/
def outcome (h : Accepted p c x residuals diag w) : Termination × State p :=
  solveFrom h.tall c h.given.x h.given.residuals h.given.diag h.given.buffers

theorem budget_pos (h : Accepted p c x residuals diag w) : 0 < c.budget p.parameterCount := by
  refine Nat.pos_of_ne_zero fun spent => ?_
  exact (Config.validate_ne_ok_iff h.size_diag).mpr (.inr (.inr (.inr (.inl spent)))) h.valid

theorem gtol_nonneg (h : Accepted p c x residuals diag w) : 0 ≤ c.gtol := by
  refine Decidable.byContradiction fun negative => ?_
  exact (Config.validate_ne_ok_iff h.size_diag).mpr
    (.inr (.inr (.inl (.inr (.inr negative))))) h.valid

theorem factor_pos (h : Accepted p c x residuals diag w) : 0 < c.factor := by
  refine Decidable.byContradiction fun nonpos => ?_
  exact (Config.validate_ne_ok_iff h.size_diag).mpr
    (.inr (.inr (.inr (.inr (.inl nonpos))))) h.valid

/-- Of the buffers only the sizes decide whether a solve is accepted, and the scale factors if they
are read. -/
theorem of_sizes {residuals' diag' : Array α} {w' : Workspace α}
    (h : Accepted p c x residuals diag w)
    (size_residuals : residuals'.size = residuals.size) (size_diag : diag'.size = diag.size)
    (scaling : c.scaling = .explicit → diag' = diag)
    (rows : w'.residualCount = w.residualCount) (cols : w'.parameterCount = w.parameterCount) :
    Accepted p c x residuals' diag' w' where
  size_x := h.size_x
  size_residuals := size_residuals.trans h.size_residuals
  size_diag := size_diag.trans h.size_diag
  rows := rows.trans h.rows
  cols := cols.trans h.cols
  valid := (Config.validate_congr scaling _ _).trans h.valid

/-- Of a workspace only the shape decides whether a solve is accepted. -/
theorem of_shape {w' : Workspace α} (h : Accepted p c x residuals diag w)
    (rows : w'.residualCount = w.residualCount)
    (cols : w'.parameterCount = w.parameterCount) : Accepted p c x residuals diag w' :=
  h.of_sizes rfl rfl (fun _ => rfl) rows cols

end Accepted

theorem admission_of_accepted {p : Problem α} {c : Config α} {x residuals diag : Array α}
    {w : Workspace α} (h : Accepted p c x residuals diag w) :
    Admission.of p c x residuals diag w = .ok ⟨h.given, h.tall⟩ := by
  have fits : Fitted.of p x residuals diag w = .ok h.given := by
    simp [Fitted.of, Accepted.given, h.size_x, h.size_residuals, h.size_diag, h.rows, h.cols]
  unfold Admission.of
  rw [fits]
  dsimp only
  -- The match keeps the equation it found, so it is split rather than rewritten.
  split
  next e invalid => simp [h.valid] at invalid
  next => rfl

theorem accepted_of_admission {p : Problem α} {c : Config α} {x residuals diag : Array α}
    {w : Workspace α} {a : Admission p} (h : Admission.of p c x residuals diag w = .ok a) :
    Accepted p c x residuals diag w := by
  unfold Admission.of at h
  split at h
  · cases h
  next b fits =>
    split at h
    · cases h
    next valid =>
      unfold Fitted.of at fits
      split at fits
      next shape =>
        split at fits
        next scaling =>
          split at fits
          next work => exact ⟨shape.1, shape.2, scaling, work.1, work.2, valid⟩
          · cases fits
        · cases fits
      · cases fits

/-- The counts of the problem, the lengths of the buffers and the shape of the workspace do not all
agree. -/
def Misfit (p : Problem α) (x residuals diag : Array α) (w : Workspace α) : Prop :=
  p.parameterCount ≠ x.size ∨ p.residualCount ≠ residuals.size ∨ diag.size ≠ x.size ∨
    w.parameterCount ≠ x.size ∨ w.residualCount ≠ residuals.size

/-- Input is refused if it does not fit together, or else if its configuration is not valid. -/
theorem not_accepted_iff {p : Problem α} {c : Config α} {x residuals diag : Array α}
    {w : Workspace α} : ¬ Accepted p c x residuals diag w ↔
      Misfit p x residuals diag w ∨
        diag.size = x.size ∧ c.validate residuals.size x.size diag ≠ .ok () := by
  constructor
  · intro refused
    by_cases misfit : Misfit p x residuals diag w
    · exact .inl misfit
    · simp only [Misfit, ne_eq, not_or, Classical.not_not] at misfit
      obtain ⟨cols, rows, scales, workCols, workRows⟩ := misfit
      refine .inr ⟨scales, fun valid => refused ?_⟩
      exact {
        size_x := cols.symm
        size_residuals := rows.symm
        size_diag := scales.trans cols.symm
        rows := workRows.trans rows.symm
        cols := workCols.trans cols.symm
        valid := by rwa [rows, cols] }
  · rintro (misfit | ⟨-, invalid⟩) accepted
    · rcases misfit with cols | rows | scales | cols | rows
      · exact cols accepted.size_x.symm
      · exact rows accepted.size_residuals.symm
      · exact scales (accepted.size_diag.trans accepted.size_x.symm)
      · exact cols (accepted.cols.trans accepted.size_x.symm)
      · exact rows (accepted.rows.trans accepted.size_residuals.symm)
    · rw [accepted.size_x, accepted.size_residuals] at invalid
      exact invalid accepted.valid

theorem solve_of_accepted {p : Problem α} {c : Config α} {x residuals diag : Array α}
    {w : Workspace α} (h : Accepted p c x residuals diag w) :
    solve p c x residuals diag w = .ended h.outcome.1 h.outcome.2 := by
  rw [solve, admission_of_accepted h]
  rfl

theorem solve_of_not_accepted {p : Problem α} {c : Config α} {x residuals diag : Array α}
    {w : Workspace α} (h : ¬ Accepted p c x residuals diag w) :
    ∃ e, solve p c x residuals diag w = .rejected x residuals diag w e := by
  cases decision : Admission.of p c x residuals diag w with
  | error e => exact ⟨e, by rw [solve, decision]⟩
  | ok a => exact absurd (accepted_of_admission decision) h

theorem accepted_of_info_ne {p : Problem α} {c : Config α} {x residuals diag : Array α}
    {w : Workspace α} (h : (solve p c x residuals diag w).outcome.info ≠ .invalidInput) :
    Accepted p c x residuals diag w := by
  apply Classical.byContradiction
  intro refused
  obtain ⟨e, rejected⟩ := solve_of_not_accepted refused
  rw [rejected] at h
  exact h rfl

/-- Buffers keep their sizes, and a workspace its shape. -/
structure Run.SameShape {p : Problem α} (x residuals diag : Array α) (w : Workspace α)
    (run : Run p) : Prop where
  x : run.x.size = x.size
  residuals : run.residuals.size = residuals.size
  diag : run.diag.size = diag.size
  rows : run.workspace.residualCount = w.residualCount
  cols : run.workspace.parameterCount = w.parameterCount

theorem solve_sameShape (p : Problem α) (c : Config α) (x residuals diag : Array α)
    (w : Workspace α) : (solve p c x residuals diag w).SameShape x residuals diag w := by
  by_cases h : Accepted p c x residuals diag w
  · rw [solve_of_accepted h]
    exact {
      x := h.outcome.2.x.size_toArray.trans h.size_x.symm
      residuals := h.outcome.2.residuals.size_toArray.trans h.size_residuals.symm
      diag := h.outcome.2.diag.size_toArray.trans h.size_diag.symm
      rows := h.rows.symm
      cols := h.cols.symm }
  · obtain ⟨e, rejected⟩ := solve_of_not_accepted h
    rw [rejected]
    exact ⟨rfl, rfl, rfl, rfl, rfl⟩

end LeastSquares
