import LeastSquares.Checked.Linearize
import LeastSquares.Proofs.Checked.Damped
import LeastSquares.Proofs.Checked.Factor
import LeastSquares.Proofs.Steps

/-!
# Linearizing stays in bounds

On checked storage a linearization never meets an index out of bounds if there are at least as many
residuals as parameters, and leaves what the linearization itself does.
-/
namespace LeastSquares.Checked

variable {α : Type} [Scalar α] {m n : Nat}

/-! ### The Jacobian -/

theorem fillDifferences_eq (p : Problem α) (scale : α) (residuals : Vector α m) (j : Fin n)
    (d : Differencing α m n) :
    fillDifferences p scale residuals j d = some (d.column p scale residuals j) := by
  unfold fillDifferences
  by_cases failed : d.failure.isSome
  · rw [if_pos failed, Differencing.column_of_failed failed]
  · have intact : d.failure = none := by simpa using failed
    rw [if_neg failed]
    refine (bind_of_some (read_val d.x j) _).trans ((bind_of_some (write_val d.x j _) _).trans ?_)
    let call := d.probe p scale j
    let differences (i : Fin m) : α :=
      (call.response.buffer.get i - residuals.get i) / differenceStep scale (d.x.get j)
    have column : fillColumn 0 m j (fun i _ => do
        return ((← read call.response.buffer i) - (← read residuals i)) /
          differenceStep scale (d.x.get j)) d.jacobian =
        some (overwriteAt d.jacobian j (overwrite (d.jacobian.get j) differences)) := by
      rw [fillColumn_eq (Nat.le_refl m) j differences d.jacobian fun i _ _ => by simp [differences],
        filled_all]
    dsimp only
    split
    next e ended =>
      rw [Differencing.column_of_failure intact ended]
      rfl
    next ended =>
      rw [Differencing.column_of_success intact ended]
      exact (bind_of_some (write_val _ j _) _).trans ((bind_of_some column _).trans rfl)

theorem differentiate_eq (p : Problem α) (epsfcn : α) (residuals : Vector α m)
    (d : Differencing α m n) :
    differentiate p epsfcn residuals d = some (d.run p epsfcn residuals) :=
  loop_lift_all id d fun j d => fillDifferences_eq p _ residuals j d

/-! ### The residuals in the factored basis -/

/-- One step of a projection. -/
def projectStep (tall : n ≤ m) (a : Columns α m n) (w : Vector α m) (j : Fin n) : Vector α m :=
  if a.lead tall j j == 0 then w else LeastSquares.reflect (j.castLE tall) (a.get j) w

theorem reflectVector_eq (tall : n ≤ m) (j : Fin n) (a : Columns α m n) (w : Vector α m) :
    reflectVector j a w = some (projectStep tall a w j) := by
  unfold reflectVector projectStep
  refine (bind_of_some (readEntry_lead tall a j j) _).trans ?_
  by_cases zero : (a.lead tall j j == 0) = true
  · rw [if_pos zero, if_pos zero]
    rfl
  · let v := a.get j
    have product : (sum j m fun i => do return (← readEntry a i j) * (← read w i)) =
        some (sumWhere (j.castLE tall ≤ ·) fun i => v.get i * w.get i) := by
      refine sum_eq (Nat.le_refl m) (le_iff_range (j.castLE tall)) _ fun i _ => ?_
      simp [Columns.entry, v]
    have turned (t : α) : fill j m (fun i w => do
        return (← read w i) - t * (← readEntry a i j)) w =
        some (filled j m (fun i => w.get i - t * v.get i) w) := by
      refine fill_eq (Nat.le_refl m) _ w fun i _ _ => ?_
      simp [Columns.entry, v]
    have overwritten (t : α) : filled j m (fun i => w.get i - t * v.get i) w =
        overwriteWhere w (j.castLE tall ≤ ·) fun i => w.get i - t * v.get i :=
      filled_eq (le_iff_range (j.castLE tall)) _ w
    rw [if_neg zero, if_neg zero]
    refine (bind_of_some product _).trans ?_
    rw [turned, overwritten]
    rfl

/-- With more rows than columns a projection goes through all columns. -/
theorem project_eq (tall : n ≤ m) (packed : Columns α m n) (w : Vector α m) :
    project packed w = Fin.foldl n (projectStep tall packed) w := by
  have cast {k : Nat} (same : k = n) {f : Vector α m → Fin k → Vector α m}
      {g : Vector α m → Fin n → Vector α m} (steps : ∀ w i, f w i = g w (i.cast same)) :
      Fin.foldl k f w = Fin.foldl n g w := by
    subst same
    exact congrArg (fun h => Fin.foldl k h w) (funext fun w => funext fun i => steps w i)
  exact cast (Nat.min_eq_right tall) fun w j => rfl

theorem projectRow_eq (tall : n ≤ m) (rdiag : Vector α n) (packed : Columns α m n) (j : Fin n)
    (qtf : Vector α n) (w : Vector α m) :
    projectRow rdiag j (restored tall rdiag j packed, qtf, w) =
      some (restored tall rdiag (j + 1) packed,
        overwriteAt qtf j ((projectStep tall packed w j).get (j.castLE tall)),
        projectStep tall packed w j) := by
  let turned := projectStep tall packed w j
  have column : (restored tall rdiag j packed).get j = packed.get j :=
    get_restored tall rdiag packed (Nat.le_refl _)
  have lead : (restored tall rdiag j packed).lead tall j j = packed.lead tall j j := by
    rw [Columns.lead, Columns.entry, column]
    rfl
  have reflected : reflectVector j (restored tall rdiag j packed) w = some turned := by
    rw [reflectVector_eq tall, projectStep, lead, column]
    rfl
  have diagonal : writeEntry (restored tall rdiag j packed) j j (rdiag.get j) =
      some (restored tall rdiag (j + 1) packed) := by
    rw [writeEntry_lead tall, column, restored_succ]
  have entry : read turned j = some (turned.get (j.castLE tall)) := read_val _ (j.castLE tall)
  unfold projectRow
  refine (bind_of_some reflected _).trans ((bind_of_some (read_val rdiag j) _).trans ?_)
  refine (bind_of_some diagonal _).trans ((bind_of_some entry _).trans ?_)
  exact (bind_of_some (write_val qtf j _) _).trans rfl

theorem projectRow_all (tall : n ≤ m) (rdiag qtf : Vector α n) (packed : Columns α m n)
    (w : Vector α m) :
    loop 0 n (projectRow rdiag) (packed, qtf, w) =
      some (packed.withDiagonal tall rdiag,
        overwrite qtf fun j => (project packed w).get (j.castLE tall), project packed w) := by
  obtain ⟨_, run, kept, rfl, final⟩ := loop_related (projectRow rdiag)
    (fun j (w : Vector α m) state => ∃ kept : Vector α n,
      state = (restored tall rdiag j packed, kept, w) ∧
      ∀ l : Fin n, l.val < j → kept.get l = w.get (l.castLE tall))
    (f := projectStep tall packed) (t := w)
    ⟨qtf, by rw [restored_zero], fun l before => absurd before (Nat.not_lt_zero _)⟩
    (by
      rintro j w _ ⟨kept, rfl, final⟩
      refine ⟨_, projectRow_eq tall rdiag packed j kept w, _, rfl, fun l now => ?_⟩
      rw [get_overwriteAt]
      split
      next same => rw [same]
      next apart =>
        have before : l.val < j := by omega
        rw [final l before]
        -- Later reflections do not reach this entry.
        unfold projectStep
        split
        · rfl
        · have apart : ¬ j.castLE tall ≤ l.castLE tall := Nat.not_le_of_lt before
          simp only [LeastSquares.reflect, get_overwriteWhere, if_neg apart])
  rw [run, restored_all, project_eq tall]
  refine congrArg (fun kept => some (packed.withDiagonal tall rdiag, kept, _)) ?_
  exact eq_of_get_eq fun l => by rw [final l l.isLt, get_overwrite]

/-! ### The gradient -/

theorem columnScale_eq (norms diag : Vector α n) :
    columnScale norms diag = some (LeastSquares.columnScale norms diag) :=
  fill_all _ diag fun j => by simp

theorem raiseScale_eq (norms diag : Vector α n) :
    raiseScale norms diag = some (overwrite diag fun j => larger (diag.get j) (norms.get j)) :=
  fill_all _ diag fun j => by simp

theorem gradientNorm_eq (tall : n ≤ m) (r : Columns α m n) (pivots : Vector (Fin n) n)
    (qtf norms : Vector α n) (fnorm : α) :
    gradientNorm r (indices pivots) qtf norms fnorm =
      some (LeastSquares.gradientNorm tall r pivots qtf norms fnorm) := by
  unfold gradientNorm LeastSquares.gradientNorm
  by_cases solved : (fnorm == 0) = true
  · rw [if_pos solved, if_pos solved]
  · rw [if_neg solved, if_neg solved]
    refine loop_lift_all id 0 fun j g => ?_
    have product : (sum 0 (j + 1) fun i => do
        return (← readEntry r i j) * ((← read qtf i) / fnorm)) =
        some (sumWhere (· ≤ j) fun i => r.lead tall i j * (qtf.get i / fnorm)) := by
      refine sum_eq j.isLt (fun i => by omega) _ fun i _ => ?_
      simp [readEntry_lead tall]
    have size : read norms (pivots.get j) = some (norms.get (pivots.get j)) := read_val ..
    refine (bind_of_some (read_indices pivots j) _).trans ((bind_of_some size _).trans ?_)
    by_cases empty : (norms.get (pivots.get j) == 0) = true
    · rw [if_pos empty]
      exact (congrArg some (if_pos empty)).symm
    · rw [if_neg empty]
      exact (bind_of_some product _).trans (congrArg some (if_neg empty)).symm

/-! ### The step of a solve -/

section

variable {p : Problem α} (tall : p.parameterCount ≤ p.residualCount) (c : Config α) (s : State p)

theorem factorize_eq (d : Differencing α p.residualCount p.parameterCount) :
    factorize s d = some (s.factorize tall d) := by
  let f := (s.unfactored d).compute true
  have computed := Factor.compute_eq true (indices s.buffers.pivots) (s.unfactored d) fun _ => rfl
  have projected := projectRow_all tall f.rdiag s.buffers.qtf f.packed s.residuals
  unfold factorize
  refine (bind_of_some computed _).trans ((bind_of_some projected _).trans ?_)
  refine (bind_of_some (pivots?_indices f.pivots) _).trans ?_
  unfold State.factorize
  rw [overwrite_get]
  rfl

theorem settle_eq (norms : Vector α p.parameterCount) :
    settle c norms s = some (s.settle c norms) := by
  unfold settle State.settle
  by_cases first : s.iterations = 0
  · rw [if_pos first, if_pos first]
    have scaled (diag : Vector α p.parameterCount) :
        fill 0 p.parameterCount (fun j _ => do return (← read diag j) * (← read s.x j))
            s.buffers.scaled =
          some (overwrite s.buffers.scaled fun j => diag.get j * s.x.get j) :=
      fill_all _ _ fun j => by simp
    cases c.scaling with
    | auto =>
      refine (bind_of_some (columnScale_eq norms s.diag) _).trans ?_
      exact (bind_of_some (scaled _) _).trans rfl
    | explicit => exact (bind_of_some (scaled s.diag) _).trans rfl
  · rw [if_neg first, if_neg first]

theorem testGradient_eq (norms : Vector α p.parameterCount) :
    testGradient c norms s = some (s.testGradient tall c norms) := by
  unfold testGradient State.testGradient State.raisedDiag
  refine (bind_of_some (settle_eq c s norms) _).trans ?_
  refine (bind_of_some (gradientNorm_eq tall _ _ _ _ _) _).trans ?_
  dsimp only
  split
  · rfl
  · cases c.scaling with
    | auto => exact (bind_of_some (raiseScale_eq norms (s.settle c norms).diag) _).trans rfl
    | explicit => rfl

theorem linearize_eq : linearize c s = some (s.linearize tall c) := by
  have differentiated : differentiate p c.epsfcn s.residuals s.unfilled =
      some (s.differentiate c) := differentiate_eq ..
  unfold linearize
  refine (bind_of_some differentiated _).trans ?_
  dsimp only
  split
  next e failure =>
    rw [State.linearize_of_failure failure]
    rfl
  next success =>
    rw [State.linearize_of_success success]
    exact (bind_of_some (factorize_eq tall s _) _).trans (testGradient_eq tall c _ _)

end

end LeastSquares.Checked
