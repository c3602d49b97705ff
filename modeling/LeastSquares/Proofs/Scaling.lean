import LeastSquares.Proofs.Comparison
import LeastSquares.Proofs.Factorization
import LeastSquares.Proofs.Pivots

/-!
# The scale factors of a solve

Under explicit scaling the scale factors are the caller's throughout. Under automatic scaling each
follows the norm of its own column, wherever the pivots may have put that, from one Jacobian to the
next, and never falls. A Jacobian counts once its gradient has been tested and found not to be
within tolerance; one that ends the solve does not count, unless it is the very first.
-/
namespace LeastSquares

variable {α : Type} [Scalar α]

section

variable {m n : Nat}

def columnNorm (a : Columns α m n) (j : Fin n) : α :=
  norm (a.get j).toList

/-- The scale factor of column `j` by the Jacobian `a` and the `later` ones: the norm in `a`, or one
if that is zero, raised to the norm in each of them in turn. -/
def scaleAfter (a : Columns α m n) (later : List (Columns α m n)) (j : Fin n) : α :=
  ((a :: later).map (columnNorm · j)).foldl larger
    (if columnNorm a j == 0 then 1 else columnNorm a j)

theorem scaleAfter_concat (a b : Columns α m n) (later : List (Columns α m n)) (j : Fin n) :
    scaleAfter a (later ++ [b]) j = larger (scaleAfter a later j) (columnNorm b j) := by
  rw [scaleAfter, ← List.cons_append, List.map_append, List.foldl_append]
  rfl

end

namespace State

variable {p : Problem α} {tall : p.parameterCount ≤ p.residualCount} {c : Config α} {s : State p}

/-! ### Linearizing -/

theorem factorize_norms (tall : p.parameterCount ≤ p.residualCount) (s : State p)
    (d : Differencing α p.residualCount p.parameterCount) (j : Fin p.parameterCount) :
    (s.factorize tall d).2.get j = columnNorm d.jacobian j :=
  (s.unfactored d).get_compute_norms true j

/-- Only the first linearization gives the variables a new scale before the gradient is tested. -/
theorem tested_diag_of_pos (later : 0 < s.iterations)
    (d : Differencing α p.residualCount p.parameterCount) :
    ((s.factorize tall d).1.tested tall c (s.factorize tall d).2).diag = s.diag := by
  have kept : (s.factorize tall d).1.settle c (s.factorize tall d).2 = (s.factorize tall d).1 :=
    if_neg (Nat.ne_of_gt later)
  rw [tested, kept]
  rfl

theorem tested_diag_of_auto (auto : c.scaling = .auto) (first : s.iterations = 0)
    (d : Differencing α p.residualCount p.parameterCount) :
    ((s.factorize tall d).1.tested tall c (s.factorize tall d).2).diag =
      columnScale (s.factorize tall d).2 s.diag := by
  unfold tested settle
  dsimp only
  rw [if_pos (show (s.factorize tall d).1.iterations = 0 from first), auto]
  rfl

theorem tested_diag_of_explicit (explicit : c.scaling = .explicit) (s : State p)
    (d : Differencing α p.residualCount p.parameterCount) :
    ((s.factorize tall d).1.tested tall c (s.factorize tall d).2).diag = s.diag := by
  unfold tested settle
  dsimp only
  split
  · simp only [explicit]
    rfl
  · rfl

theorem get_raisedDiag_of_auto (auto : c.scaling = .auto) (norms : Vector α p.parameterCount)
    (s : State p) (j : Fin p.parameterCount) :
    (s.raisedDiag c norms).get j = larger (s.diag.get j) (norms.get j) := by
  unfold raisedDiag
  simp only [auto, get_overwrite]

theorem raisedDiag_of_explicit (explicit : c.scaling = .explicit)
    (norms : Vector α p.parameterCount) (s : State p) : s.raisedDiag c norms = s.diag := by
  unfold raisedDiag
  simp only [explicit]

/-! ### Steps under explicit scaling -/

theorem linearize_diag_of_explicit (explicit : c.scaling = .explicit) (s : State p) :
    (s.linearize tall c).state.diag = s.diag := by
  cases failure : (s.differentiate c).failure with
  | some e =>
    rw [linearize_of_failure failure]
    rfl
  | none =>
    have settled := @tested_diag_of_explicit _ _ _ tall c explicit s (s.differentiate c)
    rw [linearize_of_success failure]
    by_cases orthogonal : ((s.factorize tall (s.differentiate c)).1.tested tall c
        (s.factorize tall (s.differentiate c)).2).gnorm ≤ c.gtol
    · rw [testGradient_of_le orthogonal]
      exact settled
    · rw [testGradient_of_not_le orthogonal]
      exact (raisedDiag_of_explicit explicit ..).trans settled

/-- Under any scaling, no trial touches the scale factors. -/
theorem attempt_diag (tall : p.parameterCount ≤ p.residualCount) (c : Config α) (s : State p) :
    (s.attempt tall c).state.diag = s.diag := by
  have tried := tried_diag tall s
  cases failure : (s.proposed tall).evaluateTrial.2 with
  | some e =>
    rw [attempt_of_failure failure]
    exact proposed_diag tall s
  | none =>
    rw [attempt_of_success failure]
    split
    · exact tried
    · split
      · exact tried
      · exact tried

end State

/-! ### Runs under explicit scaling -/

theorem Stage.next_diag_of_explicit {p : Problem α} {tall : p.parameterCount ≤ p.residualCount}
    {c : Config α} (explicit : c.scaling = .explicit) (stage : Stage p) :
    (stage.next tall c).state.diag = stage.state.diag := by
  cases stage with
  | linearize s => exact s.linearize_diag_of_explicit explicit
  | attempt s => exact s.attempt_diag tall c
  | stopped info s => rfl

theorem Stage.run_diag_of_explicit {p : Problem α} (tall : p.parameterCount ≤ p.residualCount)
    {c : Config α} (explicit : c.scaling = .explicit) (steps : Nat) (stage : Stage p) :
    (stage.run tall c steps).state.diag = stage.state.diag :=
  run_invariant (P := fun now => now.state.diag = stage.state.diag)
    (fun now kept => (next_diag_of_explicit explicit now).trans kept) steps rfl

theorem State.start_diag {p : Problem α} (c : Config α) (x : Vector α p.parameterCount)
    (residuals : Vector α p.residualCount) (diag : Vector α p.parameterCount)
    (buffers : Buffers α p.residualCount p.parameterCount) :
    (State.start c x residuals diag buffers).state.diag = diag := by
  unfold State.start
  dsimp only
  split
  · rfl
  · rfl

/-- However a solve under explicit scaling ends, it hands back the scale factors it was given. -/
theorem solve_diag_of_explicit (p : Problem α) {c : Config α} (explicit : c.scaling = .explicit)
    (x residuals diag : Array α) (w : Workspace α) :
    (solve p c x residuals diag w).diag = diag := by
  by_cases h : Accepted p c x residuals diag w
  · obtain ⟨info, t, stopped, ended⟩ := solve_stops h
    have kept := Stage.run_diag_of_explicit h.tall explicit
      (stepBound (c.budget p.parameterCount))
      (State.start c h.given.x h.given.residuals h.given.diag h.given.buffers)
    rw [stopped, State.start_diag] at kept
    rw [ended]
    exact congrArg Vector.toArray kept
  · obtain ⟨e, rejected⟩ := solve_of_not_accepted h
    rw [rejected]
    rfl

/-! ### Runs under automatic scaling -/

namespace Stage

variable {p : Problem α} {tall : p.parameterCount ≤ p.residualCount} {c : Config α}
  {first : Stage p} {k : Nat} {s : State p}

/-- The Jacobian whose gradient test step `i` of a solve passes, if it is such a step. -/
def passedAt (tall : p.parameterCount ≤ p.residualCount) (c : Config α) (first : Stage p)
    (i : Nat) : Option (Columns α p.residualCount p.parameterCount) :=
  match first.run tall c i, first.run tall c (i + 1) with
  | linearize s, attempt _ => some (s.differentiate c).jacobian
  | _, _ => none

/-- The Jacobians whose gradient tests the first `k` steps of a solve have passed, first to last. -/
def passed (tall : p.parameterCount ≤ p.residualCount) (c : Config α) (first : Stage p) (k : Nat) :
    List (Columns α p.residualCount p.parameterCount) :=
  (List.range k).filterMap (passedAt tall c first)

theorem passed_succ (tall : p.parameterCount ≤ p.residualCount) (c : Config α) (first : Stage p)
    (k : Nat) : passed tall c first (k + 1) =
      passed tall c first k ++ (passedAt tall c first k).toList := by
  rw [passed, List.range_succ, List.filterMap_append, ← passed]
  cases found : passedAt tall c first k <;> simp [found]

theorem passed_prefix {k k' : Nat} (le : k ≤ k') :
    passed tall c first k <+: passed tall c first k' := by
  induction le with
  | refl => exact List.prefix_rfl
  | step _ ih =>
    rw [passed_succ]
    exact ih.trans (List.prefix_append _ _)

theorem passed_succ_of_attempt {t : State p} (here : first.run tall c k = .linearize s)
    (next : first.run tall c (k + 1) = .attempt t) : passed tall c first (k + 1) =
      passed tall c first k ++ [(s.differentiate c).jacobian] := by
  rw [passed_succ, passedAt, here, next]
  rfl

theorem passed_succ_of_ne (other : ∀ s t, first.run tall c k = .linearize s →
    first.run tall c (k + 1) ≠ .attempt t) :
    passed tall c first (k + 1) = passed tall c first k := by
  have none : passedAt tall c first k = none := by
    unfold passedAt
    split
    next s t here next => exact absurd next (other s t here)
    next => rfl
  rw [passed_succ, none]
  exact List.append_nil _

end Stage

namespace State

variable {p : Problem α} {tall : p.parameterCount ≤ p.residualCount} {c : Config α} {s t : State p}
  {passed : List (Columns α p.residualCount p.parameterCount)}

/-- There are Jacobians passed, and the scale factors are those they lead to. -/
def Raised (passed : List (Columns α p.residualCount p.parameterCount)) (s : State p) : Prop :=
  ∃ a later, passed = a :: later ∧ ∀ j, s.diag.get j = scaleAfter a later j

theorem Raised.of_diag (h : s.Raised passed) (kept : t.diag = s.diag) : t.Raised passed := by
  unfold Raised
  rw [kept]
  exact h

/-- The state in which a linearization with the Jacobian in `d` leads to a trial. -/
def steep (tall : p.parameterCount ≤ p.residualCount) (c : Config α) (s : State p)
    (d : Differencing α p.residualCount p.parameterCount) : State p :=
  let (u, norms) := s.factorize tall d
  { u.tested tall c norms with diag := (u.tested tall c norms).raisedDiag c norms }

theorem steep_raised_of_first (auto : c.scaling = .auto) (first : s.iterations = 0)
    (d : Differencing α p.residualCount p.parameterCount) :
    (s.steep tall c d).Raised [d.jacobian] := by
  refine ⟨d.jacobian, [], rfl, fun j => ?_⟩
  rw [steep]
  dsimp only
  rw [get_raisedDiag_of_auto auto, tested_diag_of_auto auto first, columnScale, get_overwrite,
    factorize_norms]
  rfl

theorem steep_raised_of_pos (auto : c.scaling = .auto) (later : 0 < s.iterations)
    (h : s.Raised passed) (d : Differencing α p.residualCount p.parameterCount) :
    (s.steep tall c d).Raised (passed ++ [d.jacobian]) := by
  obtain ⟨a, more, rfl, scale⟩ := h
  refine ⟨a, more ++ [d.jacobian], rfl, fun j => ?_⟩
  rw [steep]
  dsimp only
  rw [get_raisedDiag_of_auto auto, tested_diag_of_pos later, factorize_norms, scaleAfter_concat,
    ← scale]

end State

namespace Stage

variable {p : Problem α} {tall : p.parameterCount ≤ p.residualCount} {c : Config α}
  {first : Stage p} {k : Nat} {s : State p}

/-- The scale factors of a solve that has passed the gradient tests of these Jacobians. Up to the
first test the scale is not settled. -/
def ScaledBy (passed : List (Columns α p.residualCount p.parameterCount)) : Stage p → Prop
  | linearize s => s.iterations = 0 ∧ passed = [] ∨ 0 < s.iterations ∧ s.Raised passed
  | attempt s => s.Raised passed
  | stopped _ s => passed = [] ∨ s.Raised passed

theorem linearize_scaledBy (auto : c.scaling = .auto)
    (here : first.run tall c k = .linearize s)
    (now : (linearize s).ScaledBy (passed tall c first k)) :
    (first.run tall c (k + 1)).ScaledBy (passed tall c first (k + 1)) := by
  have next := run_succ_of_linearize here
  cases failure : (s.differentiate c).failure with
  | some e =>
    rw [State.linearize_of_failure failure] at next
    rw [passed_succ_of_ne (by rw [next]; exact nofun), next]
    exact now.imp And.right And.right
  | none =>
    rw [State.linearize_of_success failure] at next
    by_cases orthogonal : ((s.factorize tall (s.differentiate c)).1.tested tall c
        (s.factorize tall (s.differentiate c)).2).gnorm ≤ c.gtol
    · -- This Jacobian ends the solve. What it settles counts only if it is the first.
      rw [State.testGradient_of_le orthogonal] at next
      rw [passed_succ_of_ne (by rw [next]; exact nofun), next]
      refine now.imp And.right fun ⟨later, raised⟩ => raised.of_diag ?_
      exact State.tested_diag_of_pos later _
    · rw [State.testGradient_of_not_le orthogonal] at next
      rw [passed_succ_of_attempt here next, next]
      rcases now with ⟨first, none⟩ | ⟨later, raised⟩
      · rw [none]
        exact State.steep_raised_of_first auto first (s.differentiate c)
      · exact State.steep_raised_of_pos auto later raised (s.differentiate c)

/-- A trial keeps the scale factors. One that leads to a linearization has been accepted. -/
theorem attempt_scaledBy {passed : List (Columns α p.residualCount p.parameterCount)}
    (now : (attempt s).ScaledBy passed) : (s.attempt tall c).ScaledBy passed := by
  have tried : (s.tried tall).Raised passed :=
    State.Raised.of_diag now (State.tried_diag tall s)
  cases failure : (s.proposed tall).evaluateTrial.2 with
  | some e =>
    rw [State.attempt_of_failure failure]
    exact .inr (State.Raised.of_diag now (State.proposed_diag tall s))
  | none =>
    rw [State.attempt_of_success failure]
    split
    · exact .inr tried
    · split
      next good =>
        have counted := State.tried_iterations tall s
        rw [if_pos good] at counted
        exact .inr ⟨by omega, tried⟩
      · exact tried

/-- However far a solve under automatic scaling has got, the Jacobians it has passed give its scale
factors. -/
theorem run_scaledBy (auto : c.scaling = .auto) (start : first.ScaledBy []) (k : Nat) :
    (first.run tall c k).ScaledBy (passed tall c first k) := by
  induction k with
  | zero => exact start
  | succ k ih =>
    cases now : first.run tall c k with
    | linearize s =>
      rw [now] at ih
      exact linearize_scaledBy auto now ih
    | attempt s =>
      rw [now] at ih
      rw [passed_succ_of_ne (by rw [now]; exact nofun), run_succ_of_attempt now]
      exact attempt_scaledBy ih
    | stopped info s =>
      rw [now] at ih
      rw [passed_succ_of_ne (by rw [now]; exact nofun), run_succ_last, now]
      exact ih

theorem ScaledBy.get_diag {a : Columns α p.residualCount p.parameterCount}
    {later : List (Columns α p.residualCount p.parameterCount)} {stage : Stage p}
    (h : stage.ScaledBy (a :: later)) (j : Fin p.parameterCount) :
    stage.state.diag.get j = scaleAfter a later j := by
  have raised : stage.state.Raised (a :: later) := by
    cases stage with
    | linearize s => exact h.elim (fun untested => nomatch untested.2) And.right
    | attempt s => exact h
    | stopped info s => exact h.resolve_left nofun
  obtain ⟨_, _, ⟨⟩, scale⟩ := raised
  exact scale j

end Stage

theorem Accepted.first_scaledBy {p : Problem α} {c : Config α} {x residuals diag : Array α}
    {w : Workspace α} (h : Accepted p c x residuals diag w) : h.first.ScaledBy [] := by
  unfold first State.start
  dsimp only
  split
  · exact .inl rfl
  · exact .inl ⟨rfl, rfl⟩

/-! ### Scale factors in double precision -/

theorem Double.le_foldl_larger {x : Float} (number : x.isNaN = false) (sizes : List Float) :
    x ≤ sizes.foldl larger x ∧ (sizes.foldl larger x).isNaN = false := by
  induction sizes generalizing x with
  | nil => exact ⟨le_self number, number⟩
  | cons size sizes ih =>
    obtain ⟨numbered, kept, -⟩ := larger_spec number size
    obtain ⟨raised, stays⟩ := ih numbered
    exact ⟨le_trans kept raised, stays⟩

/-- Once it is a number, a scale factor does not fall with any further Jacobian. -/
theorem scaleAfter_le_append {m n : Nat} {a : Columns Float m n} {j : Fin n}
    (number : (columnNorm a j).isNaN = false) (later more : List (Columns Float m n)) :
    scaleAfter a later j ≤ scaleAfter a (later ++ more) j := by
  have start : (if columnNorm a j == 0 then 1 else columnNorm a j).isNaN = false := by
    split
    · rfl
    · exact number
  have numbered := (Double.le_foldl_larger start ((a :: later).map (columnNorm · j))).2
  have raised := (Double.le_foldl_larger numbered (more.map (columnNorm · j))).1
  rwa [← List.foldl_append, ← List.map_append] at raised

/-- Under explicit scaling a solve hands back the scale factors it was given, however it ends. Under
automatic scaling, as soon as the first gradient test has been passed and at all times from then on,
each scale factor is what the norms of its own column in the Jacobians that have passed the test
make of it, taken in their order: the first norm, or one if that is zero, raised to each in turn.
So it never falls if the first norm is a number, and the Jacobian at an iterate that is found
stationary has no part in it. -/
theorem solve_scaling (p : Problem Float) (c : Config Float) (x residuals diag : Array Float)
    (w : Workspace Float) :
    let run := solve p c x residuals diag w
    (c.scaling = .explicit → run.diag = diag) ∧
    (c.scaling = .auto → ∀ h : Accepted p c x residuals diag w,
      let stage (k : Nat) := h.first.run h.tall c k
      let passed := Stage.passed h.tall c h.first
      (∃ k info s, stage k = .stopped info s ∧ run = .ended info s) ∧
      (∀ k a later, passed k = a :: later → ∀ j,
        (stage k).state.diag.get j = scaleAfter a later j) ∧
      (∀ k k', k ≤ k' → ∀ a later, passed k = a :: later → ∀ j,
        (columnNorm a j).isNaN = false →
          (stage k).state.diag.get j ≤ (stage k').state.diag.get j) ∧
      (∀ k s t, stage k = .linearize s → stage (k + 1) = .stopped .gtolReached t →
        passed (k + 1) = passed k ∧ (passed k ≠ [] → t.diag = s.diag))) := by
  intro run
  refine ⟨fun explicit => solve_diag_of_explicit p explicit x residuals diag w, ?_⟩
  intro auto h stage passed
  have scaled (k : Nat) : (stage k).ScaledBy (passed k) :=
    Stage.run_scaledBy auto h.first_scaledBy k
  have law (k : Nat) (a : Columns Float p.residualCount p.parameterCount)
      (later : List (Columns Float p.residualCount p.parameterCount))
      (eq : passed k = a :: later) (j : Fin p.parameterCount) :
      (stage k).state.diag.get j = scaleAfter a later j := by
    have now := scaled k
    rw [eq] at now
    exact now.get_diag j
  refine ⟨?exit, law, ?rising, ?stationary⟩
  case exit =>
    obtain ⟨info, s, stopped, ended⟩ := solve_stops h
    exact ⟨_, info, s, stopped, ended⟩
  case rising =>
    intro k k' le a later eq j number
    -- The Jacobians passed later come after those passed so far.
    obtain ⟨more, longer⟩ : passed k <+: passed k' := Stage.passed_prefix le
    rw [eq, List.cons_append] at longer
    rw [law k a later eq, law k' a _ longer.symm]
    exact scaleAfter_le_append number later more
  case stationary =>
    intro k s t here next
    have same : passed (k + 1) = passed k := by
      refine Stage.passed_succ_of_ne fun _ u _ attempts => ?_
      cases next.symm.trans attempts
    refine ⟨same, fun some => ?_⟩
    obtain ⟨a, later, eq⟩ := List.exists_cons_of_ne_nil some
    refine eq_of_get_eq fun j => ?_
    have before := law k a later eq j
    have after := law (k + 1) a later (same.trans eq) j
    rw [here] at before
    rw [next] at after
    exact after.trans before.symm

theorem rootTwo_accepted : Accepted rootTwo (limited 6) #[0.1] #[0] #[1] (.new 1 1) :=
  ⟨rfl, rfl, rfl, rfl, rfl, Config.valid_of_isOk (by decide +kernel)⟩

/-- A scale factor that a second Jacobian raises, and one that is the caller's. -/
theorem solve_scaling_rootTwo :
    (let h := rootTwo_accepted
      ∃ a b, Stage.passed h.tall (limited 6) h.first 5 = [a, b] ∧ ∀ j,
        columnNorm a j < columnNorm b j ∧
        (h.first.run h.tall (limited 6) 5).state.diag.get j = scaleAfter a [b] j ∧
        (h.first.run h.tall (limited 6) 1).state.diag.get j ≤
          (h.first.run h.tall (limited 6) 5).state.diag.get j) ∧
    (solve rootTwo { limited 6 with scaling := .explicit } #[0.1] #[0] #[3] (.new 1 1)).diag =
      #[3] := by
  refine ⟨?_, (solve_scaling rootTwo _ #[0.1] #[0] #[3] (.new 1 1)).1 rfl⟩
  intro h
  obtain ⟨-, law, rising, -⟩ :=
    (solve_scaling rootTwo (limited 6) #[0.1] #[0] #[1] (.new 1 1)).2 rfl h
  have facts : (Stage.passed h.tall (limited 6) h.first 5).length = 2 ∧
      (Stage.passed h.tall (limited 6) h.first 5).Pairwise fun a b =>
        ∀ j, columnNorm a j < columnNorm b j := by decide +kernel
  obtain ⟨two, growing⟩ := facts
  have one : (Stage.passed h.tall (limited 6) h.first 1).length = 1 := by decide +kernel
  obtain ⟨a, b, both⟩ := List.length_eq_two.mp two
  obtain ⟨a', single⟩ := List.length_eq_one_iff.mp one
  have longer : [a'] <+: [a, b] := by
    rw [← single, ← both]
    exact Stage.passed_prefix (by decide)
  obtain rfl : a' = a := (List.cons_prefix_cons.mp longer).1
  rw [both] at growing
  refine ⟨a', b, both, fun j => ?_⟩
  have larger := List.rel_of_pairwise_cons growing List.mem_cons_self j
  have number : (columnNorm a' j).isNaN = false := ((Double.lt_iff ..).mp larger).1
  exact ⟨larger, law 5 a' [b] both j, rising 1 5 (by decide) a' [] single j number⟩

end LeastSquares
