import LeastSquares.Proofs.Storage
import LeastSquares.Proofs.Vanishing

/-!
# Results that have gone stale

A slot that has been solved may be given another starting point or another scaling, for a solve that
is still to come. They take the place of the parameters and the scale factors that the last solve
left there, while its residuals and its outcome stay. Until the next solve the result of the slot is
therefore put together from two sources.
-/
namespace LeastSquares

variable {α : Type}

/-! ### What is stored in a slot between solves -/

/-- The slot with the starting point and the scaling given, where there are any. -/
def Slot.revised (slot : Slot α) (start scaling : Option (Array α)) : Slot α :=
  { slot with
    params := start.getD slot.params
    diag := scaling.getD slot.diag }

theorem Slot.revised_revised (slot : Slot α) (start start' scaling scaling' : Option (Array α)) :
    (slot.revised start scaling).revised start' scaling' =
      slot.revised (start'.or start) (scaling'.or scaling) := by
  cases start' <;> cases scaling' <;> rfl

namespace Operation

/-- The operation solves all slots of storage for `count` problems. -/
def SolvesAll (count : Nat) : Operation α → Prop
  | setInitial .. | setDiag .. => False
  | solve _ problems _ => problems.size = count

/-- The starting point that the operation stores in slot `i` of storage for `count` problems in `n`
parameters, if it stores one there. -/
def start? (count n i : Nat) : Operation α → Option (Array α)
  | setInitial j values => if j = i ∧ j < count ∧ values.size = n then some values else none
  | setDiag .. | solve .. => none

/-- The scaling that the operation stores in slot `i` of storage for `count` problems in `n`
parameters, if it stores one there. -/
def scaling? (count n i : Nat) : Operation α → Option (Array α)
  | setDiag j values => if j = i ∧ j < count ∧ values.size = n then some values else none
  | setInitial .. | solve .. => none

/-- The starting point that the operations store last in slot `i`, if they store one there. -/
def lastStart? (count n i : Nat) (ops : List (Operation α)) : Option (Array α) :=
  (ops.filterMap (start? count n i)).getLast?

/-- The scaling that the operations store last in slot `i`, if they store one there. -/
def lastScaling? (count n i : Nat) (ops : List (Operation α)) : Option (Array α) :=
  (ops.filterMap (scaling? count n i)).getLast?

theorem revisions_of_misfit {op : Operation α} {count n : Nat} (misfit : ¬ op.Suits count n)
    (i : Nat) : op.start? count n i = none ∧ op.scaling? count n i = none := by
  cases op with
  | setInitial j values => exact ⟨if_neg fun fits => misfit fits.2, rfl⟩
  | setDiag j values => exact ⟨rfl, if_neg fun fits => misfit fits.2⟩
  | solve c problems schedule => exact ⟨rfl, rfl⟩

theorem getLast?_filterMap_concat {β γ : Type} (f : β → Option γ) (l : List β) (x : β) :
    ((l ++ [x]).filterMap f).getLast? = (f x).or (l.filterMap f).getLast? := by
  rw [List.filterMap_append, List.getLast?_append]
  cases found : f x <;> simp [found]

/-- Of any operations none solves, or one of them is the last that does. -/
theorem exists_last_solve (count : Nat) (ops : List (Operation α)) :
    (∀ op ∈ ops, ¬ op.SolvesAll count) ∨
      ∃ earlier c problems schedule later, ops = earlier ++ solve c problems schedule :: later ∧
        problems.size = count ∧ ∀ op ∈ later, ¬ op.SolvesAll count := by
  induction ops using List.reverseRecOn with
  | nil => exact .inl nofun
  | append_singleton ops op ih =>
    by_cases solves : op.SolvesAll count
    · cases op with
      | solve c problems schedule => exact .inr ⟨ops, c, problems, schedule, [], rfl, solves, nofun⟩
      | setInitial i values => exact absurd solves not_false
      | setDiag i values => exact absurd solves not_false
    · have still {others : List (Operation α)} (quiet : ∀ op ∈ others, ¬ op.SolvesAll count) :
          ∀ other ∈ others ++ [op], ¬ other.SolvesAll count := by
        intro other member
        rcases List.mem_append.mp member with before | here
        · exact quiet other before
        · rwa [List.mem_singleton.mp here]
      rcases ih with quiet | ⟨earlier, c, problems, schedule, later, rfl, suits, quiet⟩
      · exact .inl (still quiet)
      · refine .inr ⟨earlier, c, problems, schedule, later ++ [op], ?_, suits, still quiet⟩
        rw [List.append_assoc, List.cons_append]

/-! ### One operation -/

variable [Scalar α]

/-- Carry out an operation, or leave the storage as it is if it is refused. -/
def apply (b : Batch α) (op : Operation α) : Batch α :=
  match op.perform b with
  | .ok _ after => after
  | .error _ after => after

variable {op : Operation α} {b : Batch α}

theorem apply_of_done {after : Batch α} {answer : Option Batch.Summary}
    (done : op.perform b = .ok answer after) : op.apply b = after := by
  rw [apply, done]

theorem apply_of_refused {e : Error α} (refused : op.perform b = .error e b) :
    op.apply b = b := by
  rw [apply, refused]

/-- An operation that does not solve changes at most the starting point and scaling of a slot. -/
theorem apply_slot? (quiet : ¬ op.SolvesAll b.size) (i : Nat) :
    (op.apply b).slot? i = (b.slot? i).map (·.revised (op.start? b.size b.parameterCount i)
      (op.scaling? b.size b.parameterCount i)) := by
  have kept : b.slot? i = (b.slot? i).map (·.revised none none) := Option.map_id'.symm
  rcases op.perform_cases b with ⟨suits, answer, after, done, effect⟩ | ⟨misfit, e, refused⟩
  · rw [apply_of_done done]
    cases op with
    | setInitial j values =>
      obtain ⟨-, -, alters⟩ := effect
      -- Slot `i` is the one written to, or it is left as it was.
      by_cases here : j = i
      · subst here
        rw [alters.here, start?, if_pos ⟨rfl, suits⟩]
        rfl
      · rw [alters.others i here, start?, if_neg fun fits => here fits.1]
        exact kept
    | setDiag j values =>
      obtain ⟨-, -, alters⟩ := effect
      by_cases here : j = i
      · subst here
        rw [alters.here, scaling?, if_pos ⟨rfl, suits⟩]
        rfl
      · rw [alters.others i here, scaling?, if_neg fun fits => here fits.1]
        exact kept
    | solve c problems schedule => exact absurd suits quiet
  · obtain ⟨start, scaling⟩ := revisions_of_misfit misfit i
    rw [apply_of_refused refused, start, scaling]
    exact kept

/-- A solve leaves in each slot what the run there leaves. -/
theorem apply_solve_slot? (c : Config α) {problems : Array (Problem α)} {schedule : Schedule}
    (suits : problems.size = b.size)
    (visits : (schedule.map Prod.snd).Perm (List.range b.size)) {i : Nat} (inside : i < b.size) :
    ∃ after, ((solve c problems schedule).apply b).slot? i = some after ∧
      b.Solves c problems i after := by
  obtain ⟨before, found⟩ := b.exists_slot? inside
  have solved : (solve c problems schedule).apply b = b.solveBy c problems schedule := by
    rcases (solve c problems schedule).perform_cases b with
      ⟨-, _, after, done, -, rfl⟩ | ⟨misfit, -⟩
    · exact apply_of_done done
    · exact absurd suits misfit
  rw [solved]
  exact Batch.solveBy_solves (visits.nodup_iff.mpr List.nodup_range)
    (visits.mem_iff.mpr (List.mem_range.mpr inside)) (Array.getElem?_eq_getElem (suits ▸ inside))
    found

end Operation

namespace Batch

variable [Scalar α] {count m n : Nat} {b : Batch α} {ops : List (Operation α)}

theorem Reachable.apply (h : Reachable count m n b) {op : Operation α}
    (visits : op.VisitsAll count) : Reachable count m n (op.apply b) := by
  rcases op.perform_cases b with ⟨-, answer, after, done, -⟩ | ⟨-, e, refused⟩
  · rw [Operation.apply_of_done done]
    exact h.done op visits done
  · rw [Operation.apply_of_refused refused]
    exact h

/-! ### Any operations -/

/-- What the operations make of the storage, one after another. -/
def after (b : Batch α) (ops : List (Operation α)) : Batch α :=
  ops.foldl Operation.apply b

theorem after_append (b : Batch α) (earlier later : List (Operation α)) :
    b.after (earlier ++ later) = (b.after earlier).after later :=
  List.foldl_append

theorem Reachable.after (h : Reachable count m n b) (visits : ∀ op ∈ ops, op.VisitsAll count) :
    Reachable count m n (b.after ops) := by
  induction ops generalizing b with
  | nil => exact h
  | cons op ops ih =>
    rw [List.forall_mem_cons] at visits
    exact ih (h.apply visits.1) visits.2

/-- Without a solve a slot keeps all it holds, but for the starting point and the scaling that have
been stored in it last. -/
theorem after_slot?_of_quiet (h : Reachable count m n b) (visits : ∀ op ∈ ops, op.VisitsAll count)
    (quiet : ∀ op ∈ ops, ¬ op.SolvesAll count) (i : Nat) :
    (b.after ops).slot? i = (b.slot? i).map (·.revised (Operation.lastStart? count n i ops)
      (Operation.lastScaling? count n i ops)) := by
  induction ops using List.reverseRecOn with
  | nil => exact Option.map_id'.symm
  | append_singleton ops op ih =>
    rw [List.forall_mem_append, List.forall_mem_singleton] at visits quiet
    have sound := (h.after visits.1).sound
    have quietNow : ¬ op.SolvesAll (b.after ops).size := by
      rw [sound.size]
      exact quiet.2
    have changed := Operation.apply_slot? quietNow i
    rw [sound.size, sound.cols, ih visits.1 quiet.1, Option.map_map] at changed
    rw [after_append]
    refine changed.trans ?_
    simp only [Operation.lastStart?, Operation.lastScaling?, Operation.getLast?_filterMap_concat,
      ← Slot.revised_revised]
    rfl

/-! ### From the making of the storage -/

/-- Storage made for `count` problems of `m` residuals in `n` parameters. -/
inductive Made (count m n : Nat) : Batch α → Prop where
  | new {b : Batch α} (made : Pools.new count m n = .ok b.toPools) : Made count m n b
  | ofInitial {b : Batch α} {initial : List (Array α)} (length : initial.length = count)
    (width : (initial.head?.map (·.size)).getD 0 = n)
    (made : Pools.ofInitial m initial = .ok b.toPools) : Made count m n b

theorem Made.reachable (h : Made count m n b) : Reachable count m n b := by
  cases h with
  | new made => exact .new made
  | ofInitial length width made => exact .ofInitial length width made

/-- No slot of storage just made has been solved. -/
theorem Made.outcomes (h : Made count m n b) : b.outcomes = .replicate count none := by
  cases h with
  | new made => exact (Pools.new_allocated made).outcomes
  | ofInitial length width made => exact length ▸ (Pools.ofInitial_allocated made).outcomes

/-- All that can be done to storage is done by a list of operations. -/
theorem Reachable.exists_after (h : Reachable count m n b) :
    ∃ (made : Batch α) (ops : List (Operation α)), Made count m n made ∧
      (∀ op ∈ ops, op.VisitsAll count) ∧ b = made.after ops := by
  induction h with
  | new made => exact ⟨_, [], .new made, nofun, rfl⟩
  | ofInitial length width made => exact ⟨_, [], .ofInitial length width made, nofun, rfl⟩
  | @done _ after answer _ op visits done ih =>
    obtain ⟨made, ops, start, all, rfl⟩ := ih
    refine ⟨made, ops ++ [op], start, ?_, ?_⟩
    · rw [List.forall_mem_append, List.forall_mem_singleton]
      exact ⟨all, visits⟩
    · rw [after_append]
      exact (Operation.apply_of_done done).symm
  | refused _ op refused ih => exact (Operation.eq_of_refused refused).2 ▸ ih

/-- There is no result before a solve. -/
theorem Made.result?_of_quiet {made : Batch α} (h : Made count m n made)
    (visits : ∀ op ∈ ops, op.VisitsAll count) (quiet : ∀ op ∈ ops, ¬ op.SolvesAll count)
    (i : Nat) : (made.after ops).result? i = none := by
  have here := after_slot?_of_quiet h.reachable visits quiet i
  cases before : made.slot? i with
  | none =>
    rw [before] at here
    rw [result?, here]
    rfl
  | some slot =>
    have unsolved := outcome_mem before
    rw [h.outcomes] at unsolved
    rw [before, Option.map_some] at here
    rw [result?_eq here, Slot.revised, (Array.mem_replicate.mp unsolved).2, Option.map_none]

/-- A solve leaves in each slot what the run there leaves, and until the next one that is revised at
most. -/
theorem Reachable.slot?_after_solve (h : Reachable count m n b) {c : Config α}
    {problems : Array (Problem α)} {schedule : Schedule} {later : List (Operation α)}
    (suits : problems.size = count)
    (visits : ∀ op ∈ .solve c problems schedule :: later, op.VisitsAll count)
    (quiet : ∀ op ∈ later, ¬ op.SolvesAll count) {i : Nat} {slot : Slot α}
    (here : (b.after (.solve c problems schedule :: later)).slot? i = some slot) :
    ∃ (p : Problem α) (before : Slot α) (w : Workspace α), problems[i]? = some p ∧
      b.slot? i = some before ∧ w.residualCount = m ∧ w.parameterCount = n ∧
      let run := solve p c before.params before.residuals before.diag w
      slot = Slot.revised ⟨run.x, run.residuals, run.diag, some run.outcome⟩
        (Operation.lastStart? count n i later) (Operation.lastScaling? count n i later) := by
  have inside : i < b.size := by
    have bound := lt_size_of_slot? here
    rwa [(h.after visits).sound.size, ← h.sound.size] at bound
  obtain ⟨all, visits⟩ := List.forall_mem_cons.mp visits
  have everywhere : (schedule.map Prod.snd).Perm (List.range b.size) := by
    rw [h.sound.size]
    exact all
  obtain ⟨left, solved, p, before, w, known, held, shape, rfl⟩ :=
    Operation.apply_solve_slot? c (suits.trans h.sound.size.symm) everywhere inside
  have since := after_slot?_of_quiet (h.apply all) visits quiet i
  rw [solved] at since
  exact ⟨p, before, w, known, held, shape.rows.trans h.sound.rows, shape.cols.trans h.sound.cols,
    Option.some.inj (here.symm.trans since)⟩

/-- The result of a slot goes back to the last solve of the storage, with the starting point and the
scaling stored in the slot since then in place of what its run left. -/
theorem Made.result_after {made : Batch α} (h : Made count m n made)
    (visits : ∀ op ∈ ops, op.VisitsAll count) {i : Nat} {fit : Fit α}
    (found : (made.after ops).result? i = some fit) :
    ∃ earlier c problems schedule later,
      ops = earlier ++ .solve c problems schedule :: later ∧ problems.size = count ∧
      (∀ op ∈ later, ¬ op.SolvesAll count) ∧
      ∃ (p : Problem α) (before : Slot α) (w : Workspace α), problems[i]? = some p ∧
        (made.after earlier).slot? i = some before ∧
        w.residualCount = m ∧ w.parameterCount = n ∧
        let run := solve p c before.params before.residuals before.diag w
        fit = ⟨(Operation.lastStart? count n i later).getD run.x, run.residuals,
          (Operation.lastScaling? count n i later).getD run.diag, run.outcome, none⟩ := by
  rcases Operation.exists_last_solve count ops with
    quiet | ⟨earlier, c, problems, schedule, later, rfl, suits, quiet⟩
  · rw [h.result?_of_quiet visits quiet] at found
    cases found
  · obtain ⟨visits, visitsLater⟩ := List.forall_mem_append.mp visits
    rw [after_append] at found
    cases here : ((made.after earlier).after (.solve c problems schedule :: later)).slot? i with
    | none =>
      rw [result?, here] at found
      cases found
    | some slot =>
      obtain ⟨p, before, w, known, held, rows, cols, rfl⟩ :=
        (h.reachable.after visits).slot?_after_solve suits visitsLater quiet here
      rw [result?_eq here] at found
      exact ⟨earlier, c, problems, schedule, later, rfl, suits, quiet, p, before, w, known, held,
        rows, cols, (Option.some.inj found).symm⟩

omit [Scalar α] in
/-- A result holds just what the run left if nothing else has been stored in its slot since. -/
theorem fit_eq_iff {p : Problem α} (run : Run p) (start scaling : Option (Array α)) :
    Fit.mk (start.getD run.x) run.residuals (scaling.getD run.diag) run.outcome none =
        ⟨run.x, run.residuals, run.diag, run.outcome, none⟩ ↔
      (∀ values ∈ start, values = run.x) ∧ ∀ values ∈ scaling, values = run.diag := by
  have unchanged (given : Option (Array α)) (left : Array α) :
      given.getD left = left ↔ ∀ values ∈ given, values = left := by
    cases given with
    | none => exact iff_of_true rfl nofun
    | some values =>
      exact ⟨fun same _ member => Option.some.inj member ▸ same, fun same => same _ rfl⟩
  rw [← unchanged, ← unchanged]
  constructor
  · intro same
    exact ⟨congrArg Fit.params same, congrArg Fit.diag same⟩
  · rintro ⟨start, scaling⟩
    rw [start, scaling]

/-- What storage holds comes of a list of operations since it was made, and whichever list that is,
the result of a slot comes of the last solve in it and of what came after. Residuals and outcome are
those that the run of that solve left. Parameters and scale factors are, too, unless others have
been stored in the slot since; then these are in their place. So the result is that of the run if
and only if nothing was stored in the slot since, or nothing but what was there. -/
theorem result_stale {b : Batch α} (h : Reachable count m n b) :
    (∃ made ops, Made count m n made ∧ (∀ op ∈ ops, op.VisitsAll count) ∧ b = made.after ops) ∧
    ∀ made ops, Made count m n made → (∀ op ∈ ops, op.VisitsAll count) → b = made.after ops →
      ∀ i fit, b.result? i = some fit →
        ∃ earlier c problems schedule later,
          ops = earlier ++ .solve c problems schedule :: later ∧ problems.size = count ∧
          (∀ op ∈ later, ¬ op.SolvesAll count) ∧
          ∃ (p : Problem α) (before : Slot α) (w : Workspace α), problems[i]? = some p ∧
            (made.after earlier).slot? i = some before ∧
            w.residualCount = m ∧ w.parameterCount = n ∧
            let run := solve p c before.params before.residuals before.diag w
            let start := Operation.lastStart? count n i later
            let scaling := Operation.lastScaling? count n i later
            fit = ⟨start.getD run.x, run.residuals, scaling.getD run.diag, run.outcome, none⟩ ∧
            (fit = ⟨run.x, run.residuals, run.diag, run.outcome, none⟩ ↔
              (∀ values ∈ start, values = run.x) ∧ ∀ values ∈ scaling, values = run.diag) := by
  refine ⟨h.exists_after, ?_⟩
  rintro made ops start visits rfl i fit found
  obtain ⟨earlier, c, problems, schedule, later, split, suits, quiet, p, before, w, known, held,
    rows, cols, rfl⟩ := start.result_after visits found
  exact ⟨earlier, c, problems, schedule, later, split, suits, quiet, p, before, w, known, held,
    rows, cols, rfl, fit_eq_iff ..⟩

/-- Storage for one problem of one residual in one parameter, as it is made. -/
def single : Batch Float :=
  { residualCount := 1
    parameterCount := 1
    params := #[0]
    residuals := #[0]
    diag := #[1]
    outcomes := #[none]
    size_params := rfl
    size_residuals := rfl
    size_diag := rfl }

/-- A solve of the only slot, and then another starting point for it. -/
def solvedThenMoved : List (Operation Float) :=
  [.solve .default #[displaced] [(0, 0)], .setInitial 0 #[5]]

theorem single_made : Made 1 1 1 single :=
  .new rfl

theorem solvedThenMoved_visits : ∀ op ∈ solvedThenMoved, op.VisitsAll 1 := by
  rw [solvedThenMoved, List.forall_mem_cons, List.forall_mem_singleton]
  exact ⟨List.Perm.refl [0], trivial⟩

theorem moved_reachable : Reachable 1 1 1 (single.after solvedThenMoved) :=
  single_made.reachable.after solvedThenMoved_visits

/-- The result of the slot that has been solved and then moved is that of the run of its solve, but
for the parameters. -/
theorem result_stale_solved :
    Reachable 1 1 1 (single.after solvedThenMoved) ∧
      ∃ w : Workspace Float, w.residualCount = 1 ∧ w.parameterCount = 1 ∧
        let run := solve displaced .default #[0] #[0] #[1] w
        (single.after solvedThenMoved).result? 0 =
          some ⟨#[5], run.residuals, run.diag, run.outcome, none⟩ := by
  refine ⟨moved_reachable, ?_⟩
  obtain ⟨fit, found⟩ : ∃ fit, (single.after solvedThenMoved).result? 0 = some fit :=
    Option.isSome_iff_exists.mp (by decide +kernel)
  obtain ⟨earlier, c, problems, schedule, later, split, -, -, p, before, w, known, held, rows, cols,
    rfl, -⟩ := (result_stale moved_reachable).2 _ _ single_made solvedThenMoved_visits rfl 0 fit
      found
  -- The solve is the first of the two operations.
  rcases earlier with _ | ⟨op, _ | ⟨other, rest⟩⟩
  · cases split
    cases known
    cases held
    exact ⟨w, rows, cols, found⟩
  · cases split
  · simp [solvedThenMoved] at split

/-- The result of a slot that has been moved after its solve has converged: at a point that is not
the one it reports, with a residual that is not the one there. -/
theorem result_stale_moved :
    Reachable 1 1 1 (single.after solvedThenMoved) ∧
      ∃ fit, (single.after solvedThenMoved).result? 0 = some fit ∧
        fit.outcome.info = .gtolReached ∧ fit.outcome.fnorm = 0 ∧ fit.residuals = #[0] ∧
        fit.params = #[5] ∧
        (displaced.eval 1 #v[5] #v[0] : Response Float 1).buffer = #v[4] := by
  refine ⟨moved_reachable, ?_⟩
  have facts : ((single.after solvedThenMoved).result? 0).any fun fit =>
      fit.outcome.info = .gtolReached ∧ fit.outcome.fnorm = 0 ∧ fit.residuals = #[0] ∧
        fit.params = #[5] := by decide +kernel
  obtain ⟨fit, found, facts⟩ := (Option.any_eq_true ..).mp facts
  obtain ⟨info, fnorm, residuals, params⟩ := of_decide_eq_true facts
  exact ⟨fit, found, info, fnorm, residuals, params, by decide +kernel⟩

end Batch

end LeastSquares
