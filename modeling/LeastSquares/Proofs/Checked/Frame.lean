import LeastSquares.Proofs.Checked.Search
import LeastSquares.Proofs.Trials

/-!
# What a damped solve reads and what it leaves

A damped solve works in the storage it is given: the rotations run over the diagonal of `R`, whose
entries are kept in the buffer of the solution and put back one by one, and the row that is absorbed
shares a buffer with the part of the diagonal of `S` that is finished. None of this shows in the
end. The triangle `R` and all rows past it are as they were, and what is returned depends on nothing
that the lower triangle and the buffers held.

A search lends this storage to one damped solve after another, and uses it for bounds and
corrections in between. What it leaves is nevertheless what a single damped solve leaves, made with
the damping that the search reports.
-/
namespace LeastSquares.Checked.Scratch

variable {m n k : Nat}

/-- In double precision, with a damping and right-hand sides that may be infinite or no numbers at
all: storages whose matrices differ below the diagonal of the square block at most are left by a
damped solve with one and the same outcome, that of the damped solve itself, whatever their lower
triangles and buffers held. On and above the diagonal, and in the rows past the square block, the
matrix is left as it was, and so is what is no part of a damped solve. -/
theorem damped_frame (tall : n ≤ m) (fits : n ≤ k) (r : Columns Float m n)
    (pivots : Vector (Fin n) n) (diag qtb : Vector Float n) :
    ∃ done : DampedSolution Float m n, ∀ s : Scratch Float m n k, r.SameUpper tall s.r →
      Triangular.damped tall ⟨s.r, pivots, qtb⟩ diag s.x s.sdiag (head fits s.scaled) = done ∧
      damped (indices pivots) diag qtb s = some { s with
        r := done.r
        x := done.x
        sdiag := done.sdiag
        scaled := kept s.scaled done.permuted } ∧
      s.r.SameUpper tall done.r := by
  -- The outcome is that of any storage of this kind, so it is the one of blank buffers.
  let system : Triangular Float m n := ⟨r, pivots, qtb⟩
  let blank : Vector Float n := Vector.replicate n 0
  refine ⟨system.damped tall diag blank blank blank, fun s same => ?_⟩
  have outcome : Triangular.damped tall ⟨s.r, pivots, qtb⟩ diag s.x s.sdiag (head fits s.scaled) =
      system.damped tall diag blank blank blank := system.damped_congr same ..
  have run := damped_eq tall fits (by decide) ⟨s.r, pivots, qtb⟩ diag s.x s.sdiag
    (head fits s.scaled) s.direction s.scaled
  rw [kept_head] at run
  have upper := Triangular.damped_sameUpper tall ⟨s.r, pivots, qtb⟩ diag s.x s.sdiag
    (head fits s.scaled)
  rw [outcome] at run upper
  exact ⟨outcome, run, upper⟩

/-- A matrix with a row past the square block and a damping that is no number. -/
theorem damped_frame_nan :
    2 ≤ 3 ∧ 2 ≤ 2 ∧ ∃ done : DampedSolution Float 3 2, ∀ s : Scratch Float 3 2 2,
      Columns.SameUpper (by decide) #v[#v[2, 0, 7], #v[1, 4, 8]] s.r →
        damped (indices #v[1, 0]) #v[0 / 0, 3] #v[4, 8] s = some { s with
          r := done.r
          x := done.x
          sdiag := done.sdiag
          scaled := kept s.scaled done.permuted } := by
  obtain ⟨done, outcome⟩ := damped_frame (show 2 ≤ 3 by decide) (Nat.le_refl 2)
    #v[#v[2, 0, 7], #v[1, 4, 8]] #v[1, 0] #v[0 / 0, 3] #v[4, 8]
  exact ⟨by decide, Nat.le_refl 2, done, fun s same => (outcome s same).2.1⟩

/-! ### Searches -/

/-- On checked storage, a damped solve finds in any storage that holds the triangle what it finds in
one of them. -/
theorem damped_of_same {tall : n ≤ m} (fits : n ≤ k) (system : Triangular Float m n)
    {s : Scratch Float m n k} (same : system.r.SameUpper tall s.r)
    (diag x sdiag permuted : Vector Float n) :
    let done := system.damped tall diag x sdiag permuted
    damped (indices system.pivots) diag system.qtb s =
      some (solved s.direction s.scaled done) := by
  have run := damped_eq tall fits (by decide) { system with r := s.r } diag s.x s.sdiag
    (head fits s.scaled) s.direction s.scaled
  rwa [kept_head, system.damped_congr same diag x sdiag permuted] at run

/-- In double precision, with numbers of any kind: storages whose matrices differ below the diagonal
of the square block at most lead a search to one damping, one number of trials and one step,
whatever their lower triangles and buffers held. The search leaves the matrix as it was on and above
the diagonal and in the rows past the square block. If it has made no trial, its damping is zero,
and it has left the lower triangle and the diagonal of `S` alone as well. Otherwise it has made ten
at most, and what it leaves belongs to the damping it reports: the step, the diagonal of `S` and the
matrix are those of a single damped solve with that damping, in any storage that holds `R`. -/
theorem search_frame (tall : n ≤ m) (fits : n ≤ k) (r : Columns Float m n)
    (pivots : Vector (Fin n) n) (permutation : Function.Bijective pivots.get)
    (diag qtb : Vector Float n) (delta par : Float) :
    ∃ (damping : Float) (trials : Nat) (x : Vector Float n),
      ∀ s : Scratch Float m n k, r.SameUpper tall s.r →
        let found := Triangular.search tall ⟨s.r, pivots, qtb⟩ diag delta par
          ⟨s.x, s.sdiag, s.direction, head fits s.scaled⟩
        search (indices pivots) diag qtb delta par s =
            some ⟨damping, trials, stored s.scaled found.r found.buffers⟩ ∧
          found.par = damping ∧ found.trials = trials ∧ found.buffers.x = x ∧
          s.r.SameUpper tall found.r ∧
          (trials = 0 → damping = 0 ∧ found.r = s.r ∧ found.buffers.sdiag = s.sdiag) ∧
          trials ≤ 10 ∧
          (trials ≠ 0 → ∀ fresh : Scratch Float m n k, r.SameUpper tall fresh.r →
            ∃ w, damped (indices pivots) (.ofFn fun j => sqrt damping * diag.get j) qtb fresh =
              some { fresh with
                r := found.r
                x := found.buffers.x
                sdiag := found.buffers.sdiag
                scaled := w }) := by
  let system : Triangular Float m n := ⟨r, pivots, qtb⟩
  let blank : SearchBuffers Float n :=
    let zeros := Vector.replicate n 0
    ⟨zeros, zeros, zeros, zeros⟩
  -- The answer is the one of blank buffers.
  let answer := system.search tall diag delta par blank
  refine ⟨answer.par, answer.trials, answer.buffers.x, fun s same => ?_⟩
  intro found
  have run : search (indices pivots) diag qtb delta par s =
      some ⟨found.par, found.trials, stored s.scaled found.r found.buffers⟩ := by
    have stored := search_eq tall fits ⟨s.r, pivots, qtb⟩ diag delta par (by decide)
      ⟨s.x, s.sdiag, s.direction, head fits s.scaled⟩ s.scaled
    rwa [Scratch.stored, kept_head] at stored
  obtain ⟨damping, trials, x, -⟩ := @Triangular.search_congr Float _ m n tall system diag s.r same
    permutation.injective delta par blank ⟨s.x, s.sdiag, s.direction, head fits s.scaled⟩
  obtain ⟨none, most, some⟩ := Triangular.search_solved tall ⟨s.r, pivots, qtb⟩ diag delta par
    ⟨s.x, s.sdiag, s.direction, head fits s.scaled⟩
  have upper := Triangular.search_sameUpper tall ⟨s.r, pivots, qtb⟩ diag delta par
    ⟨s.x, s.sdiag, s.direction, head fits s.scaled⟩
  change found.par = answer.par at damping
  change found.trials = answer.trials at trials
  rw [← damping, ← trials]
  refine ⟨run, rfl, rfl, x, upper, none, most, fun trial fresh alike => ?_⟩
  -- The damped solve is that of `R` itself, so it may be made in any storage.
  let diag' : Vector Float n := .ofFn fun j => sqrt found.par * diag.get j
  let done := system.damped tall diag' blank.x blank.x blank.x
  have anew := damped_of_same fits system alike diag' blank.x blank.x blank.x
  obtain ⟨r_eq, x_eq, sdiag_eq⟩ := some trial blank.x blank.x blank.x
  have outcome : Triangular.damped tall ⟨s.r, pivots, qtb⟩ diag' blank.x blank.x blank.x = done :=
    system.damped_congr same ..
  rw [r_eq, x_eq, sdiag_eq, outcome]
  exact ⟨_, anew⟩

/-- The same matrix with an entry of the scale factors that is no number. -/
theorem search_frame_nan :
    2 ≤ 3 ∧ 2 ≤ 2 ∧ Function.Bijective (#v[1, 0] : Vector (Fin 2) 2).get ∧
      ∃ (damping : Float) (trials : Nat) (x : Vector Float 2), ∀ s : Scratch Float 3 2 2,
        Columns.SameUpper (by decide) #v[#v[2, 0, 7], #v[1, 4, 8]] s.r →
          ∃ left, search (indices #v[1, 0]) #v[0 / 0, 3] #v[4, 8] 0.5 0 s =
            some ⟨damping, trials, left⟩ ∧ left.x = x ∧ trials ≤ 10 := by
  have bijective : Function.Bijective (#v[1, 0] : Vector (Fin 2) 2).get := by decide
  obtain ⟨damping, trials, x, outcome⟩ := search_frame (show 2 ≤ 3 by decide) (Nat.le_refl 2)
    #v[#v[2, 0, 7], #v[1, 4, 8]] #v[1, 0] bijective #v[0 / 0, 3] #v[4, 8] 0.5 0
  refine ⟨by decide, Nat.le_refl 2, bijective, damping, trials, x, fun s same => ?_⟩
  obtain ⟨run, -, -, step, -, -, most, -⟩ := outcome s same
  exact ⟨_, run, step, most⟩

end LeastSquares.Checked.Scratch
