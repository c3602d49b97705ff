import LeastSquares.Checked.Memory

/-!
# Checked loops

A checked loop whose indices stay in bounds computes what a traversal of the same indices does. One
that fills a vector or a column, entry by entry, overwrites it.
-/
namespace LeastSquares.Checked

variable {α β σ τ : Type} {k m n lo hi : Nat} {body : Nat → σ → Option σ}

/-! ### Loops in general -/

theorem bind_of_some {x : Option σ} {a : σ} (known : x = some a) (f : σ → Option τ) :
    (x >>= f) = f a :=
  known ▸ rfl

theorem loop_of_le (le : hi ≤ lo) (body : Nat → σ → Option σ) (s : σ) :
    loop lo hi body s = some s := by
  rw [loop, Nat.sub_eq_zero_of_le le]
  rfl

theorem loop_succ (le : lo ≤ hi) (body : Nat → σ → Option σ) (s : σ) :
    loop lo (hi + 1) body s = (loop lo hi body s).bind (body hi) := by
  obtain ⟨count, rfl⟩ := Nat.exists_eq_add_of_le le
  rw [loop, loop, Nat.add_assoc, Nat.add_sub_cancel_left, Nat.add_sub_cancel_left,
    List.range'_1_concat, List.foldlM_append]
  simp

/-- What holds of `P i` before the body is run for `i`, and therefore of `P (i + 1)` after it, holds
of `P hi` at the end, and the loop does end if the body can be run. -/
theorem loop_spec (P : Nat → σ → Prop) {s : σ} (le : lo ≤ hi) (start : P lo s)
    (step : ∀ i s, lo ≤ i → i < hi → P i s → ∃ s', body i s = some s' ∧ P (i + 1) s') :
    ∃ s', loop lo hi body s = some s' ∧ P hi s' := by
  induction hi with
  | zero => exact ⟨s, loop_of_le (Nat.zero_le _) body s, by rwa [Nat.le_zero.mp le] at start⟩
  | succ hi ih =>
    by_cases same : lo = hi + 1
    · subst same
      exact ⟨s, loop_of_le (Nat.le_refl _) body s, start⟩
    · have before : lo ≤ hi := by omega
      obtain ⟨t, run, now⟩ := ih before fun i s from_lo below =>
        step i s from_lo (Nat.lt_succ_of_lt below)
      obtain ⟨u, last, after⟩ := step hi t before (Nat.lt_succ_self hi) now
      exact ⟨u, by rw [loop_succ before, run]; exact last, after⟩

/-- A loop whose state is known before every index. -/
theorem loop_eq (inside : hi ≤ k) (state : Nat → σ) (le : lo ≤ hi) {s : σ} (start : state lo = s)
    (step : ∀ i : Fin k, lo ≤ i.val → i.val < hi → body i (state i) = some (state (i + 1))) :
    loop lo hi body s = some (state hi) := by
  subst start
  obtain ⟨_, run, rfl⟩ := loop_spec (fun i s => s = state i) le rfl <| by
    rintro i _ from_lo below rfl
    exact ⟨_, step ⟨i, Nat.lt_of_lt_of_le below inside⟩ from_lo below, rfl⟩
  exact run

/-- A loop beside a traversal of the same indices. -/
theorem loop_related (body : Nat → σ → Option σ) (R : Nat → τ → σ → Prop) {f : τ → Fin n → τ}
    {t : τ} {s : σ} (start : R 0 t s)
    (step : ∀ (i : Fin n) (t : τ) (s : σ), R i t s →
      ∃ s', body i s = some s' ∧ R (i + 1) (f t i) s') :
    ∃ s', loop 0 n body s = some s' ∧ R n (Fin.foldl n f t) s' := by
  induction n with
  | zero => exact ⟨s, loop_of_le (Nat.le_refl 0) body s, start⟩
  | succ n ih =>
    obtain ⟨u, run, now⟩ := ih fun i t s => step i.castSucc t s
    obtain ⟨v, last, after⟩ := step (Fin.last n) _ u now
    rw [Fin.foldl_succ_last, loop_succ (Nat.zero_le n), run]
    exact ⟨v, last, after⟩

/-- A loop whose body is stuck at some index does not end. -/
theorem loop_eq_none {i : Nat} (from_lo : lo ≤ i) (below : i < hi) (stuck : ∀ s, body i s = none)
    (s : σ) : loop lo hi body s = none := by
  induction hi with
  | zero => exact absurd below (Nat.not_lt_zero i)
  | succ hi ih =>
    rw [loop_succ (by omega)]
    rcases Nat.lt_succ_iff_lt_or_eq.mp below with earlier | rfl
    · rw [ih earlier]
      rfl
    · rw [Option.bind_eq_none_iff]
      exact fun t _ => stuck t

theorem foldl_skipped {f : τ → Fin n → τ} {p : Fin n → Prop} [DecidablePred p] (none : ∀ i, ¬ p i)
    (t : τ) : Fin.foldl n (fun t i => if p i then f t i else t) t = t := by
  refine foldl_invariant (fun _ u => u = t) rfl ?_
  rintro i _ rfl
  exact if_neg (none i)

/-- A loop that follows a traversal, where `e` tells how the states of the traversal are stored. -/
theorem loop_lift (inside : hi ≤ n) (e : τ → σ) {f : τ → Fin n → τ} (t : τ)
    (step : ∀ (i : Fin n) (t : τ), lo ≤ i.val → i.val < hi → body i (e t) = some (e (f t i))) :
    loop lo hi body (e t) =
      some (e (Fin.foldl n (fun t i => if lo ≤ i.val ∧ i.val < hi then f t i else t) t)) := by
  -- The last index of the traversal is that of the loop, or lies behind it.
  induction n generalizing hi with
  | zero => exact loop_of_le (by omega) body (e t)
  | succ n ih =>
    by_cases empty : hi ≤ lo
    · rw [loop_of_le empty, foldl_skipped (by omega)]
    · rw [Fin.foldl_succ_last]
      by_cases last : hi = n + 1
      · subst last
        have run := @ih n (Nat.le_refl n) (fun t i => f t i.castSucc)
          fun i t from_lo below => step i.castSucc t from_lo (Nat.lt_succ_of_lt below)
        have guard (i : Fin n) : (lo ≤ i.castSucc.val ∧ i.castSucc.val < n + 1) ↔
            (lo ≤ i.val ∧ i.val < n) := by
          simp only [Fin.val_castSucc]
          omega
        have from_lo : lo ≤ n := by omega
        simp only [guard]
        rw [if_pos ⟨from_lo, Nat.lt_succ_self n⟩, loop_succ from_lo, run]
        exact step (Fin.last n) _ from_lo (Nat.lt_succ_self n)
      · rw [if_neg (by simp only [Fin.val_last]; omega)]
        exact @ih hi (by omega) (fun t i => f t i.castSucc)
          fun i t from_lo below => step i.castSucc t from_lo below

/-- The same for all indices. -/
theorem loop_lift_all (e : τ → σ) {f : τ → Fin n → τ} (t : τ)
    (step : ∀ (i : Fin n) (t : τ), body i (e t) = some (e (f t i))) :
    loop 0 n body (e t) = some (e (Fin.foldl n f t)) := by
  have all : loop 0 n body (e t) = _ := loop_lift (Nat.le_refl n) e t fun i t _ _ => step i t
  simpa using all

/-! ### Loops that fill -/

/-- Writing back what an entry has changes nothing. -/
theorem overwriteAt_get (v : Vector β k) (j : Fin k) : overwriteAt v j (v.get j) = v := by
  apply eq_of_get_eq
  intro l
  rw [get_overwriteAt]
  split
  next same => rw [same]
  next => rfl

/-- Of two writes to one entry the second counts. -/
theorem overwriteAt_overwriteAt (v : Vector β k) (j : Fin k) (x y : β) :
    overwriteAt (overwriteAt v j x) j y = overwriteAt v j y := by
  apply eq_of_get_eq
  intro l
  simp only [get_overwriteAt]
  split <;> rfl

theorem overwriteWhere_none {v : Vector β k} {p : Fin k → Prop} [DecidablePred p] {g : Fin k → β}
    (none : ∀ i, ¬ p i) : overwriteWhere v p g = v := by
  apply eq_of_get_eq
  intro i
  rw [get_overwriteWhere, if_neg (none i)]

/-- The vector that has been filled with `g` from `lo` up to `i`. -/
def filled (lo i : Nat) (g : Fin k → β) (v : Vector β k) : Vector β k :=
  overwriteWhere v (fun l => lo ≤ l.val ∧ l.val < i) g

theorem get_filled (lo i : Nat) (g : Fin k → β) (v : Vector β k) (l : Fin k) :
    (filled lo i g v).get l = if lo ≤ l.val ∧ l.val < i then g l else v.get l :=
  get_overwriteWhere ..

/-- Entries not yet reached are as they were. -/
@[simp] theorem get_filled_of_le {i : Nat} (g : Fin k → β) (v : Vector β k) {l : Fin k}
    (ahead : i ≤ l.val) : (filled lo i g v).get l = v.get l := by
  rw [get_filled, if_neg (by omega)]

theorem filled_self (lo : Nat) (g : Fin k → β) (v : Vector β k) : filled lo lo g v = v :=
  overwriteWhere_none (by omega)

theorem filled_all (g : Fin k → β) (v : Vector β k) : filled 0 k g v = overwrite v g := by
  apply eq_of_get_eq
  intro i
  rw [get_filled, get_overwrite, if_pos ⟨Nat.zero_le _, i.isLt⟩]

theorem filled_eq {p : Fin k → Prop} [DecidablePred p]
    (range : ∀ l : Fin k, p l ↔ lo ≤ l.val ∧ l.val < hi) (g : Fin k → β) (v : Vector β k) :
    filled lo hi g v = overwriteWhere v p g :=
  eq_of_get_eq fun l => by simp only [get_filled, get_overwriteWhere, range]

/-- The indices from `j` on are those up to the last one. -/
theorem le_iff_range (j l : Fin k) : j ≤ l ↔ j.val ≤ l.val ∧ l.val < k :=
  ⟨fun le => ⟨le, l.isLt⟩, And.left⟩

theorem overwriteAt_filled {i : Fin k} (from_lo : lo ≤ i.val) (g : Fin k → β) (v : Vector β k) :
    overwriteAt (filled lo i g v) i (g i) = filled lo (i + 1) g v := by
  apply eq_of_get_eq
  intro l
  rw [get_overwriteAt, get_filled, get_filled]
  by_cases same : i = l
  · subst same
    rw [if_pos rfl, if_pos ⟨from_lo, Nat.lt_succ_self _⟩]
  · rw [if_neg same]
    have apart : i.val ≠ l.val := fun eq => same (Fin.ext eq)
    have reach : (lo ≤ l.val ∧ l.val < i + 1) ↔ (lo ≤ l.val ∧ l.val < i) := by omega
    simp only [reach]

/-- An entry that is written ahead of a stretch that follows it belongs to the stretch. -/
theorem filled_overwriteAt {i : Fin k} (below : i.val < hi) (g : Fin k → β) (v : Vector β k) :
    filled (i + 1) hi g (overwriteAt v i (g i)) = filled i hi g v := by
  apply eq_of_get_eq
  intro l
  rw [get_filled, get_filled, get_overwriteAt]
  by_cases same : i = l
  · subst same
    rw [if_neg (by omega), if_pos rfl, if_pos ⟨Nat.le_refl _, below⟩]
  · have apart : i.val ≠ l.val := fun eq => same (Fin.ext eq)
    have reach : (i.val + 1 ≤ l.val ∧ l.val < hi) ↔ (i.val ≤ l.val ∧ l.val < hi) := by omega
    simp only [reach, if_neg same]

theorem filled_filled {j : Nat} (from_j : j ≤ lo) (g : Fin k → β) (w v : Vector β k) :
    filled lo hi g (filled j hi w.get v) = filled j hi (filled lo hi g w).get v := by
  apply eq_of_get_eq
  intro l
  simp only [get_filled]
  by_cases within : lo ≤ l.val ∧ l.val < hi
  · rw [if_pos within, if_pos ⟨Nat.le_trans from_j within.1, within.2⟩, if_pos within]
  · simp only [if_neg within]

/-- The entries of `v`, the first `n` of which are given by `g`. -/
def onHead (g : Fin n → β) (v : Vector β k) (i : Fin k) : β :=
  if inside : i < n then g ⟨i, inside⟩ else v.get i

theorem onHead_castLE (fits : n ≤ k) (g : Fin n → β) (v : Vector β k) (i : Fin n) :
    onHead g v (i.castLE fits) = g i :=
  dif_pos i.isLt

theorem filled_onHead (fits : n ≤ k) (lo : Nat) (g : Fin n → β) (v : Vector β k) :
    filled lo n (onHead g v) v =
      overwriteHead v fun i => if lo ≤ i.val then g i else v.get (i.castLE fits) := by
  apply eq_of_get_eq
  intro i
  rw [get_filled, get_overwriteHead]
  by_cases inside : i.val < n
  · simp only [inside, and_true, dif_pos, onHead]
    rfl
  · rw [dif_neg inside, if_neg fun range => inside range.2]

/-- Entry `i` may be written ahead of the stretch that follows it. -/
theorem filled_onHead_after (fits : n ≤ k) (i : Fin n) (g : Fin n → β) (v : Vector β k) :
    filled (i + 1) n (onHead g v) (overwriteAt v (i.castLE fits) (g i)) =
      overwriteHead v fun l => if i ≤ l then g l else v.get (l.castLE fits) := by
  have ahead := filled_overwriteAt (i := i.castLE fits) i.isLt (onHead g v) v
  rw [onHead_castLE] at ahead
  exact ahead.trans (filled_onHead fits i g v)

/-- A loop that writes the entries of a vector, where `e` tells how the vector is stored. -/
theorem loop_filled (inside : hi ≤ k) (e : Vector β k → σ) (g : Fin k → β) (v : Vector β k)
    (step : ∀ i : Fin k, lo ≤ i.val → i.val < hi →
      body i (e (filled lo i g v)) = some (e (overwriteAt (filled lo i g v) i (g i)))) :
    loop lo hi body (e v) = some (e (filled lo hi g v)) := by
  by_cases le : lo ≤ hi
  · refine loop_eq inside (fun i => e (filled lo i g v)) le (congrArg e (filled_self ..)) ?_
    intro i from_lo below
    rw [step i from_lo below, overwriteAt_filled from_lo]
  · have none : filled lo hi g v = v := overwriteWhere_none (by omega)
    rw [none]
    exact loop_of_le (by omega) _ _

theorem fill_eq (inside : hi ≤ k) {f : Nat → Vector β k → Option β} (g : Fin k → β)
    (v : Vector β k)
    (known : ∀ i : Fin k, lo ≤ i.val → i.val < hi → f i (filled lo i g v) = some (g i)) :
    fill lo hi f v = some (filled lo hi g v) := by
  refine loop_filled inside id g v fun i from_lo below => ?_
  simp [known i from_lo below]

/-- Filling a vector all over. -/
theorem fill_all {f : Nat → Vector β k → Option β} (g : Fin k → β) (v : Vector β k)
    (known : ∀ i : Fin k, f i (filled 0 i g v) = some (g i)) :
    fill 0 k f v = some (overwrite v g) := by
  rw [fill_eq (Nat.le_refl k) g v fun i _ _ => known i, filled_all]

theorem entry_overwriteAt (a : Columns α m n) (j : Fin n) (c : Vector α m) (i : Fin m)
    (l : Fin n) :
    Columns.entry (overwriteAt a j c) i l = if j = l then c.get i else a.entry i l := by
  rw [Columns.entry, get_overwriteAt, apply_ite (fun c : Vector α m => c.get i)]
  rfl

theorem fillColumn_eq (inside : hi ≤ m) (j : Fin n) {f : Nat → Columns α m n → Option α}
    (g : Fin m → α) (a : Columns α m n)
    (known : ∀ i : Fin m, lo ≤ i.val → i.val < hi →
      f i (overwriteAt a j (filled lo i g (a.get j))) = some (g i)) :
    fillColumn lo hi j f a = some (overwriteAt a j (filled lo hi g (a.get j))) := by
  have run : fillColumn lo hi j f (overwriteAt a j (a.get j)) =
      some (overwriteAt a j (filled lo hi g (a.get j))) :=
    loop_filled inside (overwriteAt a j) g (a.get j) fun i from_lo below => by
      simp [known i from_lo below, overwriteAt_overwriteAt]
  rwa [overwriteAt_get] at run

/-! ### Loops that read -/

theorem sum_eq [Numeric α] (inside : hi ≤ n) {p : Fin n → Prop} [DecidablePred p]
    (range : ∀ i : Fin n, p i ↔ lo ≤ i.val ∧ i.val < hi) {f : Nat → Option α} (g : Fin n → α)
    (known : ∀ i : Fin n, p i → f i = some (g i)) : sum lo hi f = some (sumWhere p g) := by
  refine (loop_lift inside id (f := fun s i => s + g i) 0 ?_).trans ?_
  · intro i s from_lo below
    simp [known i ((range i).mpr ⟨from_lo, below⟩)]
  · simp only [← range]
    rfl

/-- What a search for the first index with `p` has found below `i`. -/
def foundBefore (p : Fin n → Bool) (i : Nat) : Nat :=
  if firstIndex p < i then firstIndex p else n

theorem foundBefore_zero (p : Fin n → Bool) : foundBefore p 0 = n :=
  if_neg (Nat.not_lt_zero _)

theorem foundBefore_succ (p : Fin n → Bool) (i : Fin n) :
    (if foundBefore p i = n ∧ p i then i.val else foundBefore p i) = foundBefore p (i + 1) := by
  have bound := firstIndex_le p
  by_cases earlier : firstIndex p < i
  · have still : firstIndex p < i + 1 := by omega
    simp only [foundBefore, if_pos earlier, if_pos still]
    rw [if_neg (by omega)]
  · -- Nothing has been found yet, so that index `i` is the first one if `p` holds there.
    simp only [foundBefore, if_neg earlier, true_and]
    by_cases here : p i
    · have first : firstIndex p = i := by
        refine Nat.le_antisymm (Nat.not_lt.mp fun before => ?_) (Nat.not_lt.mp earlier)
        rw [eq_false_of_lt_firstIndex before] at here
        cases here
      rw [if_pos here, if_pos (by omega), first]
    · rw [if_neg here, if_neg]
      intro reached
      have first : firstIndex p = i := by omega
      have spec := firstIndex_spec (p := p) (by omega)
      simp only [first] at spec
      exact here spec

theorem foundBefore_all (p : Fin n → Bool) : foundBefore p n = firstIndex p := by
  have bound := firstIndex_le p
  unfold foundBefore
  split <;> omega

theorem firstZero_eq [Numeric α] {f : Nat → Option α} (g : Fin n → α)
    (known : ∀ i : Fin n, f i = some (g i)) :
    firstZero n f = some (firstIndex fun i => g i == 0) := by
  let p (i : Fin n) : Bool := g i == 0
  refine (loop_eq (Nat.le_refl n) (foundBefore p) (Nat.zero_le n) (foundBefore_zero p) ?_).trans
    (congrArg some (foundBefore_all p))
  intro i _ _
  rw [known i]
  exact congrArg some (foundBefore_succ p i)

/-! ### The head of a longer vector -/

/-- A vector kept in the first entries of a longer one. -/
def kept (base : Vector α k) (w : Vector α n) : Vector α k :=
  overwriteHead base w.get

section

variable (fits : n ≤ k) (base : Vector α k) (w : Vector α n)

include fits

theorem read_kept (i : Fin n) : read (kept base w) i = some (w.get i) := by
  rw [read_of_lt _ (Nat.lt_of_lt_of_le i.isLt fits), kept, get_overwriteHead]
  exact congrArg some (dif_pos i.isLt)

theorem write_kept (i : Fin n) (x : α) :
    write (kept base w) i x = some (kept base (overwriteAt w i x)) := by
  rw [write_of_lt _ (Nat.lt_of_lt_of_le i.isLt fits)]
  refine congrArg some (eq_of_get_eq fun l => ?_)
  simp only [kept, get_overwriteAt, get_overwriteHead, Fin.ext_iff]
  grind

theorem slice_kept : slice (kept base w) 0 n = some w.toList := by
  rw [slice, if_pos ⟨Nat.zero_le n, fits⟩, List.drop_zero]
  refine congrArg some (List.ext_getElem (by simp [fits]) fun i below _ => ?_)
  have inside : i < n := by
    simp only [List.length_take] at below
    omega
  simp [kept, overwriteHead, inside, get_eq]

theorem fill_kept (inside : hi ≤ n) {f : Nat → Vector α k → Option α} (g : Fin n → α)
    (known : ∀ i : Fin n, lo ≤ i.val → i.val < hi →
      f i (kept base (filled lo i g w)) = some (g i)) :
    fill lo hi f (kept base w) = some (kept base (filled lo hi g w)) := by
  refine loop_filled inside (kept base) g w fun i from_lo below => ?_
  simp [known i from_lo below, write_kept fits]

end

/-- The first entries of a vector. -/
def head (fits : n ≤ k) (base : Vector α k) : Vector α n :=
  Vector.ofFn fun i => base.get (i.castLE fits)

theorem kept_head (fits : n ≤ k) (base : Vector α k) : kept base (head fits base) = base := by
  apply eq_of_get_eq
  intro i
  simp only [kept, get_overwriteHead]
  split
  next below => simp [head, get_eq]
  next => rfl

/-- Filling all of a head. -/
theorem fill_head (fits : n ≤ k) (base : Vector α k) {f : Nat → Vector α k → Option α}
    (w : Vector α n) (g : Fin n → α) (known : ∀ (i : Fin n) (v : Vector α k), f i v = some (g i)) :
    fill 0 n f base = some (kept base (overwrite w g)) := by
  have run : fill 0 n f (kept base (head fits base)) = _ :=
    fill_kept fits base (head fits base) (Nat.le_refl n) g fun i _ _ => known i _
  rw [kept_head, filled_all] at run
  -- Nothing is left of what the head held.
  have same : overwrite (head fits base) g = overwrite w g := by
    rw [overwrite_eq_ofFn, overwrite_eq_ofFn]
  rwa [same] at run

theorem kept_kept (base : Vector α k) (w w' : Vector α n) :
    kept (kept base w) w' = kept base w' := by
  apply eq_of_get_eq
  intro i
  simp only [kept, get_overwriteHead]
  split <;> rfl

/-! ### Loops that scatter -/

theorem scatter_eq (place : Vector (Fin n) n) (z v : Vector α n) {w : Vector α k}
    (known : ∀ j : Fin n, read w j = some (z.get j)) :
    scatter (indices place) w v = some (LeastSquares.scatter place z v) :=
  loop_lift_all id v fun j v => by simp [known]

/-! ### Loops downwards -/

theorem loopDown_succ (body : Nat → σ → Option σ) (s : σ) :
    loopDown (hi + 1) body s = (body hi s).bind (loopDown hi body) := by
  rw [loopDown, List.range_succ, List.foldrM_append]
  simp only [List.foldrM_cons, List.foldrM_nil, Option.pure_def]
  rfl

theorem loopDown_lift (inside : hi ≤ n) (e : τ → σ) {f : Fin n → τ → τ} (t : τ)
    (step : ∀ (i : Fin n) (t : τ), i.val < hi → body i (e t) = some (e (f i t))) :
    loopDown hi body (e t) =
      some (e (Fin.foldr n (fun i t => if i.val < hi then f i t else t) t)) := by
  induction n generalizing hi t with
  | zero =>
    obtain rfl : hi = 0 := by omega
    rfl
  | succ n ih =>
    rw [Fin.foldr_succ_last]
    by_cases last : hi = n + 1
    · subst last
      have run := @ih n (Nat.le_refl n) (fun i t => f i.castSucc t) (f (Fin.last n) t)
        fun i t below => step i.castSucc t (Nat.lt_succ_of_lt below)
      have first : body n (e t) = some (e (f (Fin.last n) t)) :=
        step (Fin.last n) t (Nat.lt_succ_self n)
      rw [if_pos (show (Fin.last n).val < n + 1 from Nat.lt_succ_self n), loopDown_succ, first]
      refine run.trans (congrArg (fun g => some (e (Fin.foldr n g _))) ?_)
      funext i t
      rw [if_pos i.isLt]
      exact (if_pos (Nat.lt_succ_of_lt i.isLt)).symm
    · rw [if_neg (by simp only [Fin.val_last]; omega)]
      exact @ih hi (by omega) (fun i t => f i.castSucc t) t
        fun i t below => step i.castSucc t below

end LeastSquares.Checked
