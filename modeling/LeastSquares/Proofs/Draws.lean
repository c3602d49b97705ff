import Mathlib.Logic.Function.Iterate
import LeastSquares.Random.Normal
import LeastSquares.Spot.Synthetic

/-!
# What a batch of synthetic images draws

One generator runs through a batch. If normally distributed numbers consume the same draws whatever
their deviation, how far an image moves the generator depends on the size of the image alone. So the
generator that an image starts from is known without the images before it, an image is the same in
every batch that is long enough to contain it, and its spot is the same at every level of noise.
-/
namespace LeastSquares

/-! ### The stream as a source -/

namespace Generator

theorem source_seeded : source.Seeded :=
  fun _ _ _ => rfl

/-- Every finite deviation is that of a normal distribution. -/
theorem exists_normal {mean deviation : Float} (finite : deviation.isFinite) :
    ∃ sample, source.normal mean deviation = .ok sample :=
  ⟨_, if_pos finite⟩

/-- Whatever the deviation, it is applied to a number that has been drawn before. -/
theorem generator_of_normal {mean deviation : Float} {sample : Generator → Float × Generator}
    (given : source.normal mean deviation = .ok sample) (g : Generator) :
    (sample g).2 = g.normal.2 := by
  rw [source] at given
  dsimp only at given
  split at given
  · obtain rfl := Except.ok.inj given
    dsimp only
  · cases given

theorem source_steady : source.Steady :=
  fun given given' g => (generator_of_normal given g).trans (generator_of_normal given' g).symm

end Generator

namespace SyntheticImage

variable {ω γ : Type} {source : Source ω γ} {width height : Nat} {noise noise' : Float}
  {sample sample' : γ → Float × γ}

/-! ### Noise -/

/-- The generator after `count` numbers drawn by `sample`. -/
def skip (sample : γ → Float × γ) (count : Nat) (g : γ) : γ :=
  (fun g => (sample g).2)^[count] g

theorem skip_succ (sample : γ → Float × γ) (count : Nat) (g : γ) :
    skip sample (count + 1) g = skip sample count (sample g).2 :=
  Function.iterate_succ_apply ..

/-- One more pixel with noise, and one more number drawn. -/
def noisyPixel (sample : γ → Float × γ) (state : Array Float × γ) (value : Float) :
    Array Float × γ :=
  (state.1.push (value + (sample state.2).1), (sample state.2).2)

theorem foldl_noisyPixel (sample : γ → Float × γ) (values : List Float)
    (state : Array Float × γ) :
    (values.foldl (noisyPixel sample) state).1.size = state.1.size + values.length ∧
      (values.foldl (noisyPixel sample) state).2 = skip sample values.length state.2 := by
  induction values generalizing state with
  | nil => exact ⟨rfl, rfl⟩
  | cons value values ih =>
    obtain ⟨size, generator⟩ := ih (noisyPixel sample state value)
    rw [List.foldl_cons, size, generator, List.length_cons, skip_succ]
    refine ⟨?_, rfl⟩
    rw [noisyPixel, Array.size_push]
    omega

theorem addNoise_eq_foldl (sample : γ → Float × γ) (pixels : Array Float) (g : γ) :
    addNoise sample pixels g = pixels.toList.foldl (noisyPixel sample) (#[], g) := by
  rw [Array.foldl_toList]
  rfl

theorem size_addNoise (sample : γ → Float × γ) (pixels : Array Float) (g : γ) :
    (addNoise sample pixels g).1.size = pixels.size := by
  rw [addNoise_eq_foldl, (foldl_noisyPixel ..).1, Array.size_empty, Nat.zero_add,
    Array.length_toList]

/-- What the noise is added to does not show in the generator. -/
theorem addNoise_generator (sample : γ → Float × γ) (pixels : Array Float) (g : γ) :
    (addNoise sample pixels g).2 = skip sample pixels.size g := by
  rw [addNoise_eq_foldl, (foldl_noisyPixel ..).2, Array.length_toList]

/-! ### One image -/

/-- The generator after an image. -/
def afterImage (source : Source ω γ) (width height : Nat) (sample : γ → Float × γ) (g : γ) : γ :=
  skip sample (width * height) (drawSpot source width height g).2

theorem size_render (s : Spot Float) : (s.render width height).size = width * height :=
  Array.size_ofFn

theorem draw_truth (g : γ) :
    (draw source width height sample g).1.truth = (drawSpot source width height g).1 :=
  rfl

theorem size_draw (g : γ) :
    (draw source width height sample g).1.pixels.size = width * height :=
  (size_addNoise ..).trans (size_render _)

theorem draw_generator (g : γ) :
    (draw source width height sample g).2 = afterImage source width height sample g := by
  refine (addNoise_generator ..).trans ?_
  rw [size_render]
  rfl

/-- An image takes the generator as far at one level of noise as at another. -/
theorem afterImage_congr (same : ∀ g, (sample g).2 = (sample' g).2) :
    afterImage source width height sample = afterImage source width height sample' := by
  have step : (fun g => (sample g).2) = fun g => (sample' g).2 := funext same
  funext g
  rw [afterImage, afterImage, skip, skip, step]

/-! ### All images -/

/-- The generator that image `k` of a batch starts from. -/
def reached (source : Source ω γ) (width height : Nat) (sample : γ → Float × γ) (g : γ)
    (k : Nat) : γ :=
  (afterImage source width height sample)^[k] g

theorem reached_succ (sample : γ → Float × γ) (g : γ) (k : Nat) :
    reached source width height sample g (k + 1) =
      afterImage source width height sample (reached source width height sample g k) :=
  Function.iterate_succ_apply' ..

/-- Each image is drawn from the generator it starts from, and from nothing else. -/
theorem drawMany_eq (sample : γ → Float × γ) (count : Nat) (g : γ) :
    drawMany source width height sample count g =
      (.ofFn fun k : Fin count =>
          (draw source width height sample (reached source width height sample g k)).1,
        reached source width height sample g count) := by
  unfold drawMany
  induction count with
  | zero => rfl
  | succ count ih =>
    rw [Nat.fold_succ, ih, reached_succ, ← draw_generator, Array.ofFn_succ]
    dsimp only [Fin.val_castSucc, Fin.val_last]

/-- A level of noise that a batch can have: a number, as it compares with zero, and the deviation of
a normal distribution. -/
structure Admissible (source : Source ω γ) (noise : Float) : Prop where
  nonneg : 0 ≤ noise
  finite : noise.isInf = false
  normal : ∃ sample, source.normal 0 noise = .ok sample

theorem batch_eq (wide : 5 ≤ width) (high : 5 ≤ height) (nonneg : 0 ≤ noise)
    (finite : noise.isInf = false) (normal : source.normal 0 noise = .ok sample) (moment : ω)
    (count : Nat) (seed : UInt64) :
    batch source moment count width height noise seed =
      .ok (.ofFn fun k : Fin count => (draw source width height sample
        (reached source width height sample (source.ofSeed moment seed) k)).1) := by
  have large : ¬ (width < 5 ∨ height < 5) := by omega
  have sound : ¬ (¬ 0 ≤ noise ∨ noise.isInf = true) := by simp [nonneg, finite]
  rw [batch, if_neg large, if_neg sound, normal]
  dsimp only
  rw [drawMany_eq]

/-- The admissible levels are those at which a batch is not refused. -/
theorem exists_batch_iff (wide : 5 ≤ width) (high : 5 ≤ height) (moment : ω) (count : Nat)
    (seed : UInt64) : (∃ images, batch source moment count width height noise seed = .ok images) ↔
      Admissible source noise := by
  constructor
  · -- A batch that is drawn has passed the test of its level, and has a distribution to draw from.
    rintro ⟨images, made⟩
    rw [batch, if_neg (by omega)] at made
    split at made
    · cases made
    next sound =>
      rw [not_or, not_not, Bool.not_eq_true] at sound
      split at made
      · cases made
      next sample normal => exact ⟨sound.1, sound.2, sample, normal⟩
  · rintro ⟨nonneg, finite, sample, normal⟩
    exact ⟨_, batch_eq wide high nonneg finite normal moment count seed⟩

/-- From a source whose seeded generators are deterministic streams, and whose normally distributed
numbers consume the same draws at every level, a batch of images of sufficient size can always be
drawn at an admissible level of noise. It has as many images as asked for, each with all its pixels.
A batch of fewer images from the same seed consists of the first of them, and a batch at another
level shows the same spots, whenever they are drawn. -/
theorem batch_take (seeded : source.Seeded) (steady : source.Steady) (wide : 5 ≤ width)
    (high : 5 ≤ height) (level : Admissible source noise) (level' : Admissible source noise')
    {count count' : Nat} (le : count ≤ count') (seed : UInt64) (moment moment' later : ω) :
    ∃ images images' others,
      batch source moment count width height noise seed = .ok images ∧
      batch source moment' count' width height noise seed = .ok images' ∧
      batch source later count' width height noise' seed = .ok others ∧
      images'.size = count' ∧ (∀ image ∈ images', image.pixels.size = width * height) ∧
      images = images'.take count ∧ others.map truth = images'.map truth := by
  obtain ⟨nonneg, finite, sample, normal⟩ := level
  obtain ⟨nonneg', finite', sample', normal'⟩ := level'
  -- All three batches are known image by image, by the generator that the image starts from.
  refine ⟨_, _, _, batch_eq wide high nonneg finite normal moment count seed,
    batch_eq wide high nonneg finite normal moment' count' seed,
    batch_eq wide high nonneg' finite' normal' later count' seed,
    Array.size_ofFn, fun image member => ?_, ?_, ?_⟩
  · obtain ⟨k, rfl⟩ := Array.mem_ofFn.mp member
    exact size_draw _
  · -- That generator does not depend on how many images there are, nor on the moment.
    refine Array.ext (by simp [le]) fun k _ _ => ?_
    simp [seeded moment moment']
  · -- Nor does it depend on the level of the noise of the images before.
    have same := @afterImage_congr _ _ source width height _ _ (steady normal normal')
    refine Array.ext (by simp) fun k _ _ => ?_
    simp [draw_truth, reached, same, seeded moment' later]

/-- Two images with noise show the first two of three spots without noise. -/
theorem batch_take_noiseless :
    Generator.source.Seeded ∧ Generator.source.Steady ∧ Admissible Generator.source 0.5 ∧
      Admissible Generator.source 0 ∧ ∃ images others,
        batch Generator.source () 2 6 5 0.5 7 = .ok images ∧
        batch Generator.source () 3 6 5 0 7 = .ok others ∧
        images.map truth = (others.map truth).take 2 := by
  have seeded := Generator.source_seeded
  have steady : Generator.source.Steady := Generator.source_steady
  have level : Admissible Generator.source 0.5 :=
    ⟨by decide +kernel, by decide +kernel, Generator.exists_normal (by decide +kernel)⟩
  have level' : Admissible Generator.source 0 :=
    ⟨by decide +kernel, by decide +kernel, Generator.exists_normal (by decide +kernel)⟩
  obtain ⟨images, images', others, two, -, three, -, -, first, same⟩ :=
    batch_take seeded steady (by decide : 5 ≤ 6) (by decide : 5 ≤ 5) level level'
      (by decide : 2 ≤ 3) 7 () () ()
  refine ⟨seeded, steady, level, level', images, others, two, three, ?_⟩
  rw [first, same, Array.take_eq_extract, Array.take_eq_extract, Array.map_extract]

end SyntheticImage

end LeastSquares
