/-!
# Where random numbers come from

Random numbers are drawn from a source of which nothing is known but what it can be asked for: a
generator for a seed, a number from a range, a normal distribution to draw from. What else it is
relied on to do is said by name.
-/
namespace LeastSquares

/-- A source of random numbers whose generators have the states `γ`. A value of `ω` is all that a
generator may depend on beside its seed: the moment, the machine, what else is running there. -/
structure Source (ω γ : Type) where
  ofSeed (moment : ω) (seed : UInt64) : γ
  /-- A number from `low` up to but not including `high`. -/
  uniform (low high : Float) (g : γ) : Float × γ
  /-- How to draw from the normal distribution of this mean and standard deviation, or the reason
  why there is no such distribution. -/
  normal (mean deviation : Float) : Except String (γ → Float × γ)

namespace Source

variable {ω γ : Type}

/-- A seeded generator is a deterministic stream: it depends on its seed and on nothing else. -/
def Seeded (source : Source ω γ) : Prop :=
  ∀ moment moment' seed, source.ofSeed moment seed = source.ofSeed moment' seed

/-- Normally distributed numbers of one mean consume the same draws whatever their standard
deviation. -/
def Steady (source : Source ω γ) : Prop :=
  ∀ {mean deviation deviation' : Float} {sample sample' : γ → Float × γ},
    source.normal mean deviation = .ok sample → source.normal mean deviation' = .ok sample' →
      ∀ g, (sample g).2 = (sample' g).2

end Source

end LeastSquares
