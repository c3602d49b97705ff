/-!
# A stream of random words

The twelve-round ChaCha stream, keyed from a single number, and the numbers drawn from it. A
generator is a value: drawing returns it moved on, so the same seed always gives the same draws.
-/
namespace LeastSquares

/-- A position in the stream of a key. -/
structure Generator where
  key : Vector UInt32 8
  counter : UInt64
  pending : List UInt32

namespace ChaCha

def constants : Vector UInt32 4 := #v[0x61707865, 0x3320646e, 0x79622d32, 0x6b206574]

def rotateLeft (x : UInt32) (n : UInt32) : UInt32 :=
  (x <<< n) ||| (x >>> (32 - n))

def quarterRound (s : Vector UInt32 16) (a b c d : Fin 16) : Vector UInt32 16 :=
  let s := s.set a (s[a] + s[b])
  let s := s.set d (rotateLeft (s[d] ^^^ s[a]) 16)
  let s := s.set c (s[c] + s[d])
  let s := s.set b (rotateLeft (s[b] ^^^ s[c]) 12)
  let s := s.set a (s[a] + s[b])
  let s := s.set d (rotateLeft (s[d] ^^^ s[a]) 8)
  let s := s.set c (s[c] + s[d])
  s.set b (rotateLeft (s[b] ^^^ s[c]) 7)

/-- A round down the columns and one along the diagonals. -/
def doubleRound (s : Vector UInt32 16) : Vector UInt32 16 :=
  let s := quarterRound s 0 4 8 12
  let s := quarterRound s 1 5 9 13
  let s := quarterRound s 2 6 10 14
  let s := quarterRound s 3 7 11 15
  let s := quarterRound s 0 5 10 15
  let s := quarterRound s 1 6 11 12
  let s := quarterRound s 2 7 8 13
  quarterRound s 3 4 9 14

def block (key : Vector UInt32 8) (counter : UInt64) : Vector UInt32 16 :=
  let start : Vector UInt32 16 :=
    constants ++ key ++ #v[counter.toUInt32, (counter >>> 32).toUInt32, 0, 0]
  let mixed := Nat.repeat doubleRound 6 start
  Vector.zipWith (· + ·) mixed start

end ChaCha

namespace Generator

/-- The state of the congruential sequence a key is drawn from. -/
def advanceSeed (s : UInt64) : UInt64 :=
  s * 6364136223846793005 + 11634580027462260723

def keyWord (s : UInt64) : UInt32 :=
  let x := (((s >>> 18) ^^^ s) >>> 27).toUInt32
  let n := (s >>> 59).toUInt32
  (x >>> n) ||| (x <<< ((32 - n) % 32))

def ofSeed (seed : UInt64) : Generator where
  key := Vector.ofFn fun i => keyWord (Nat.repeat advanceSeed (i + 1) seed)
  counter := 0
  pending := []

/-- The next 64 bits: two words of the stream, the low half first. -/
def next (g : Generator) : UInt64 × Generator :=
  match g.pending with
  | low :: high :: rest => (low.toUInt64 ||| (high.toUInt64 <<< 32), { g with pending := rest })
  | _ =>
    let words := ChaCha.block g.key g.counter
    (words[0].toUInt64 ||| (words[1].toUInt64 <<< 32),
      { g with counter := g.counter + 1, pending := words.toList.drop 2 })

/-- The double of the given binary exponent whose fraction is the upper bits of a draw. -/
def withExponent (e : UInt64) (draw : UInt64) : Float :=
  Float.ofBits (((1023 + e) <<< 52) ||| (draw >>> 12))

/-- A number between zero and one, both excluded. -/
def openUnit (g : Generator) : Float × Generator :=
  let (draw, g) := g.next
  -- Half a unit of the last place away from zero.
  (withExponent 0 draw - (1.0 - 1.1102230246251565e-16), g)

/-- How often a draw that has to be rejected is repeated. Rejections are so rare that no stream
comes near this bound. -/
def patience : Nat := 1000

/-- A number from `low` up to but not including `high`, with a bound on the repetitions that
rounding up to `high` may cause. -/
def uniformWithin (low high : Float) : Nat → Generator → Float × Generator
  | 0, g => (low, g)
  | more + 1, g =>
    let (draw, g) := g.next
    let x := (withExponent 0 draw - 1.0) * (high - low) + low
    -- Rounding may reach the end that is excluded.
    if x < high then (x, g) else uniformWithin low high more g

def uniform (low high : Float) (g : Generator) : Float × Generator :=
  uniformWithin low high patience g

end Generator

end LeastSquares
