import GalaxyMarket.Number.Scalar

/-!
# Pseudo-random numbers

The SplitMix64 generator: a counter that advances by an odd constant, and a mixing function on 64
bit words that turns each counter value into an output. Two streams with one seed draw the same
numbers.

Each draw returns its number together with the stream that follows.
-/

namespace GalaxyMarket

/-- A stream of pseudo-random numbers: the counter of a SplitMix64 generator. -/
structure Stream where
  state : UInt64
  deriving DecidableEq, Repr

namespace Stream

variable {α : Type} [Scalar α]

/-- The stream that starts from `seed`. -/
def ofSeed (seed : UInt64) : Stream := ⟨seed⟩

/-- The step of the counter, the odd number nearest to `2 ^ 64` over the golden ratio. -/
def increment : UInt64 := 0x9E3779B97F4A7C15

/-- Scrambles a counter value. Each of the three lines can be undone. -/
def mix (word : UInt64) : UInt64 :=
  let word := (word ^^^ (word >>> 30)) * 0xBF58476D1CE4E5B9
  let word := (word ^^^ (word >>> 27)) * 0x94D049BB133111EB
  word ^^^ (word >>> 31)

/-- A word of 64 bits. -/
def word (s : Stream) : UInt64 × Stream :=
  let state := s.state + increment
  (mix state, ⟨state⟩)

/-- A number from 0 up to but not including 1: the upper 53 bits of a word, divided by `2 ^ 53`. -/
def unit (s : Stream) : α × Stream :=
  let (w, s) := s.word
  (Scalar.ofInt (w >>> 11).toNat * (1 / Scalar.ofInt 9007199254740992), s)

/-- A number from -1 up to but not including 1. -/
def signed (s : Stream) : α × Stream :=
  let (u, s) : α × Stream := s.unit
  (u * Scalar.ofInt 2 - 1, s)

/-- The next `n` unit draws, in order. -/
def units : Nat → Stream → List α × Stream
  | 0, s => ([], s)
  | n + 1, s =>
    let (u, s) : α × Stream := s.unit
    let (us, s) : List α × Stream := units n s
    (u :: us, s)

/-- A nearly normal number of mean 0 and variance 1, from -6 to 6: twelve unit draws, less six. -/
def gaussian (s : Stream) : α × Stream :=
  let (us, s) : List α × Stream := s.units 12
  (Scalar.sum us - Scalar.ofInt 6, s)

end Stream

end GalaxyMarket
