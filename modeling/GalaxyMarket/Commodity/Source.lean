import GalaxyMarket.Random

/-!
# Sources of supply and demand

A source is asked for a raw supply and demand each time an inhabited planet's market moves. It may
change with every question, so that a draw returns the sample together with the source that is left.
-/

namespace GalaxyMarket

/-- A raw supply and demand. Both may be negative or not finite; the market cuts them. -/
structure Sample (α : Type) where
  supply : α
  demand : α
  deriving Repr

/-- Where samples come from. -/
inductive Source (α : Type) where
  /-- The same sample each time. -/
  | constant (sample : Sample α)
  /-- Samples that scatter about a base, `base * (1 + jitter * g)` with `g` nearly normal. -/
  | jittered (base : Sample α) (jitter : α) (stream : Stream)
  /-- Any sequence of samples, of which `drawn` have been drawn. -/
  | feed (samples : Nat → Sample α) (drawn : Nat)

namespace Source

variable {α : Type} [Scalar α]

/-- A source that scatters about a base, by the random numbers of a seed. -/
def ofSeed (base : Sample α) (jitter : α) (seed : UInt64) : Source α :=
  .jittered base jitter (.ofSeed seed)

/-- A source that goes through a list of samples and starts over after the last one. An empty list
gives zeros. -/
def cycle (samples : List (Sample α)) : Source α :=
  .feed (fun i => samples[i % samples.length]?.getD ⟨0, 0⟩) 0

/-- One number scattered about `base`. -/
def scatter (base jitter : α) (stream : Stream) : α × Stream :=
  let (g, stream) : α × Stream := stream.gaussian
  (base * (1 + jitter * g), stream)

/-- The next sample; supply is drawn before demand. -/
def draw : Source α → Sample α × Source α
  | constant sample => (sample, constant sample)
  | jittered base jitter stream =>
    let (supply, stream) := scatter base.supply jitter stream
    let (demand, stream) := scatter base.demand jitter stream
    (⟨supply, demand⟩, jittered base jitter stream)
  | feed samples drawn => (samples drawn, feed samples (drawn + 1))

/-- The next `n` samples. -/
def drawMany : Nat → Source α → List (Sample α) × Source α
  | 0, source => ([], source)
  | n + 1, source =>
    let (sample, source) := source.draw
    let (samples, source) := drawMany n source
    (sample :: samples, source)

end Source

end GalaxyMarket
