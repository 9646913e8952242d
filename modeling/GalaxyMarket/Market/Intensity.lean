import GalaxyMarket.Market.Ledger
import GalaxyMarket.Market.Network

/-!
# Intensities

How strongly each system pulls a commodity in. Every inhabited planet keeps a production and a
demand tracker per commodity. A pass draws one sample for each such planet, moves both trackers, and
weighs them by the square root of the population; the intensity of the system is

`powerBase ^ ((demand - production) / productionModifier)`.

Systems in demand become strong sources, systems that produce come close to zero, and a system
without an inhabited planet on the market has intensity zero.
-/

namespace GalaxyMarket

variable {α : Type} [Scalar α]

/-! ### Trackers -/

/-- A number that is finite and not negative: `x` itself, or zero. -/
def nonnegative (x : α) : α := if Scalar.isFinite x then Scalar.maxNum x 0 else 0

/-- A tracker after the time `dt`: it drifts by `rate * dt` and is then moved by the distance to the
sample, times `rate * dt`. -/
def track (rate dt tracker sample : α) : α :=
  let drifted := tracker + rate * dt
  nonnegative (drifted - rate * (sample - drifted) * dt)

/-- A quote after the time `dt`, for one sample. -/
def Quote.track (config : Config α) (dt : α) (sample : Sample α) (quote : Quote α) : Quote α :=
  { quote with
    supply :=
      GalaxyMarket.track config.productionVariability dt quote.supply (nonnegative sample.supply)
    demand :=
      GalaxyMarket.track config.demandVariability dt quote.demand (nonnegative sample.demand) }

/-! ### The pass over a system -/

/-- The market of one commodity in the middle of a pass: its source and the ledger. -/
structure Pass (α : Type) where
  source : Source α
  ledger : Ledger α

/-- Lets one planet's market move. A planet that is not inhabited, or has no quote, is passed over;
any other draws one sample. The new quote is returned. -/
def Pass.visit (config : Config α) (dt : α) (commodity : Nat) (pass : Pass α)
    (planet : PlanetKey × Planet) : Option (Quote α × Pass α) :=
  if planet.2.inhabited then
    (pass.ledger.get? planet.1 commodity).map fun quote =>
      let (sample, source) := pass.source.draw
      let quote := quote.track config dt sample
      (quote, { source, ledger := pass.ledger.modify planet.1 commodity fun _ => quote })
  else none

/-- Lets the markets of some planets move, in order. The new quotes are returned, each with the
population behind it. -/
def Pass.visitAll (config : Config α) (dt : α) (commodity : Nat) (pass : Pass α) :
    List (PlanetKey × Planet) → List (Nat × Quote α) × Pass α
  | [] => ([], pass)
  | planet :: planets =>
    match pass.visit config dt commodity planet with
    | some (quote, pass) =>
      let (quotes, pass) := pass.visitAll config dt commodity planets
      ((planet.2.population, quote) :: quotes, pass)
    | none => pass.visitAll config dt commodity planets

/-- Demand less production of some quotes, each weighted by the square root of a population. -/
def totalExcess (quotes : List (Nat × Quote α)) : α :=
  let weight (population : Nat) : α := Scalar.sqrt (Scalar.ofInt population)
  Scalar.sum (quotes.map fun (population, quote) => quote.demand * weight population) -
    Scalar.sum (quotes.map fun (population, quote) => quote.supply * weight population)

/-- The intensity that the quotes of a system's inhabited planets amount to. -/
def intensityOf (config : Config α) (quotes : List (Nat × Quote α)) : α :=
  match quotes.getLast? with
  | none => 0
  | some (_, last) =>
    let excess :=
      match config.aggregation with
      | .systemTotal => totalExcess quotes
      | .lastPlanet => last.demand - last.supply
    Scalar.pow config.powerBase (excess / config.productionModifier)

/-- Lets the markets of one system move and returns its intensity. -/
def Pass.system (config : Config α) (dt : α) (g : Galaxy α) (commodity : Nat) (pass : Pass α)
    (key : SystemKey) : α × Pass α :=
  let (quotes, pass) := pass.visitAll config dt commodity (g.planetsIn key)
  (intensityOf config quotes, pass)

/-- Lets the markets of some systems move, in order, and returns their intensities. -/
def Pass.systems (config : Config α) (dt : α) (g : Galaxy α) (commodity : Nat) (pass : Pass α) :
    List SystemKey → List α × Pass α
  | [] => ([], pass)
  | key :: keys =>
    let (intensity, pass) := pass.system config dt g commodity key
    let (intensities, pass) := pass.systems config dt g commodity keys
    (intensity :: intensities, pass)

end GalaxyMarket
