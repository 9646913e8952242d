import GalaxyMarket.Market.Ledger

/-!
# Price statistics

Mean and spread of the price of a commodity over the planets whose markets list it.
-/

namespace GalaxyMarket

/-- Mean and standard deviation of some prices, taken as the whole population. -/
structure PriceSummary (α : Type) where
  mean : α
  deviation : α
  samples : Nat
  deriving Repr

namespace PriceSummary

variable {α : Type} [Scalar α]

/-- The summary of some prices; there is none of no prices. -/
def ofPrices? (prices : List Int) : Option (PriceSummary α) :=
  if prices.isEmpty then none
  else
    let xs : List α := prices.map Scalar.ofInt
    let n : α := Scalar.ofInt prices.length
    let mean := Scalar.sum xs / n
    let variance := Scalar.sum (xs.map fun x => (x - mean) * (x - mean)) / n
    some { mean, deviation := Scalar.sqrt variance, samples := prices.length }

/-- The prices of a commodity on the planets whose markets list it, by ascending slot. -/
def pricesOf (g : Galaxy α) (ledger : Ledger α) (commodity : Nat) : List Int :=
  g.planets.toList.filterMap fun (key, planet) =>
    if planet.trades commodity then (ledger.get? key commodity).map Quote.price else none

/-- The summary of the price of a commodity. -/
def ofGalaxy? (g : Galaxy α) (ledger : Ledger α) (commodity : Nat) : Option (PriceSummary α) :=
  ofPrices? (pricesOf g ledger commodity)

end PriceSummary

end GalaxyMarket
