import GalaxyMarket.Credits
import GalaxyMarket.Market.Ledger
import GalaxyMarket.Market.Network

/-!
# From potentials to prices

The solved potentials of a commodity are rescaled to the interval from 0 to 1, the lowest to 0 and
the highest to 1; the price in a system is its multiplier times the base price of the commodity,
rounded to whole credits. Potentials that are all level, as measured by their size, give one half
everywhere.
-/

namespace GalaxyMarket

variable {α : Type} [Scalar α]

/-- The least and the greatest number of a list, as far as it holds numbers; the last of those that
are level. -/
def extent? : List α → Option (α × α)
  | [] => none
  | x :: xs =>
    if Scalar.isNumber x then
      some (xs.foldl (fun (lo, hi) x => (Scalar.minNum lo x, Scalar.maxNum hi x)) (x, x))
    else extent? xs

/-- Whether a range of numbers is not finite, or vanishes beside their size. -/
def isFlat (lo hi : α) : Bool :=
  let range := hi - lo
  let tolerance := 1e-12 * Scalar.maxNum (Scalar.abs hi) (Scalar.abs lo)
  !Scalar.isFinite range || Scalar.le range tolerance

/-- Multipliers, and the least and the greatest of them. -/
structure Multipliers (α : Type) where
  least : α
  greatest : α
  values : List α
  deriving Repr

/-- One half for each of some potentials. -/
def Multipliers.flat (potentials : List α) : Multipliers α :=
  { least := 0.5, greatest := 0.5, values := potentials.map fun _ => 0.5 }

/-- Rescales potentials to the interval from 0 to 1. There is nothing to rescale in an empty list.
-/
def normalize? (potentials : List α) : Option (Multipliers α) :=
  if potentials.isEmpty then none
  else
    match extent? potentials with
    | none => some (.flat potentials)
    | some (lo, hi) =>
      if isFlat lo hi then some (.flat potentials)
      else some
        { least := 0, greatest := 1
          values := potentials.map fun x => Scalar.clamp 0 1 ((x - lo) / (hi - lo)) }

/-- A multiple of a base price, in whole credits. -/
def scaledPrice (basePrice : Int) (multiplier : α) : Int :=
  Credits.ofInt (Scalar.wholeProduct basePrice multiplier)

/-- Sets the price of a commodity on the planets of one system. -/
def Ledger.priceSystem (g : Galaxy α) (commodity : Nat) (price : Int) (ledger : Ledger α)
    (key : SystemKey) : Ledger α :=
  (g.planetsIn key).foldl (fun ledger (planet, _) =>
    ledger.modify planet commodity fun quote => { quote with price }) ledger

/-- Sets the price of a commodity on all planets of the numbered systems, by the multipliers of the
systems. -/
def Ledger.writePrices (g : Galaxy α) (index : SystemIndex) (commodity : Nat) (basePrice : Int)
    (multipliers : List α) (ledger : Ledger α) : Ledger α :=
  (index.keys.zip multipliers).foldl (fun ledger (key, multiplier) =>
    ledger.priceSystem g commodity (scaledPrice basePrice multiplier) key) ledger

end GalaxyMarket
