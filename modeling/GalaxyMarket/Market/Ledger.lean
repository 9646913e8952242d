import GalaxyMarket.Commodity.Catalog
import GalaxyMarket.Galaxy.Basic
import GalaxyMarket.KeyMap

/-!
# The market ledger

What the market remembers of each planet: for every commodity a production tracker, a demand tracker
and a price. A ledger has a row for each planet that it knows, by ascending slot, and every row is
as wide as the catalog.

Synchronising brings the rows in line with the planets of a galaxy, in place: rows of planets that
are gone are taken out, then the planets are gone through, and those without a row get one at base
prices. All other rows stay. The slot of a planet that is new may still hold the row of a planet
that is gone, and a row that is put in drives out what its slot holds, so that it matters that the
old rows are taken out first.
-/

namespace GalaxyMarket

/-- The state of one commodity on one planet's market. -/
structure Quote (α : Type) where
  /-- The production tracker. -/
  supply : α
  /-- The demand tracker. -/
  demand : α
  price : Int
  deriving Repr

/-- How many rows a synchronisation put in and took out. -/
structure SyncReport where
  added : Nat
  removed : Nat
  deriving DecidableEq, Repr

/-- The quotes of all planets. -/
structure Ledger (α : Type) where
  /-- The quotes of each planet, by commodity. -/
  rows : KeyMap .planet (List (Quote α)) := {}
  /-- The prices that a new row starts with. -/
  basePrices : List Int := []
  deriving Repr

namespace Ledger

variable {α : Type}

instance : Inhabited (Ledger α) := ⟨{}⟩

/-- The row of a planet. -/
def row? (ledger : Ledger α) (planet : PlanetKey) : Option (List (Quote α)) :=
  ledger.rows.get? planet

/-- The quote of a commodity on a planet. -/
def get? (ledger : Ledger α) (planet : PlanetKey) (commodity : Nat) : Option (Quote α) :=
  (ledger.row? planet).bind (·[commodity]?)

/-- Whether a planet has a row. -/
def contains (ledger : Ledger α) (planet : PlanetKey) : Bool := (ledger.row? planet).isSome

/-- The number of rows. -/
def size (ledger : Ledger α) : Nat := ledger.rows.size

/-- The number of commodities in a row. -/
def width (ledger : Ledger α) : Nat := ledger.basePrices.length

/-- Changes the quote of a commodity on a planet, if there is one. -/
def modify (ledger : Ledger α) (planet : PlanetKey) (commodity : Nat) (f : Quote α → Quote α) :
    Ledger α :=
  let ⟨rows, basePrices⟩ := ledger
  { rows := rows.modify planet (·.modify commodity f), basePrices }

variable [Scalar α]

/-- The row of a planet that is new to the market: nothing tracked yet, everything at base price. -/
def freshRow (ledger : Ledger α) : List (Quote α) :=
  ledger.basePrices.map fun price => { supply := 0, demand := 0, price }

/-- Takes out the rows of planets that a galaxy does not have. -/
def retain (ledger : Ledger α) (g : Galaxy α) : Ledger α :=
  { ledger with rows := ledger.rows.retain g.planets.contains }

/-- Gives a planet a fresh row if it has none, and counts it if it gets one. -/
def enroll : Ledger α × Nat → PlanetKey → Ledger α × Nat
  | (ledger, added), planet =>
    if ledger.contains planet then (ledger, added)
    else
      let row := ledger.freshRow
      let ⟨rows, basePrices⟩ := ledger
      ({ rows := rows.insert planet row, basePrices }, added + 1)

/-- Brings the rows in line with the planets of a galaxy, and says how many came and went. What went
is seen from the size before and after, what came is counted one by one. -/
def reconcile (ledger : Ledger α) (g : Galaxy α) : Ledger α × SyncReport :=
  let before := ledger.size
  let ledger := ledger.retain g
  let removed := before - ledger.size
  let (ledger, added) := g.planets.keys.foldl enroll (ledger, 0)
  (ledger, { added, removed })

/-- Brings the rows in line with the planets of a galaxy. -/
def sync (ledger : Ledger α) (g : Galaxy α) : Ledger α := (ledger.reconcile g).1

/-- A ledger with a fresh row for each planet of a galaxy. -/
def ofGalaxy (g : Galaxy α) (catalog : Catalog α) : Ledger α :=
  sync { basePrices := catalog.basePrices } g

end Ledger

end GalaxyMarket
