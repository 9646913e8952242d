import GalaxyMarket.Market.Network

/-!
# The roll of the systems

The numbers of the systems in the form in which they are given out: the systems of a galaxy are gone
through once, and each is entered in a list and in a map at the same time. Its number is the count
of those in front of it. Nothing but the pass keeps list and map in step, and nothing keeps the
systems that it comes across from driving each other out of the map.
-/

namespace GalaxyMarket

/-- The systems that were numbered so far. -/
structure Roll where
  order : Array SystemKey := #[]
  /-- The number of each system. -/
  positions : KeyMap .system Nat := {}
  deriving Repr

namespace Roll

/-- Gives the next number to a system. -/
def enter (roll : Roll) (key : SystemKey) : Roll :=
  let ⟨order, positions⟩ := roll
  let positions := positions.insert key order.size
  { order := order.push key, positions }

/-- Goes through the systems of a galaxy. -/
def ofGalaxy {α : Type} (g : Galaxy α) : Roll :=
  g.systems.toList.foldl (fun roll (key, _) => roll.enter key) {}

/-- The index of the systems that were numbered. -/
def index (roll : Roll) : SystemIndex :=
  { keys := roll.order.toList, positions := roll.positions }

end Roll

end GalaxyMarket
