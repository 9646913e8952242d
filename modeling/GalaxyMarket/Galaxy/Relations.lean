import GalaxyMarket.Galaxy.Diplomacy

/-!
# Allies and enemies as two sets

The standings of factions in the form in which they are kept while they change: a set of the pairs
that are allied and a set of the pairs that are hostile. Every call edits both sets, one after the
other. Nothing but the calls keeps a pair from being in both, or a set from holding a pair twice.
-/

namespace GalaxyMarket

/-- The pairs of factions that are allied, and those that are hostile. -/
structure Relations where
  allied : List (Nat × Nat) := []
  hostile : List (Nat × Nat) := []
  deriving Repr

namespace Relations

/-- Makes allies of two factions, which are no enemies from then on. -/
def setAllies (r : Relations) (a b : Nat) : Relations :=
  let key := Diplomacy.pair a b
  let hostile := r.hostile.erase key
  { allied := r.allied.insert key, hostile }

/-- Makes enemies of two factions, which are no allies from then on. -/
def setEnemies (r : Relations) (a b : Nat) : Relations :=
  let key := Diplomacy.pair a b
  let allied := r.allied.erase key
  { allied, hostile := r.hostile.insert key }

/-- Makes two factions neutral. -/
def clear (r : Relations) (a b : Nat) : Relations :=
  let key := Diplomacy.pair a b
  { allied := r.allied.erase key, hostile := r.hostile.erase key }

/-- Sets the standing of two factions. -/
def declare (r : Relations) (a b : Nat) : Standing → Relations
  | .allied => r.setAllies a b
  | .hostile => r.setEnemies a b
  | .neutral => r.clear a b

/-- Whether two factions are allies. A faction is its own ally. -/
def allies (r : Relations) (a b : Nat) : Bool :=
  a == b || r.allied.contains (Diplomacy.pair a b)

/-- Whether two factions are enemies. -/
def enemies (r : Relations) (a b : Nat) : Bool :=
  a != b && r.hostile.contains (Diplomacy.pair a b)

end Relations

end GalaxyMarket
