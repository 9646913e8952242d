import GalaxyMarket.Slots

/-!
# Maps from keys

What is remembered of the values of a store without being part of them, such as their number or a
row of quotes. Of the keys that a slot has had at most one is in a map: putting in another one
drives it out, and neither is ever mistaken for the other.
-/

namespace GalaxyMarket

/-- A map from the keys of a store, at most one for each slot. -/
structure KeyMap (kind : Kind) (β : Type) where
  /-- By slot, the version of the key that is in the map, and its value. -/
  cells : Array (Option (Nat × β)) := #[]
  deriving DecidableEq, Repr

namespace KeyMap

variable {kind : Kind} {β : Type}

instance : Inhabited (KeyMap kind β) := ⟨{}⟩

/-- The value of a key. -/
def get? (m : KeyMap kind β) (key : Key kind) : Option β :=
  match m.cells[key.slot]?.join with
  | some (version, value) => if version == key.version then some value else none
  | none => none

/-- Whether a key is in the map. -/
def contains (m : KeyMap kind β) (key : Key kind) : Bool := (m.get? key).isSome

/-- Gives a value to a key. -/
def insert (m : KeyMap kind β) (key : Key kind) (value : β) : KeyMap kind β :=
  ⟨(m.cells.rightpad (key.slot + 1) none).setIfInBounds key.slot (some (key.version, value))⟩

/-- Changes the value of a key, if it has one. -/
def modify (m : KeyMap kind β) (key : Key kind) (f : β → β) : KeyMap kind β :=
  ⟨m.cells.modify key.slot fun cell => cell.map fun (version, value) =>
    (version, if version == key.version then f value else value)⟩

/-- Takes out the keys that fail a test. -/
def retain (m : KeyMap kind β) (keep : Key kind → Bool) : KeyMap kind β :=
  ⟨m.cells.mapIdx fun slot cell => cell.filter fun (version, _) => keep ⟨slot, version⟩⟩

/-- The map of some keys and their values. -/
def ofList (entries : List (Key kind × β)) : KeyMap kind β :=
  entries.foldl (fun m (key, value) => m.insert key value) {}

/-- The keys in the map and their values, by ascending slot. -/
def toList (m : KeyMap kind β) : List (Key kind × β) :=
  m.cells.toList.zipIdx.filterMap fun (cell, i) =>
    cell.map fun (version, value) => (⟨i, version⟩, value)

/-- The number of keys in the map. -/
def size (m : KeyMap kind β) : Nat := m.toList.length

end KeyMap

end GalaxyMarket
