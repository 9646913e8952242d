/-!
# Slots

A store that hands out keys. A key names a slot and the version that the slot had when the value was
put in; taking the value out raises the version, and so does putting the next one in. A key
therefore never comes back to life: once its value is gone, every look-up with it fails, also when
the slot has been given to another value.

Slots that became free are used again, the latest first, before a new slot is opened. Versions are
odd while a slot is filled and even while it is free; a slot starts with version 1.
-/

namespace GalaxyMarket

/-- What a key is a key of. -/
inductive Kind where
  | system
  | planet
  deriving DecidableEq, Repr

/-- A reference to a stored value: a slot and the version under which it was filled. -/
structure Key (kind : Kind) where
  slot : Nat
  version : Nat
  deriving DecidableEq, Repr

abbrev SystemKey := Key .system

abbrev PlanetKey := Key .planet

namespace Key

variable {kind : Kind}

/-- The key of nothing. No slot ever has version 0. -/
def null : Key kind := ⟨0, 0⟩

instance : Inhabited (Key kind) := ⟨null⟩

/-- A key as a slot number, counted from 1, and a version. -/
def text (key : Key kind) : String :=
  if key.version == 0 then "null" else s!"{key.slot + 1}v{key.version}"

end Key

/-- A place for a value, with the version that its key has to have. -/
structure Slot (β : Type) where
  version : Nat
  value? : Option β
  deriving Repr

/-- A store of values under keys that are never used twice. -/
structure Slots (kind : Kind) (β : Type) where
  slots : Array (Slot β) := #[]
  /-- The free slots, the one to be used next in front. -/
  free : List Nat := []
  deriving Repr

namespace Slots

variable {kind : Kind} {β : Type}

instance : Inhabited (Slots kind β) := ⟨{}⟩

/-- The value under a key. -/
def get? (s : Slots kind β) (key : Key kind) : Option β :=
  match s.slots[key.slot]? with
  | some slot => if slot.version == key.version then slot.value? else none
  | none => none

/-- Whether there is a value under a key. -/
def contains (s : Slots kind β) (key : Key kind) : Bool := (s.get? key).isSome

/-- Puts a value into the slot that became free last, or into a new one. -/
def insert (s : Slots kind β) (value : β) : Key kind × Slots kind β :=
  match s with
  | ⟨slots, []⟩ => (⟨slots.size, 1⟩, { slots := slots.push ⟨1, some value⟩ })
  | ⟨slots, i :: free⟩ =>
    let version := (slots[i]?.elim 0 Slot.version) + 1
    (⟨i, version⟩, { slots := slots.setIfInBounds i ⟨version, some value⟩, free })

/-- Takes the value under a key out. -/
def erase (s : Slots kind β) (key : Key kind) : Slots kind β :=
  if s.contains key then
    let ⟨slots, free⟩ := s
    { slots := slots.setIfInBounds key.slot ⟨key.version + 1, none⟩, free := key.slot :: free }
  else s

/-- Changes the value under a key, if there is one. -/
def modify (s : Slots kind β) (key : Key kind) (f : β → β) : Slots kind β :=
  match s.get? key with
  | some value =>
    let ⟨slots, free⟩ := s
    { slots := slots.setIfInBounds key.slot ⟨key.version, some (f value)⟩, free }
  | none => s

/-- Changes every value. -/
def map (s : Slots kind β) (f : β → β) : Slots kind β :=
  { s with slots := s.slots.map fun slot => { slot with value? := slot.value?.map f } }

/-- The keys and values, by ascending slot. -/
def toList (s : Slots kind β) : List (Key kind × β) :=
  s.slots.toList.zipIdx.filterMap fun (slot, i) => slot.value?.map (⟨i, slot.version⟩, ·)

/-- The keys in use, by ascending slot. -/
def keys (s : Slots kind β) : List (Key kind) := s.toList.map Prod.fst

/-- The number of values. -/
def size (s : Slots kind β) : Nat := s.toList.length

end Slots

end GalaxyMarket
