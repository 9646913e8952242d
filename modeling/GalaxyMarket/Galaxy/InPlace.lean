import GalaxyMarket.Galaxy.Basic

/-!
# Editing a galaxy in place

The edits that may be refused, as they are carried out on a galaxy that others go on using: look-ups
and changes one after the other, each change made at once. What stands for this is the order of the
steps. Nothing is undone when an edit is refused, so that a change in front of a refusal would be
seen.

Adding a jump looks for the first one to its target and changes the marks of that one alone. As no
system ever has two jumps to the same target, this is what `Galaxy.withJump` does.
-/

namespace GalaxyMarket

/-- An edit that is carried out step by step. Where it is refused, what it has changed stays
changed. -/
abbrev Editing (α : Type) := EStateM GalaxyError (Galaxy α)

/-- The jumps with the marks of `jump` on the first one to the same target, if there is one. -/
def remark? (jump : Jump) : List Jump → Option (List Jump)
  | [] => none
  | old :: jumps =>
    if old.target == jump.target then
      some ({ old with exitOnly := jump.exitOnly, hidden := jump.hidden } :: jumps)
    else (remark? jump jumps).map (old :: ·)

namespace Editing

variable {α : Type}

/-- Refuses an edit if a system does not exist. -/
def require (key : SystemKey) : Editing α Unit := do
  if !(← get).systems.contains key then throw (.systemNotFound key)

/-- Changes a system, if there is one. -/
def change (key : SystemKey) (f : System α → System α) : Editing α Unit :=
  modify fun ⟨systems, planets, diplomacy⟩ =>
    { systems := systems.modify key f, planets, diplomacy }

/-- Gives a system to a faction, or to none. -/
def setFaction (key : SystemKey) (faction? : Option Nat) : Editing α Unit := do
  require key
  change key fun system => { system with faction? }

/-- Sets the nebula around a system. -/
def setNebula (key : SystemKey) (nebula : Nebula α) : Editing α Unit := do
  require key
  change key fun system => { system with nebula }

/-- Puts a planet into the store, which hands out its key. -/
def store (planet : Planet) : Editing α PlanetKey :=
  modifyGet fun ⟨systems, planets, diplomacy⟩ =>
    let (key, planets) := planets.insert planet
    (key, { systems, planets, diplomacy })

/-- Adds a planet to a system. It is stored first and then listed. -/
def addPlanet (system : SystemKey) (planet : Planet) : Editing α PlanetKey := do
  require system
  let key ← store { planet with system }
  change system fun s => { s with planets := s.planets ++ [key] }
  return key

/-- Adds a jump, or marks the one to the same target anew. The target is looked up first. -/
def addJump (origin : SystemKey) (jump : Jump) : Editing α Unit := do
  require jump.target
  require origin
  change origin fun system =>
    { system with jumps := (remark? jump system.jumps).getD (system.jumps ++ [jump]) }

/-- Adds plain jumps in both directions, one after the other. -/
def connect (a b : SystemKey) : Editing α Unit := do
  addJump a { target := b }
  addJump b { target := a }

end Editing

end GalaxyMarket
