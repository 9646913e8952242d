import GalaxyMarket.Galaxy.Diplomacy
import GalaxyMarket.Number.Scalar
import GalaxyMarket.Slots

/-!
# The galaxy

Star systems, the planets that orbit them, the jumps between systems and the standings of factions.
Prices are not part of it: the market reads nebulae, factions, jumps and populations and keeps its
own books.

A system lists its jumps and its planets in the order in which they were added; a planet names its
system. The edits below keep the two sides in step: removing a system takes its planets and all
jumps to it along, removing a planet strikes it from its system's list, and an edit that names a
system which does not exist is refused and changes nothing.
-/

namespace GalaxyMarket

/-- Density and volatility of the nebula around a system, both zero in clear space. -/
structure Nebula (α : Type) where
  density : α
  volatility : α
  deriving Repr

/-- A one-way route to another system. -/
structure Jump where
  target : SystemKey
  /-- The jump can only be used to leave. -/
  exitOnly : Bool := false
  /-- The jump is on no map until it is found. -/
  hidden : Bool := false
  deriving DecidableEq, Repr

/-- A star system. -/
structure System (α : Type) where
  name : String
  nebula : Nebula α
  /-- The controlling faction; none in unclaimed space. -/
  faction? : Option Nat := none
  jumps : List Jump := []
  planets : List PlanetKey := []
  deriving Repr

/-- Whether a jump leads from a system to another. -/
def System.jumpsTo {α : Type} (system : System α) (key : SystemKey) : Bool :=
  system.jumps.any (·.target == key)

/-- A planet. Only inhabited planets produce and demand. -/
structure Planet where
  name : String
  population : Nat
  inhabited : Bool := 0 < population
  /-- The commodities on its market, by their place in the catalog. -/
  commodities : List Nat := []
  /-- The system it orbits. -/
  system : SystemKey := .null
  deriving Repr

/-- Whether a planet's market lists a commodity. -/
def Planet.trades (planet : Planet) (commodity : Nat) : Bool :=
  planet.commodities.contains commodity

/-- Systems, planets and standings. -/
structure Galaxy (α : Type) where
  systems : Slots .system (System α) := {}
  planets : Slots .planet Planet := {}
  diplomacy : Diplomacy := {}
  deriving Repr

/-- Why an edit was refused. -/
inductive GalaxyError where
  | systemNotFound (key : SystemKey)
  deriving DecidableEq, Repr

/-- The wording of a refusal. -/
def GalaxyError.message : GalaxyError → String
  | systemNotFound key => s!"system not found: SystemId({key.text})"

namespace Galaxy

variable {α : Type}

instance : Inhabited (Galaxy α) := ⟨{}⟩

/-! ### Looking things up -/

/-- The system under a key. -/
def system? (g : Galaxy α) (key : SystemKey) : Option (System α) := g.systems.get? key

/-- The planet under a key. -/
def planet? (g : Galaxy α) (key : PlanetKey) : Option Planet := g.planets.get? key

/-- The planets of a system, in the order in which they were added. -/
def planetsIn (g : Galaxy α) (key : SystemKey) : List (PlanetKey × Planet) :=
  (g.system? key).elim [] fun system =>
    system.planets.filterMap fun planet => (g.planet? planet).map (planet, ·)

/-! ### Systems -/

/-- Adds a system, without jumps and planets. -/
def addSystem (g : Galaxy α) (system : System α) : SystemKey × Galaxy α :=
  let ⟨systems, planets, diplomacy⟩ := g
  let (key, systems) := systems.insert { system with jumps := [], planets := [] }
  (key, { systems, planets, diplomacy })

/-- Removes a system, its planets and every jump that leads to it. -/
def removeSystem (g : Galaxy α) (key : SystemKey) : Galaxy α :=
  match g.system? key with
  | some system =>
    { g with
      -- The jumps from the system go with it, those to it are struck everywhere else.
      systems := (g.systems.erase key).map fun other =>
        { other with jumps := other.jumps.filter fun jump => jump.target != key }
      planets := system.planets.foldl Slots.erase g.planets }
  | none => g

/-- Changes a system that has to exist. -/
def updateSystem (g : Galaxy α) (key : SystemKey) (f : System α → System α) :
    Except GalaxyError (Galaxy α) :=
  if g.systems.contains key then
    let ⟨systems, planets, diplomacy⟩ := g
    .ok { systems := systems.modify key f, planets, diplomacy }
  else .error (.systemNotFound key)

/-- Gives a system to a faction, or to none. -/
def setFaction (g : Galaxy α) (key : SystemKey) (faction? : Option Nat) :
    Except GalaxyError (Galaxy α) :=
  g.updateSystem key fun system => { system with faction? }

/-- Sets the nebula around a system. -/
def setNebula (g : Galaxy α) (key : SystemKey) (nebula : Nebula α) :
    Except GalaxyError (Galaxy α) :=
  g.updateSystem key fun system => { system with nebula }

/-! ### Planets -/

/-- Adds a planet to a system. -/
def addPlanet (g : Galaxy α) (system : SystemKey) (planet : Planet) :
    Except GalaxyError (PlanetKey × Galaxy α) :=
  if g.systems.contains system then
    let ⟨systems, planets, diplomacy⟩ := g
    let (key, planets) := planets.insert { planet with system }
    let systems := systems.modify system fun s => { s with planets := s.planets ++ [key] }
    .ok (key, { systems, planets, diplomacy })
  else .error (.systemNotFound system)

/-- Removes a planet. -/
def removePlanet (g : Galaxy α) (key : PlanetKey) : Galaxy α :=
  match g.planet? key with
  | some planet =>
    { g with
      planets := g.planets.erase key
      systems := g.systems.modify planet.system fun s =>
        { s with planets := s.planets.filter (· != key) } }
  | none => g

/-- Changes what is written on a planet. The system it orbits stays the same. -/
def updatePlanet (g : Galaxy α) (key : PlanetKey) (f : Planet → Planet) : Galaxy α :=
  { g with planets := g.planets.modify key fun planet => { f planet with system := planet.system } }

/-! ### Jumps -/

/-- A list of jumps with `jump` in it, in the place of the one to the same target or else at the
end. -/
def withJump (jumps : List Jump) (jump : Jump) : List Jump :=
  if jumps.any (·.target == jump.target) then
    jumps.map fun old => if old.target == jump.target then jump else old
  else jumps ++ [jump]

/-- Adds a jump. A second jump to the same target replaces the marks of the first. Of two systems
that do not exist, the target is the one that is named. -/
def addJump (g : Galaxy α) (origin : SystemKey) (jump : Jump) : Except GalaxyError (Galaxy α) :=
  if g.systems.contains jump.target then
    g.updateSystem origin fun system => { system with jumps := withJump system.jumps jump }
  else .error (.systemNotFound jump.target)

/-- Adds plain jumps in both directions. -/
def connect (g : Galaxy α) (a b : SystemKey) : Except GalaxyError (Galaxy α) := do
  (← g.addJump a { target := b }).addJump b { target := a }

/-- Removes the jumps between two systems, in both directions. -/
def disconnect (g : Galaxy α) (a b : SystemKey) : Galaxy α :=
  let without (key : SystemKey) (system : System α) : System α :=
    { system with jumps := system.jumps.filter fun jump => jump.target != key }
  { g with systems := (g.systems.modify a (without b)).modify b (without a) }

/-! ### Factions -/

/-- Sets the standing of two factions. -/
def declare (g : Galaxy α) (a b : Nat) (standing : Standing) : Galaxy α :=
  { g with diplomacy := g.diplomacy.declare a b standing }

end Galaxy

end GalaxyMarket
