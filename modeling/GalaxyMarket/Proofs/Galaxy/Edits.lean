import GalaxyMarket.Galaxy.Basic
import GalaxyMarket.Proofs.Galaxy.Slots

/-!
# Galaxies made by edits

The market looks at the planets of a galaxy system by system, in the order in which each system
lists them. That this comes across every planet exactly once, and across each in the system that the
planet names, is not a matter of how a galaxy is laid out: it holds because every edit keeps both
sides in step (`Galaxy.IsOrderly`, `Galaxy.isOrderly_ofEdits`).

Only two things about a galaxy matter for this, the list of each system and the system of each
planet (`listed?`, `home?`). An edit that touches neither keeps the order whatever else it does; of
the remaining four, each is one equation for each of the two.
-/

namespace GalaxyMarket

variable {α : Type}

/-- An edit of a galaxy. -/
inductive Edit (α : Type) where
  | addSystem (system : System α)
  | removeSystem (key : SystemKey)
  | setFaction (key : SystemKey) (faction? : Option Nat)
  | setNebula (key : SystemKey) (nebula : Nebula α)
  | addPlanet (system : SystemKey) (planet : Planet)
  | removePlanet (key : PlanetKey)
  | updatePlanet (key : PlanetKey) (f : Planet → Planet)
  | addJump (origin : SystemKey) (jump : Jump)
  | connect (a b : SystemKey)
  | disconnect (a b : SystemKey)
  | declare (a b : Nat) (standing : Standing)

namespace Galaxy

/-- What an edit makes of a galaxy. One that is refused changes nothing. -/
def unlessRefused (g : Galaxy α) (result : Except GalaxyError (Galaxy α)) : Galaxy α :=
  result.toOption.getD g

/-- The galaxy after an edit. -/
def edit (g : Galaxy α) : Edit α → Galaxy α
  | .addSystem system => (g.addSystem system).2
  | .removeSystem key => g.removeSystem key
  | .setFaction key faction? => g.unlessRefused (g.setFaction key faction?)
  | .setNebula key nebula => g.unlessRefused (g.setNebula key nebula)
  | .addPlanet system planet => g.unlessRefused ((g.addPlanet system planet).map Prod.snd)
  | .removePlanet key => g.removePlanet key
  | .updatePlanet key f => g.updatePlanet key f
  | .addJump origin jump => g.unlessRefused (g.addJump origin jump)
  | .connect a b => g.unlessRefused (g.connect a b)
  | .disconnect a b => g.disconnect a b
  | .declare a b standing => g.declare a b standing

/-- The galaxy that some edits make of an empty one. -/
def ofEdits (edits : List (Edit α)) : Galaxy α := edits.foldl edit {}

/-- The planets that a system lists. -/
def listed? (g : Galaxy α) (key : SystemKey) : Option (List PlanetKey) :=
  (g.system? key).map System.planets

/-- The system that a planet orbits. -/
def home? (g : Galaxy α) (key : PlanetKey) : Option SystemKey := (g.planet? key).map Planet.system

/-- Each system lists the planets that orbit it, and each of them once. -/
structure IsOrderly (g : Galaxy α) : Prop where
  systems : g.systems.IsSound
  planets : g.planets.IsSound
  nodup : ∀ {key list}, g.listed? key = some list → list.Nodup
  mem_iff : ∀ {key list}, g.listed? key = some list → ∀ p, p ∈ list ↔ g.home? p = some key
  /-- A planet orbits a system that is there. -/
  homed : ∀ {p key}, g.home? p = some key → ∃ list, g.listed? key = some list

variable {g h : Galaxy α}

/-- There is nothing in an empty galaxy that could be out of order. -/
theorem isOrderly_empty : ({} : Galaxy α).IsOrderly where
  systems := Slots.isSound_empty
  planets := Slots.isSound_empty
  nodup hlist := nomatch hlist
  mem_iff hlist := nomatch hlist
  homed hhome := nomatch hhome

/-- Exactly the systems that are there have lists. -/
theorem exists_listed?_iff {key : SystemKey} :
    (∃ list, g.listed? key = some list) ↔ g.systems.contains key = true := by
  rw [Slots.contains_iff, listed?, system?]
  cases g.systems.get? key <;> simp

/-- A planet orbits the system that it names. -/
theorem home?_of_planet? {q : PlanetKey} {planet : Planet} (h : g.planet? q = some planet) :
    g.home? q = some planet.system := by
  rw [home?, h, Option.map_some]

/-- A system lists its planets. -/
theorem listed?_of_system? {key : SystemKey} {system : System α}
    (hsystem : g.system? key = some system) : g.listed? key = some system.planets := by
  rw [listed?, hsystem, Option.map_some]

/-- A planet orbits a system that is there. -/
theorem IsOrderly.contains_system (hg : g.IsOrderly) {q : PlanetKey} {planet : Planet}
    (h : g.planet? q = some planet) : g.systems.contains planet.system = true :=
  exists_listed?_iff.mp (hg.homed (home?_of_planet? h))

/-! ### Edits that may be refused -/

/-- What holds of a galaxy and of what an edit makes of it holds after the edit, refused or not. -/
theorem unlessRefused_of {P : Galaxy α → Prop} (hg : P g) {result : Except GalaxyError (Galaxy α)}
    (hok : ∀ h, result = .ok h → P h) : P (g.unlessRefused result) := by
  cases result with
  | error e => exact hg
  | ok h => exact hok h rfl

/-- A system that is changed is there. -/
theorem updateSystem_eq_ok {key : SystemKey} {f : System α → System α}
    (hedit : g.updateSystem key f = .ok h) :
    g.systems.contains key = true ∧ h = { g with systems := g.systems.modify key f } := by
  unfold updateSystem at hedit
  split at hedit
  · next hcontains =>
    cases hedit
    exact ⟨hcontains, rfl⟩
  · cases hedit

/-- A jump that is added leads to a system that is there. -/
theorem addJump_eq_ok {origin : SystemKey} {jump : Jump} (hedit : g.addJump origin jump = .ok h) :
    g.systems.contains jump.target = true ∧ h = { g with
      systems := g.systems.modify origin fun system =>
        { system with jumps := withJump system.jumps jump } } := by
  unfold addJump at hedit
  split at hedit
  · next htarget => exact ⟨htarget, (updateSystem_eq_ok hedit).2⟩
  · cases hedit

/-- Connecting two systems is adding two jumps. -/
theorem connect_eq_ok {a b : SystemKey} (hedit : g.connect a b = .ok h) :
    ∃ middle, g.addJump a { target := b } = .ok middle ∧
      middle.addJump b { target := a } = .ok h := by
  unfold connect at hedit
  cases hfirst : g.addJump a { target := b } with
  | error e =>
    rw [hfirst] at hedit
    cases hedit
  | ok middle =>
    rw [hfirst] at hedit
    exact ⟨middle, rfl, hedit⟩

/-! ### Edits that leave lists and homes alone -/

/-- Order is a matter of the two functions and of nothing else. -/
theorem IsOrderly.of_eq (hg : g.IsOrderly) (hsystems : h.systems.IsSound)
    (hplanets : h.planets.IsSound) (hlisted : ∀ key, h.listed? key = g.listed? key)
    (hhome : ∀ p, h.home? p = g.home? p) : h.IsOrderly where
  systems := hsystems
  planets := hplanets
  nodup hlist := hg.nodup (hlisted _ ▸ hlist)
  mem_iff hlist p := by
    rw [hhome]
    exact hg.mem_iff (hlisted _ ▸ hlist) p
  homed hp := by
    rw [hhome] at hp
    obtain ⟨list, hlist⟩ := hg.homed hp
    exact ⟨list, (hlisted _).trans hlist⟩

/-- Changing anything about a system but its list of planets. -/
theorem IsOrderly.modify (hg : g.IsOrderly) (key : SystemKey) {f : System α → System α}
    (hf : ∀ system, (f system).planets = system.planets) :
    { g with systems := g.systems.modify key f }.IsOrderly := by
  refine hg.of_eq (hg.systems.modify key f) hg.planets (fun other => ?_) fun _ => rfl
  unfold listed? system?
  rw [Slots.get?_modify]
  split
  · cases g.systems.get? other with
    | none => rfl
    | some system => exact congrArg some (hf system)
  · rfl

/-- A change of a system that is not to its planets keeps the order, -/
theorem IsOrderly.updateSystem (hg : g.IsOrderly) {key : SystemKey} {f : System α → System α}
    (hf : ∀ system, (f system).planets = system.planets)
    (hedit : g.updateSystem key f = .ok h) : h.IsOrderly := by
  obtain ⟨-, rfl⟩ := updateSystem_eq_ok hedit
  exact hg.modify key hf

/-- a jump that is added does, -/
theorem IsOrderly.addJump (hg : g.IsOrderly) {origin : SystemKey} {jump : Jump}
    (hedit : g.addJump origin jump = .ok h) : h.IsOrderly := by
  obtain ⟨-, rfl⟩ := addJump_eq_ok hedit
  apply hg.modify origin
  intro system
  rfl

/-- two jumps that connect systems do, -/
theorem IsOrderly.connect (hg : g.IsOrderly) {a b : SystemKey}
    (hedit : g.connect a b = .ok h) : h.IsOrderly := by
  obtain ⟨middle, hfirst, hsecond⟩ := connect_eq_ok hedit
  -- Both jumps are added in turn.
  exact (hg.addJump hfirst).addJump hsecond

/-- and so do jumps that are struck. -/
theorem IsOrderly.disconnect (hg : g.IsOrderly) (a b : SystemKey) :
    (g.disconnect a b).IsOrderly := by
  unfold Galaxy.disconnect
  refine (hg.modify a ?_).modify b ?_ <;> exact fun _ => rfl

/-- A planet that is changed keeps its system. -/
theorem IsOrderly.updatePlanet (hg : g.IsOrderly) (key : PlanetKey) (f : Planet → Planet) :
    (g.updatePlanet key f).IsOrderly := by
  refine hg.of_eq hg.systems (hg.planets.modify key _) (fun _ => rfl) fun other => ?_
  unfold home? planet? Galaxy.updatePlanet
  rw [Slots.get?_modify]
  split
  · cases g.planets.get? other <;> rfl
  · rfl

/-! ### Adding a system -/

/-- A new system lists nothing, and all others what they did. -/
theorem IsOrderly.listed?_addSystem (hg : g.IsOrderly) (system : System α) (key : SystemKey) :
    (g.addSystem system).2.listed? key =
      if key = (g.addSystem system).1 then some [] else g.listed? key := by
  let bare : System α := { system with jumps := [], planets := [] }
  show ((g.systems.insert bare).2.get? key).map System.planets =
    if key = (g.systems.insert bare).1 then some [] else g.listed? key
  rw [(hg.systems.get?_insert bare key).2]
  split <;> rfl

/-- No planet orbits a system that is yet to be added. -/
theorem IsOrderly.home?_ne_addSystem (hg : g.IsOrderly) (system : System α) (p : PlanetKey) :
    g.home? p ≠ some (g.addSystem system).1 := by
  intro hp
  obtain ⟨list, hlist⟩ := hg.homed hp
  let bare : System α := { system with jumps := [], planets := [] }
  -- The key is that of no system, whereas planets only orbit systems that are there.
  have hnew : g.system? (g.addSystem system).1 = none := (hg.systems.get?_insert bare default).1
  rw [listed?, hnew] at hlist
  cases hlist

/-- A new system keeps the order: no planet has to be on its list. -/
theorem IsOrderly.addSystem (hg : g.IsOrderly) (system : System α) :
    (g.addSystem system).2.IsOrderly where
  systems := hg.systems.insert _
  planets := hg.planets
  nodup hlist := by
    rw [hg.listed?_addSystem] at hlist
    split at hlist
    · cases hlist
      exact List.nodup_nil
    · exact hg.nodup hlist
  mem_iff hlist p := by
    rw [hg.listed?_addSystem] at hlist
    show _ ↔ g.home? p = _
    split at hlist
    · next heq =>
      cases hlist
      rw [heq]
      exact iff_of_false List.not_mem_nil (hg.home?_ne_addSystem system p)
    · exact hg.mem_iff hlist p
  homed {p key} hp := by
    obtain ⟨list, hlist⟩ := hg.homed (p := p) hp
    -- The system that a planet orbits was there before, so that it is not the new one.
    have hne : key ≠ (g.addSystem system).1 := fun heq => hg.home?_ne_addSystem system p (heq ▸ hp)
    exact ⟨list, by rw [hg.listed?_addSystem, if_neg hne, hlist]⟩

/-! ### Removing a system -/

/-- Removing a system that is not there does nothing. -/
theorem removeSystem_of_none {key : SystemKey} (hsystem : g.system? key = none) :
    g.removeSystem key = g := by
  rw [Galaxy.removeSystem, hsystem]

/-- What goes with a system, apart from its planets: itself, and the jumps to it. -/
theorem system?_removeSystem {key : SystemKey} {system : System α}
    (hsystem : g.system? key = some system) (other : SystemKey) :
    (g.removeSystem key).system? other = if other = key then none else
      (g.system? other).map fun kept =>
        { kept with jumps := kept.jumps.filter fun jump => jump.target != key } := by
  rw [Galaxy.removeSystem, hsystem]
  unfold system?
  rw [Slots.get?_map, Slots.get?_erase]
  split <;> rfl

/-- The list of a system goes with it. -/
theorem listed?_removeSystem (g : Galaxy α) (key other : SystemKey) :
    (g.removeSystem key).listed? other = if other = key then none else g.listed? other := by
  cases hsystem : g.system? key with
  | none =>
    rw [removeSystem_of_none hsystem]
    split
    · next heq => rw [heq, listed?, hsystem, Option.map_none]
    · rfl
  | some system =>
    unfold listed?
    rw [system?_removeSystem hsystem]
    split
    · rfl
    · rw [Option.map_map]
      rfl

/-- The planets that go are those that orbited the system. -/
theorem IsOrderly.planet?_removeSystem (hg : g.IsOrderly) (key : SystemKey) (p : PlanetKey) :
    (g.removeSystem key).planet? p = if g.home? p = some key then none else g.planet? p := by
  cases hsystem : g.system? key with
  | none =>
    -- Nothing orbits a system that is not there.
    have hhome : g.home? p ≠ some key := by
      intro hp
      obtain ⟨list, hlist⟩ := hg.homed hp
      rw [listed?, hsystem] at hlist
      cases hlist
    rw [removeSystem_of_none hsystem, if_neg hhome]
  | some system =>
    rw [Galaxy.removeSystem, hsystem]
    show (system.planets.foldl Slots.erase g.planets).get? p = _
    rw [Slots.get?_foldl_erase]
    simp only [hg.mem_iff (listed?_of_system? hsystem) p]
    rfl

/-- Planets that are left orbit what they did. -/
theorem IsOrderly.home?_removeSystem (hg : g.IsOrderly) (key : SystemKey) (p : PlanetKey) :
    (g.removeSystem key).home? p = if g.home? p = some key then none else g.home? p := by
  rw [home?, hg.planet?_removeSystem]
  split <;> rfl

/-- The slots of what goes wait to be used again. -/
theorem IsOrderly.isSound_removeSystem (hg : g.IsOrderly) (key : SystemKey) :
    (g.removeSystem key).systems.IsSound ∧ (g.removeSystem key).planets.IsSound := by
  unfold Galaxy.removeSystem
  cases g.system? key with
  | none => exact ⟨hg.systems, hg.planets⟩
  | some system => exact ⟨(hg.systems.erase key).map _, hg.planets.foldl_erase system.planets⟩

/-- **Removing a system** keeps the order, since no list that is left has a planet that went. -/
theorem IsOrderly.removeSystem (hg : g.IsOrderly) (key : SystemKey) :
    (g.removeSystem key).IsOrderly where
  systems := (hg.isSound_removeSystem key).1
  planets := (hg.isSound_removeSystem key).2
  nodup hother := by
    rw [listed?_removeSystem] at hother
    split at hother
    · cases hother
    · exact hg.nodup hother
  mem_iff {other list} hother p := by
    rw [listed?_removeSystem] at hother
    split at hother
    · cases hother
    · next hne =>
      -- A list that is left belongs to another system, so that none of its planets is among those
      -- that go.
      rw [hg.mem_iff hother p, hg.home?_removeSystem]
      split
      · next heq => simp [heq, Ne.symm hne]
      · rfl
  homed {p other} hp := by
    rw [hg.home?_removeSystem] at hp
    split at hp
    · cases hp
    · next hne =>
      obtain ⟨list, hother⟩ := hg.homed hp
      have hother' : other ≠ key := fun heq => hne (heq ▸ hp)
      exact ⟨list, by rw [listed?_removeSystem, if_neg hother', hother]⟩

/-! ### Adding a planet -/

section

variable {key : SystemKey} {planet : Planet} {new : PlanetKey}

/-- A planet that is added gets a key and goes to the end of the list of its system. -/
theorem addPlanet_eq_ok (hadd : g.addPlanet key planet = .ok (new, h)) :
    g.systems.contains key = true ∧ new = (g.planets.insert { planet with system := key }).1 ∧
      h = { g with
        systems := g.systems.modify key fun s => { s with planets := s.planets ++ [new] }
        planets := (g.planets.insert { planet with system := key }).2 } := by
  unfold Galaxy.addPlanet at hadd
  split at hadd
  · next hcontains =>
    cases hadd
    exact ⟨hcontains, rfl, rfl⟩
  · cases hadd

/-- One list is longer by the new planet, -/
theorem listed?_addPlanet (hadd : g.addPlanet key planet = .ok (new, h)) (other : SystemKey) :
    h.listed? other =
      if other = key then (g.listed? other).map (· ++ [new]) else g.listed? other := by
  obtain ⟨-, -, rfl⟩ := addPlanet_eq_ok hadd
  unfold listed? system?
  rw [Slots.get?_modify]
  split
  · -- The list is read before or after the planet is appended: the same two maps in either order.
    rw [Option.map_map, Option.map_map]
    rfl
  · rfl

/-- and the new planet orbits the system of that list. -/
theorem IsOrderly.home?_addPlanet (hg : g.IsOrderly)
    (hadd : g.addPlanet key planet = .ok (new, h)) (p : PlanetKey) :
    g.home? new = none ∧ h.home? p = if p = new then some key else g.home? p := by
  obtain ⟨-, rfl, rfl⟩ := addPlanet_eq_ok hadd
  obtain ⟨hnew, hinsert⟩ := hg.planets.get?_insert { planet with system := key } p
  unfold home? planet?
  rw [hnew, hinsert]
  refine ⟨rfl, ?_⟩
  split <;> rfl

/-- **Adding a planet** keeps the order. -/
theorem IsOrderly.addPlanet (hg : g.IsOrderly) (hadd : g.addPlanet key planet = .ok (new, h)) :
    h.IsOrderly := by
  obtain ⟨hcontains, -, heq⟩ := addPlanet_eq_ok hadd
  obtain ⟨list, hlist⟩ := exists_listed?_iff.mpr hcontains
  have hnew : g.home? new = none := (hg.home?_addPlanet hadd new).1
  have hhome : ∀ p, h.home? p = if p = new then some key else g.home? p :=
    fun p => (hg.home?_addPlanet hadd p).2
  have hlisted : ∀ other, h.listed? other =
      if other = key then some (list ++ [new]) else g.listed? other := by
    intro other
    rw [listed?_addPlanet hadd]
    split
    · next heq => rw [heq, hlist, Option.map_some]
    · rfl
  constructor
  case systems =>
    rw [heq]
    exact hg.systems.modify key _
  case planets =>
    rw [heq]
    exact hg.planets.insert _
  case nodup =>
    intro other ps hother
    rw [hlisted] at hother
    split at hother
    · cases hother
      rw [List.nodup_append]
      refine ⟨hg.nodup hlist, List.pairwise_singleton _ new, ?_⟩
      -- The key is new, so that no system lists it yet.
      rintro p hp q hq rfl
      rw [hg.mem_iff hlist, List.mem_singleton.mp hq, hnew] at hp
      cases hp
    · exact hg.nodup hother
  case mem_iff =>
    intro other ps hother p
    rw [hlisted] at hother
    rw [hhome]
    -- The new planet is on the list that grew and on no other: it orbits that system alone.
    split at hother
    · next heq =>
      cases hother
      rw [List.mem_append, List.mem_singleton, hg.mem_iff hlist p, heq]
      by_cases hp : p = new
      · simp [hp]
      · simp [hp]
    · next hne =>
      rw [hg.mem_iff hother p]
      split
      · next heq =>
        rw [heq, hnew]
        simp [Ne.symm hne]
      · rfl
  case homed =>
    intro p other hp
    rw [hhome] at hp
    by_cases hother : other = key
    · exact ⟨_, by rw [hlisted, if_pos hother]⟩
    · split at hp
      · exact absurd (Option.some.inj hp).symm hother
      · obtain ⟨ps, hps⟩ := hg.homed hp
        exact ⟨ps, by rw [hlisted, if_neg hother, hps]⟩

end

/-! ### Removing a planet -/

/-- Removing a planet that is not there does nothing. -/
theorem removePlanet_of_none {key : PlanetKey} (hplanet : g.planet? key = none) :
    g.removePlanet key = g := by
  rw [Galaxy.removePlanet, hplanet]

/-- A planet that is removed orbits nothing. -/
theorem home?_removePlanet (g : Galaxy α) (key p : PlanetKey) :
    (g.removePlanet key).home? p = if p = key then none else g.home? p := by
  cases hplanet : g.planet? key with
  | none =>
    rw [removePlanet_of_none hplanet]
    split
    · next heq => rw [heq, home?, hplanet, Option.map_none]
    · rfl
  | some planet =>
    rw [Galaxy.removePlanet, hplanet]
    unfold home? planet?
    rw [Slots.get?_erase]
    split <;> rfl

/-- A planet is struck from the list of its system only. -/
theorem listed?_removePlanet {key : PlanetKey} {planet : Planet}
    (hplanet : g.planet? key = some planet) (other : SystemKey) :
    (g.removePlanet key).listed? other = (g.listed? other).map fun list =>
      if other = planet.system then list.filter (· != key) else list := by
  rw [Galaxy.removePlanet, hplanet]
  unfold listed? system?
  rw [Slots.get?_modify]
  cases g.systems.get? other with
  | none => split <;> rfl
  | some system => split <;> simp [*]

/-- **Removing a planet** keeps the order. -/
theorem IsOrderly.removePlanet (hg : g.IsOrderly) (key : PlanetKey) :
    (g.removePlanet key).IsOrderly := by
  cases hplanet : g.planet? key with
  | none =>
    rw [removePlanet_of_none hplanet]
    exact hg
  | some planet =>
    have hkey : g.home? key = some planet.system := home?_of_planet? hplanet
    constructor
    case systems =>
      rw [Galaxy.removePlanet, hplanet]
      exact hg.systems.modify planet.system _
    case planets =>
      rw [Galaxy.removePlanet, hplanet]
      exact hg.planets.erase key
    case nodup =>
      intro other ps hother
      rw [listed?_removePlanet hplanet] at hother
      obtain ⟨list, hlist, rfl⟩ := Option.map_eq_some_iff.mp hother
      split
      · exact (hg.nodup hlist).filter _
      · exact hg.nodup hlist
    case mem_iff =>
      intro other ps hother p
      rw [listed?_removePlanet hplanet] at hother
      obtain ⟨list, hlist, rfl⟩ := Option.map_eq_some_iff.mp hother
      rw [home?_removePlanet]
      by_cases hp : p = key
      · -- The planet that goes was listed by its own system only.
        simp only [hp, if_true]
        split
        · simp
        · next hne => simp [hg.mem_iff hlist, hkey, Ne.symm hne]
      · rw [if_neg hp, ← hg.mem_iff hlist]
        split <;> simp [hp]
    case homed =>
      intro p other hp
      rw [home?_removePlanet] at hp
      split at hp
      · cases hp
      · obtain ⟨ps, hps⟩ := hg.homed hp
        exact ⟨_, by rw [listed?_removePlanet hplanet, hps, Option.map_some]⟩

/-! ### Every edit -/

/-- **Every edit** keeps the order. -/
theorem IsOrderly.edit (hg : g.IsOrderly) (e : Edit α) : (g.edit e).IsOrderly := by
  cases e with
  | addSystem system => exact hg.addSystem system
  | removeSystem key => exact hg.removeSystem key
  -- Allegiance, nebula and jumps are no part of a list.
  | setFaction key faction? =>
    refine unlessRefused_of hg fun h hok => hg.updateSystem ?_ hok
    exact fun _ => rfl
  | setNebula key nebula =>
    refine unlessRefused_of hg fun h hok => hg.updateSystem ?_ hok
    exact fun _ => rfl
  | addPlanet system planet =>
    refine unlessRefused_of hg fun h hok => ?_
    cases hadd : g.addPlanet system planet with
    | error e =>
      rw [hadd] at hok
      cases hok
    | ok added =>
      rw [hadd] at hok
      cases hok
      exact hg.addPlanet hadd
  | removePlanet key => exact hg.removePlanet key
  | updatePlanet key f => exact hg.updatePlanet key f
  | addJump origin jump => exact unlessRefused_of hg fun h hok => hg.addJump hok
  | connect a b => exact unlessRefused_of hg fun h hok => hg.connect hok
  | disconnect a b => exact hg.disconnect a b
  | declare a b standing =>
    exact hg.of_eq hg.systems hg.planets (fun _ => rfl) fun _ => rfl

/-- **Every galaxy is orderly**, whatever edits it was made by. -/
theorem isOrderly_ofEdits (edits : List (Edit α)) : (ofEdits edits).IsOrderly := by
  -- Over all galaxies that edits may start from, as the fold hands each edit the last result.
  suffices h : ∀ g : Galaxy α, g.IsOrderly → (edits.foldl Galaxy.edit g).IsOrderly from
    h {} isOrderly_empty
  intro g hg
  induction edits generalizing g with
  | nil => exact hg
  | cons e edits ih => exact ih _ (hg.edit e)

/-! ### The planets of a system -/

/-- A system is looked through along its list, and what is not there is passed over. -/
theorem planetsIn_eq (g : Galaxy α) (key : SystemKey) :
    g.planetsIn key =
      ((g.listed? key).getD []).filterMap fun p => (g.planet? p).map (p, ·) := by
  unfold planetsIn listed?
  cases g.system? key <;> rfl

/-- Looking through a system comes across the planets that orbit it, -/
theorem IsOrderly.mem_planetsIn_iff (hg : g.IsOrderly) {key : SystemKey} {p : PlanetKey}
    {planet : Planet} :
    (p, planet) ∈ g.planetsIn key ↔ g.planet? p = some planet ∧ planet.system = key := by
  rw [planetsIn_eq, List.mem_filterMap]
  constructor
  · rintro ⟨q, hq, hmap⟩
    obtain ⟨found, hfound, heq⟩ := Option.map_eq_some_iff.mp hmap
    cases heq
    cases hlist : g.listed? key with
    | none => simp [hlist] at hq
    | some list =>
      have hhome : g.home? p = some key := (hg.mem_iff hlist p).mp (by simpa [hlist] using hq)
      rw [home?, hfound] at hhome
      exact ⟨hfound, Option.some.inj hhome⟩
  · rintro ⟨hplanet, rfl⟩
    have hhome : g.home? p = some planet.system := home?_of_planet? hplanet
    obtain ⟨list, hlist⟩ := hg.homed hhome
    exact ⟨p, by simpa [hlist] using (hg.mem_iff hlist p).mpr hhome, by rw [hplanet]; rfl⟩

/-- that is, across those whose home it is, -/
theorem IsOrderly.mem_map_planetsIn_iff (hg : g.IsOrderly) {key : SystemKey} {p : PlanetKey} :
    p ∈ (g.planetsIn key).map Prod.fst ↔ g.home? p = some key := by
  rw [List.mem_map, home?, Option.map_eq_some_iff]
  constructor
  · rintro ⟨⟨_, planet⟩, hmem, rfl⟩
    exact ⟨planet, hg.mem_planetsIn_iff.mp hmem⟩
  · rintro ⟨planet, hplanet⟩
    exact ⟨(p, planet), hg.mem_planetsIn_iff.mpr hplanet, rfl⟩

/-- and across each of them once. -/
theorem IsOrderly.nodup_planetsIn (hg : g.IsOrderly) (key : SystemKey) :
    ((g.planetsIn key).map Prod.fst).Nodup := by
  rw [planetsIn_eq]
  cases hlist : g.listed? key with
  | none => exact List.nodup_nil
  | some list =>
    rw [List.Nodup, List.pairwise_map, Option.getD_some, List.pairwise_filterMap]
    -- A key that is looked up stays what it is, so that different keys give different planets.
    refine (hg.nodup hlist).imp fun {p q} hne a ha b hb => ?_
    obtain ⟨_, -, rfl⟩ := Option.map_eq_some_iff.mp ha
    obtain ⟨_, -, rfl⟩ := Option.map_eq_some_iff.mp hb
    exact hne

end Galaxy

end GalaxyMarket
