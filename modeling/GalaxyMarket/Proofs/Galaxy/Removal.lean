import GalaxyMarket.Proofs.Galaxy.Listing
import GalaxyMarket.Proofs.Galaxy.Register

/-!
# Systems that are removed

A system that is removed takes its planets and the jumps to it along, and nothing else
(`Galaxy.Loses`). That the planets which go are all that orbit the system, and that none of another
system is among them, is owed to the lists of planets, which are complete (`Galaxy.IsOrderly`).

From then on the system and its planets are gone for good, even when their slots are given to
others: keys that are out of use stay so (`Galaxy.retired_systems_edits`,
`Galaxy.retired_planets_edits`). What is not there is not referred to either, because no galaxy that
edits make refers to anything that is not there (`Galaxy.IsIntact`). Both are put together in
`Galaxy.ForgetsSystem` and `Galaxy.ForgetsPlanet`.
-/

namespace GalaxyMarket

/-- A key under which a store has nothing is not in use there. -/
theorem Slots.not_in_use {kind : Kind} {β : Type} {s : Slots kind β} {key : Key kind}
    (habsent : s.get? key = none) : s.contains key = false ∧ key ∉ s.keys := by
  constructor
  · rw [contains, habsent, Option.isSome_none]
  · rw [mem_keys_iff, habsent]
    rintro ⟨_, h⟩
    cases h

namespace Galaxy

variable {α : Type}

/-- A galaxy `h` that is left of `g` when it loses one system. -/
structure Loses (g : Galaxy α) (key : SystemKey) (h : Galaxy α) : Prop where
  /-- The system is gone. All others keep everything but their jumps to it. -/
  system? : ∀ other, h.system? other = if other = key then none else
    (g.system? other).map fun kept =>
      { kept with jumps := kept.jumps.filter fun jump => jump.target != key }
  /-- The planets that orbited it are gone. All others are as before. -/
  planet? : ∀ q, h.planet? q = if g.home? q = some key then none else g.planet? q
  /-- Going through any other system comes across the same planets. -/
  planetsIn : ∀ other, other ≠ key → h.planetsIn other = g.planetsIn other
  /-- Going through all systems or all planets comes across what is left, in the same order. -/
  systems : h.systems.toList = (g.systems.toList.filter fun entry => entry.1 ≠ key).map fun entry =>
    (entry.1, { entry.2 with jumps := entry.2.jumps.filter fun jump => jump.target != key })
  planets : h.planets.toList = g.planets.toList.filter fun entry => entry.2.system ≠ key
  diplomacy : h.diplomacy = g.diplomacy

/-- A galaxy in which nothing is found under the key of a system, and nothing refers to it. -/
structure ForgetsSystem (g : Galaxy α) (key : SystemKey) : Prop where
  system? : g.system? key = none
  contains : g.systems.contains key = false
  notMem_keys : key ∉ g.systems.keys
  planetsIn : g.planetsIn key = []
  /-- Edits that name the system are refused, and there is nothing to remove. -/
  updateSystem : ∀ f, g.updateSystem key f = .error (.systemNotFound key)
  addPlanet : ∀ planet, g.addPlanet key planet = .error (.systemNotFound key)
  addJump_to : ∀ origin exitOnly hidden,
    g.addJump origin ⟨key, exitOnly, hidden⟩ = .error (.systemNotFound key)
  addJump_from : ∀ jump, ∃ missing, g.addJump key jump = .error (.systemNotFound missing)
  removeSystem : g.removeSystem key = g
  /-- No jump leads to it. -/
  target_ne : ∀ {other system}, g.system? other = some system →
    ∀ jump ∈ system.jumps, jump.target ≠ key
  /-- No planet orbits it. -/
  system_ne : ∀ {q planet}, g.planet? q = some planet → planet.system ≠ key
  /-- An index that is made of the galaxy neither numbers nor lists it. -/
  position? : (SystemIndex.ofGalaxy g).position? key = none
  number : ∀ i, (SystemIndex.ofGalaxy g).system? i ≠ some key

/-- A galaxy in which nothing is found under the key of a planet, and no system lists it. -/
structure ForgetsPlanet (g : Galaxy α) (q : PlanetKey) : Prop where
  planet? : g.planet? q = none
  contains : g.planets.contains q = false
  notMem_keys : q ∉ g.planets.keys
  /-- There is nothing to change or to remove. -/
  updatePlanet : ∀ f, g.updatePlanet q f = g
  removePlanet : g.removePlanet q = g
  notMem_list : ∀ {key system}, g.system? key = some system → q ∉ system.planets
  notMem_planetsIn : ∀ key, q ∉ (g.planetsIn key).map Prod.fst

variable {g : Galaxy α} {key : SystemKey} {system : System α} {q : PlanetKey}

/-! ### What goes -/

/-- Another system is left with all of its planets. -/
theorem IsOrderly.planetsIn_removeSystem (hg : g.IsOrderly) {other : SystemKey}
    (hother : other ≠ key) : (g.removeSystem key).planetsIn other = g.planetsIn other := by
  rw [planetsIn_eq, planetsIn_eq, listed?_removeSystem, if_neg hother]
  cases hlist : g.listed? other with
  | none => rfl
  | some list =>
    apply List.filterMap_congr
    intro p hp
    -- A planet on the list of another system orbits that one.
    have hhome : g.home? p = some other := (hg.mem_iff hlist p).mp hp
    have hne : g.home? p ≠ some key := fun h => hother (Option.some.inj (hhome.symm.trans h))
    rw [hg.planet?_removeSystem, if_neg hne]

/-- The systems that are left stand in their old order, without their jumps to the one that goes, -/
theorem systems_removeSystem (hsystem : g.system? key = some system) :
    (g.removeSystem key).systems.toList =
      (g.systems.toList.filter fun entry => entry.1 ≠ key).map fun entry =>
        (entry.1, { entry.2 with
          jumps := entry.2.jumps.filter fun jump => jump.target != key }) := by
  apply Slots.toList_eq_of_forall
  · exact List.pairwise_map.mpr (g.systems.toList_pairwise.filter _)
  · -- Both lists are ascending, so that it is enough to compare what is in them.
    intro other value
    change _ ↔ (g.removeSystem key).system? other = some value
    rw [system?_removeSystem hsystem, List.mem_map]
    constructor
    · rintro ⟨⟨_, kept⟩, hmem, heq⟩
      obtain ⟨rfl, rfl⟩ := Prod.mk.inj heq
      obtain ⟨hmem, hne⟩ := List.mem_filter.mp hmem
      have hkept : g.system? _ = some kept := Slots.mem_toList_iff.mp hmem
      rw [if_neg (of_decide_eq_true hne), hkept, Option.map_some]
    · intro hvalue
      split at hvalue
      · cases hvalue
      · next hne =>
        obtain ⟨kept, hkept, rfl⟩ := Option.map_eq_some_iff.mp hvalue
        exact ⟨(other, kept), List.mem_filter.mpr ⟨Slots.mem_toList_iff.mpr hkept,
          decide_eq_true hne⟩, rfl⟩

/-- and so do the planets that are left. -/
theorem IsOrderly.planets_removeSystem (hg : g.IsOrderly) (key : SystemKey) :
    (g.removeSystem key).planets.toList =
      g.planets.toList.filter fun entry => entry.2.system ≠ key := by
  apply Slots.toList_eq_of_forall (g.planets.toList_pairwise.filter _)
  intro p planet
  change _ ↔ (g.removeSystem key).planet? p = some planet
  -- A planet passes the filter if it orbits another system, and these are the planets that stay.
  rw [hg.planet?_removeSystem, List.mem_filter, Slots.mem_toList_iff]
  constructor
  · rintro ⟨hplanet, hne⟩
    have hhome : g.home? p ≠ some key := by
      rw [home?_of_planet? hplanet]
      exact fun h => of_decide_eq_true hne (Option.some.inj h)
    rw [if_neg hhome]
    exact hplanet
  · intro hplanet
    split at hplanet
    · cases hplanet
    · next hhome =>
      refine ⟨hplanet, decide_eq_true fun hsystem => hhome ?_⟩
      rw [home?_of_planet? hplanet, ← hsystem]

/-- **A system is removed** with its planets and the jumps to it, and nothing else. -/
theorem IsOrderly.loses_removeSystem (hg : g.IsOrderly) (hsystem : g.system? key = some system) :
    g.Loses key (g.removeSystem key) where
  system? := system?_removeSystem hsystem
  planet? := hg.planet?_removeSystem key
  planetsIn _ hother := hg.planetsIn_removeSystem hother
  systems := systems_removeSystem hsystem
  planets := hg.planets_removeSystem key
  diplomacy := by rw [Galaxy.removeSystem, hsystem]

/-! ### What does not come back -/

/-- Systems that are out of use stay so. -/
theorem retired_systems_edits (hretired : g.systems.Retired key) (edits : List (Edit α)) :
    (edits.foldl edit g).systems.Retired key :=
  systems_edits (P := fun s => s.Retired key) (fun _ new hs => hs.insert new)
    (fun _ other hs => hs.erase other) (fun _ f _ hs => hs.map f)
    (fun _ other f _ hs => hs.modify other f) hretired edits

/-- The key of a system that is removed is out of use for good, -/
theorem IsOrderly.retired_removeSystem (hg : g.IsOrderly) (hsystem : g.system? key = some system) :
    (g.removeSystem key).systems.Retired key where
  sound := (hg.isSound_removeSystem key).1
  issued := by
    rw [Galaxy.removeSystem, hsystem]
    exact ((Slots.issued_of_get? hsystem).erase key).map _
  absent := (system?_removeSystem hsystem key).trans (if_pos rfl)

/-- and so are those of its planets. -/
theorem IsOrderly.retired_planet_removeSystem (hg : g.IsOrderly) (hq : g.home? q = some key) :
    (g.removeSystem key).planets.Retired q where
  sound := (hg.isSound_removeSystem key).2
  issued := by
    obtain ⟨planet, hplanet, -⟩ := Option.map_eq_some_iff.mp hq
    exact hg.issued_edits (Slots.issued_of_get? hplanet) [.removeSystem key]
  absent := (hg.planet?_removeSystem key q).trans (if_pos hq)

/-- **What is not there is not referred to**, -/
theorem IsOrderly.forgetsSystem (hg : g.IsOrderly) (hcharted : g.IsCharted)
    (habsent : g.system? key = none) : g.ForgetsSystem key := by
  obtain ⟨hcontains, hkeys⟩ := Slots.not_in_use habsent
  have hrefused : ¬g.systems.contains key = true := Bool.eq_false_iff.mp hcontains
  -- An index only numbers systems that are there.
  have hnumber : ∀ i, (SystemIndex.ofGalaxy g).system? i ≠ some key := by
    intro i hi
    obtain ⟨_, hpresent⟩ := SystemIndex.exists_system?_ofGalaxy_iff.mp ⟨i, hi⟩
    cases habsent.symm.trans hpresent
  constructor
  case system? => exact habsent
  case contains => exact hcontains
  case notMem_keys => exact hkeys
  case planetsIn => rw [Galaxy.planetsIn, habsent, Option.elim_none]
  case updateSystem => exact fun f => if_neg hrefused
  case addPlanet => exact fun planet => if_neg hrefused
  case addJump_to => exact fun origin exitOnly hidden => if_neg hrefused
  case addJump_from =>
    intro jump
    unfold Galaxy.addJump
    split
    · exact ⟨key, if_neg hrefused⟩
    · exact ⟨jump.target, rfl⟩
  case removeSystem => exact removeSystem_of_none habsent
  case target_ne =>
    rintro other system hsystem jump hjump rfl
    exact hrefused (hcharted.live (jumps?_of_system? hsystem) jump hjump)
  case system_ne =>
    rintro q planet hplanet rfl
    exact hrefused (hg.contains_system hplanet)
  case position? =>
    rw [Option.eq_none_iff_forall_ne_some]
    intro i hi
    exact hnumber i (SystemIndex.position?_ofGalaxy_eq_some_iff.mp hi)
  case number => exact hnumber

/-- and this holds of planets too. -/
theorem IsOrderly.forgetsPlanet (hg : g.IsOrderly) (habsent : g.planet? q = none) :
    g.ForgetsPlanet q := by
  have hhome : g.home? q = none := by rw [home?, habsent, Option.map_none]
  obtain ⟨hcontains, hkeys⟩ := Slots.not_in_use habsent
  constructor
  case planet? => exact habsent
  case contains => exact hcontains
  case notMem_keys => exact hkeys
  case updatePlanet =>
    intro f
    rw [Galaxy.updatePlanet, Slots.modify_of_get?_eq_none _ habsent]
  case removePlanet => rw [Galaxy.removePlanet, habsent]
  case notMem_list =>
    intro key system hsystem hq
    cases hhome.symm.trans ((hg.mem_iff (listed?_of_system? hsystem) q).mp hq)
  case notMem_planetsIn =>
    intro key hq
    cases hhome.symm.trans (hg.mem_map_planetsIn_iff.mp hq)

/-- **Removal is exact and final.** A system goes with its planets and the jumps to it and with
nothing else, and whatever edits follow, none of their keys is ever found or referred to again. -/
theorem removal_exact_and_final (edits : List (Edit α))
    (hsystem : (ofEdits edits).system? key = some system) :
    (ofEdits edits).Loses key ((ofEdits edits).removeSystem key) ∧
    ∀ more : List (Edit α),
      (more.foldl edit ((ofEdits edits).removeSystem key)).ForgetsSystem key ∧
      ∀ q, (ofEdits edits).home? q = some key →
        (more.foldl edit ((ofEdits edits).removeSystem key)).ForgetsPlanet q := by
  have hg : (ofEdits edits).IsOrderly := isOrderly_ofEdits edits
  refine ⟨hg.loses_removeSystem hsystem, fun more => ?_⟩
  -- What the galaxy is after later edits is made by edits as well, so that every invariant holds of
  -- it.
  have hlater : more.foldl edit ((ofEdits edits).removeSystem key) =
      ofEdits (edits ++ .removeSystem key :: more) := by
    unfold ofEdits
    rw [List.foldl_append]
    rfl
  have horderly : (more.foldl edit ((ofEdits edits).removeSystem key)).IsOrderly :=
    hlater ▸ isOrderly_ofEdits _
  have hcharted : (more.foldl edit ((ofEdits edits).removeSystem key)).IsCharted :=
    hlater ▸ isCharted_ofEdits _
  constructor
  · exact horderly.forgetsSystem hcharted
      (retired_systems_edits (hg.retired_removeSystem hsystem) more).absent
  · intro q hq
    exact horderly.forgetsPlanet
      (retired_planets_edits (hg.retired_planet_removeSystem hq) more).absent

/-- Three systems in a row. The first planet orbits the system in the middle. -/
def crossing : List (Edit Float) :=
  [.addSystem { name := "System 0", nebula := ⟨0, 0⟩ },
    .addSystem { name := "System 1", nebula := ⟨0, 0⟩ },
    .addSystem { name := "System 2", nebula := ⟨0, 0⟩ },
    .addPlanet ⟨1, 1⟩ { name := "Planet 0", population := 1 },
    .addPlanet ⟨2, 1⟩ { name := "Planet 1", population := 1 },
    .connect ⟨0, 1⟩ ⟨1, 1⟩, .connect ⟨1, 1⟩ ⟨2, 1⟩]

/-- A new system in the middle, with a new planet. -/
def rebuiltCrossing : List (Edit Float) :=
  [.addSystem { name := "System 3", nebula := ⟨0, 0⟩ },
    .addPlanet ⟨1, 3⟩ { name := "Planet 2", population := 1 },
    .connect ⟨0, 1⟩ ⟨1, 3⟩, .connect ⟨1, 3⟩ ⟨2, 1⟩]

/-- When the system in the middle of the crossing is replaced, system and planet go to the slots of
the old ones, and still nothing refers to these. -/
theorem removal_exact_and_final_crossing :
    ∃ (system : System Float) (h : Galaxy Float), (ofEdits crossing).system? ⟨1, 1⟩ = some system ∧
      rebuiltCrossing.foldl edit ((ofEdits crossing).removeSystem ⟨1, 1⟩) = h ∧
      h.systems.keys = [⟨0, 1⟩, ⟨1, 3⟩, ⟨2, 1⟩] ∧ h.planets.keys = [⟨0, 3⟩, ⟨1, 1⟩] ∧
      h.ForgetsSystem ⟨1, 1⟩ ∧ h.ForgetsPlanet ⟨0, 1⟩ := by
  obtain ⟨system, hsystem⟩ : ∃ system, (ofEdits crossing).system? ⟨1, 1⟩ = some system := ⟨_, rfl⟩
  obtain ⟨-, hfinal⟩ := removal_exact_and_final crossing hsystem
  obtain ⟨hforgets, hplanets⟩ := hfinal rebuiltCrossing
  exact ⟨system, _, hsystem, rfl, by decide +kernel, by decide +kernel, hforgets,
    hplanets ⟨0, 1⟩ rfl⟩

end Galaxy

end GalaxyMarket
