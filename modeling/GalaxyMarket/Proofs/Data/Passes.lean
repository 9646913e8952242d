import GalaxyMarket.Proofs.Data.Draft

/-!
# Reading system records

The two passes over the system records. The first one makes the systems and their planets, the
second one the jumps, when all systems have their keys. What each of them checks as it goes adds up
to a condition on the records as a whole: `WellNamed` for the first pass, and that all targets are
names of systems for the second (`GalaxyDraft.decides_ofRecords`).
-/

namespace GalaxyMarket

/-- **The names in system records are in order**: systems have different names, and so do all
planets; factions and commodities are known. -/
structure WellNamed (commodities factions : List String) (records : List SystemRecord) : Prop where
  systems : (records.map SystemRecord.name).Nodup
  planets : (records.flatMap SystemRecord.planetNames).Nodup
  factions : ∀ record ∈ records, ∀ name ∈ record.faction?, name ∈ factions
  commodities : ∀ record ∈ records, ∀ planet ∈ record.planets, ∀ name ∈ planet.commodities,
    name ∈ commodities

section

variable {commodities factions : List String} {records front : List SystemRecord}
  {record : SystemRecord}

instance : Decidable (WellNamed commodities factions records) :=
  decidable_of_iff
    ((records.map SystemRecord.name).Nodup ∧ (records.flatMap SystemRecord.planetNames).Nodup ∧
      (∀ record ∈ records, ∀ name ∈ record.faction?, name ∈ factions) ∧
      ∀ record ∈ records, ∀ planet ∈ record.planets, ∀ name ∈ planet.commodities,
        name ∈ commodities)
    ⟨fun ⟨h₁, h₂, h₃, h₄⟩ => ⟨h₁, h₂, h₃, h₄⟩, fun ⟨h₁, h₂, h₃, h₄⟩ => ⟨h₁, h₂, h₃, h₄⟩⟩

theorem WellNamed.of_append {back : List SystemRecord}
    (h : WellNamed commodities factions (front ++ back)) :
    WellNamed commodities factions front where
  systems := by
    have hnodup := h.systems
    rw [List.map_append] at hnodup
    exact hnodup.of_append_left
  planets := by
    have hnodup := h.planets
    rw [List.flatMap_append] at hnodup
    exact hnodup.of_append_left
  factions record hrecord := h.factions record (List.mem_append_left _ hrecord)
  commodities record hrecord := h.commodities record (List.mem_append_left _ hrecord)

/-- One more system is in order if its name is new and its faction is known. -/
theorem wellNamed_append_system_iff :
    WellNamed commodities factions (front ++ [{ record with planets := [] }]) ↔
      WellNamed commodities factions front ∧ record.name ∉ front.map SystemRecord.name ∧
        ∀ name ∈ record.faction?, name ∈ factions := by
  -- A system without planets adds one name and perhaps a faction.
  constructor
  · intro h
    have hsystems := h.systems
    rw [List.map_append, List.map_singleton, nodup_append_singleton_iff] at hsystems
    have hfactions := h.factions
    rw [List.forall_mem_append, List.forall_mem_singleton] at hfactions
    exact ⟨h.of_append, hsystems.2, hfactions.2⟩
  · rintro ⟨h, hname, hfaction⟩
    constructor
    case systems =>
      rw [List.map_append, List.map_singleton, nodup_append_singleton_iff]
      exact ⟨h.systems, hname⟩
    case planets =>
      rw [planetNames_append_bare]
      exact h.planets
    case factions =>
      rw [List.forall_mem_append, List.forall_mem_singleton]
      exact ⟨h.factions, hfaction⟩
    case commodities =>
      rw [List.forall_mem_append, List.forall_mem_singleton]
      exact ⟨h.commodities, List.forall_mem_nil _⟩

/-- One more planet of the last system is in order if its name is new and its commodities are
known. -/
theorem wellNamed_append_planet_iff {planet : PlanetRecord} :
    WellNamed commodities factions
        (front ++ [{ record with planets := record.planets ++ [planet] }]) ↔
      WellNamed commodities factions (front ++ [record]) ∧
        planet.name ∉ (front ++ [record]).flatMap SystemRecord.planetNames ∧
        ∀ name ∈ planet.commodities, name ∈ commodities := by
  have hsystems := systemNames_append_planet front record planet
  have hplanets := planetNames_append_planet front record planet
  -- Systems and their factions are what they were: the planet matters to the other two clauses
  -- only.
  constructor
  · intro h
    have hnodup := h.planets
    have hcommodities := h.commodities
    rw [hplanets, nodup_append_singleton_iff] at hnodup
    rw [List.forall_mem_append, List.forall_mem_singleton, List.forall_mem_append,
      List.forall_mem_singleton] at hcommodities
    obtain ⟨hfront, hrecord, hplanet⟩ := hcommodities
    refine ⟨⟨hsystems ▸ h.systems, hnodup.1, ?_, ?_⟩, hnodup.2, hplanet⟩
    · have hfactions := h.factions
      rw [List.forall_mem_append, List.forall_mem_singleton] at hfactions ⊢
      exact hfactions
    · rw [List.forall_mem_append, List.forall_mem_singleton]
      exact ⟨hfront, hrecord⟩
  · rintro ⟨h, hname, hplanet⟩
    constructor
    case systems => exact hsystems ▸ h.systems
    case planets =>
      rw [hplanets, nodup_append_singleton_iff]
      exact ⟨h.planets, hname⟩
    case factions =>
      have hfactions := h.factions
      rw [List.forall_mem_append, List.forall_mem_singleton] at hfactions ⊢
      exact hfactions
    case commodities =>
      have hcommodities := h.commodities
      rw [List.forall_mem_append, List.forall_mem_singleton] at hcommodities ⊢
      rw [List.forall_mem_append, List.forall_mem_singleton]
      exact ⟨hcommodities.1, hcommodities.2, hplanet⟩

/-- Jumps are not looked at. -/
theorem wellNamed_map_withoutJumps_iff :
    WellNamed commodities factions (records.map SystemRecord.withoutJumps) ↔
      WellNamed commodities factions records := by
  have hsystems : (records.map SystemRecord.withoutJumps).map SystemRecord.name =
      records.map SystemRecord.name := List.map_map
  have hplanets : (records.map SystemRecord.withoutJumps).flatMap SystemRecord.planetNames =
      records.flatMap SystemRecord.planetNames := List.flatMap_map _ _ _
  constructor
  · rintro ⟨h₁, h₂, h₃, h₄⟩
    exact ⟨hsystems ▸ h₁, hplanets ▸ h₂, List.forall_mem_map.mp h₃, List.forall_mem_map.mp h₄⟩
  · rintro ⟨h₁, h₂, h₃, h₄⟩
    exact ⟨hsystems ▸ h₁, hplanets ▸ h₂, List.forall_mem_map.mpr h₃, List.forall_mem_map.mpr h₄⟩

end

namespace GalaxyDraft

variable {commodities factions : List String} {diplomacy : Diplomacy} {catalog : Catalog Float}
  {records front back : List SystemRecord} {record : SystemRecord} {draft : GalaxyDraft}
  {key : SystemKey}

/-! ### The first pass -/

/-- A turn of the loop over the planets of the last system. -/
theorem decides_addPlanet (hcatalog : catalog.listings.map (·.commodity.name) = commodities)
    (hcommodities : commodities.Nodup) (path : String)
    (hwell : WellNamed commodities factions (front ++ [record]))
    (hd : draft.Renders commodities factions diplomacy (front ++ [record]))
    (hkey : (record.name, key) ∈ draft.systems) (planet : PlanetRecord) :
    Decides
      (WellNamed commodities factions
        (front ++ [{ record with planets := record.planets ++ [planet] }]))
      (fun draft' => draft'.Renders commodities factions diplomacy
        (front ++ [{ record with planets := record.planets ++ [planet] }]) ∧
          (record.name, key) ∈ draft'.systems)
      LoadError.BlamesFiles (addPlanet catalog path key draft planet) := by
  -- Whatever looks the commodities up takes its answers from the catalog.
  have hresolve : ∀ {look : String → Except LoadError Nat},
      (∀ name i, catalog.find? name = some i → look name = .ok i) →
      (∀ name, catalog.find? name = none →
        look name = .error (.unresolved path name "commodity")) →
      Decides (∀ name ∈ planet.commodities, name ∈ commodities)
        (List.Forall₂ (fun name i => commodities[i]? = some name) planet.commodities)
        LoadError.BlamesFiles (planet.commodities.mapM look) := by
    intro look hfound hmissing
    apply Decides.mapM
    intro name _
    cases hfind : catalog.find? name with
    | some i =>
      have hi := (Catalog.find?_eq_some_iff hcatalog hcommodities).mp hfind
      rw [hfound name i hfind]
      exact ⟨List.mem_of_getElem? hi, hi⟩
    | none =>
      rw [hmissing name hfind]
      refine ⟨fun hmem => ?_, trivial⟩
      obtain ⟨i, hi⟩ := List.mem_iff_getElem?.mp hmem
      rw [(Catalog.find?_eq_some_iff hcatalog hcommodities).mpr hi] at hfind
      cases hfind
  rw [wellNamed_append_planet_iff, and_iff_right hwell, ← hd.fst_planets]
  unfold addPlanet
  apply (Registry.decides_checkFree draft.planets path planet.name).bind
  intro _ _ _
  refine (hresolve (fun name i hfind => ?_) fun name hfind => ?_).bind_ok fun traded _ htraded => ?_
  · rw [hfind]
  · rw [hfind]
  have hplanet : planet.Describes (draft.meaning commodities factions)
      { name := planet.name
        population := planet.population
        inhabited := planet.inhabited?.getD (0 < planet.population)
        commodities := traded } := ⟨rfl, rfl, rfl, htraded⟩
  -- The system is there, so that the galaxy takes the planet.
  obtain ⟨orbiter, galaxy, hadd, hd'⟩ := hd.addPlanet hwell.systems hkey hplanet
  refine ⟨⟨galaxy, draft.systems, draft.planets ++ [(planet.name, orbiter)]⟩, ?_, hd', hkey⟩
  dsimp only
  rw [hadd]
  rfl

/-- A turn of the loop over the systems. -/
theorem decides_addSystem (hcatalog : catalog.listings.map (·.commodity.name) = commodities)
    (hcommodities : commodities.Nodup) (path : String)
    (hwell : WellNamed commodities factions front)
    (hd : draft.Renders commodities factions diplomacy front) (record : SystemRecord) :
    Decides (WellNamed commodities factions (front ++ [record.withoutJumps]))
      (Renders commodities factions diplomacy (front ++ [record.withoutJumps]))
      LoadError.BlamesFiles (addSystem catalog factions.zipIdx path draft record) := by
  have hresolve : Decides (∀ name ∈ record.faction?, name ∈ factions)
      (Option.Rel (fun name i => factions[i]? = some name) record.faction?) LoadError.BlamesFiles
      (record.faction?.mapM (Registry.resolve factions.zipIdx path "faction")) :=
    Decides.optionMapM fun name _ => Registry.decides_resolve_zipIdx factions path "faction" name
  -- The name and the faction are needed for the system alone, before any of its planets.
  have hbare : WellNamed commodities factions (front ++ [record.withoutJumps]) ↔
      record.name ∉ front.map SystemRecord.name ∧ (∀ name ∈ record.faction?, name ∈ factions) ∧
        WellNamed commodities factions (front ++ [record.withoutJumps]) := by
    rw [← and_assoc]
    refine (and_iff_right_of_imp fun h => ?_).symm
    have hsystems := h.systems
    have hfactions := h.factions
    rw [List.map_append, List.map_singleton, nodup_append_singleton_iff] at hsystems
    rw [List.forall_mem_append, List.forall_mem_singleton] at hfactions
    exact ⟨hsystems.2, hfactions.2⟩
  rw [hbare, ← hd.fst_systems]
  unfold addSystem
  apply (Registry.decides_checkFree draft.systems path record.name).bind
  intro _ hname _
  apply hresolve.bind
  intro faction? hfaction hrel
  -- The system is there without planets, and they are read one after the other.
  have hstart := hd.addSystem record hrel
  rw [hd.fst_systems] at hname
  let added := draft.galaxy.addSystem
    { name := record.name, nebula := ⟨record.density, record.volatility⟩, faction? }
  have hbegun : WellNamed commodities factions
      (front ++ [{ record.withoutJumps with planets := [] }]) :=
    wellNamed_append_system_iff.mpr ⟨hwell, hname, hfaction⟩
  refine Decides.congr (P := fun draft' => Renders commodities factions diplomacy
    (front ++ [record.withoutJumps]) draft' ∧ (record.name, added.1) ∈ draft'.systems) ?_ Iff.rfl
    fun _ _ hd' => hd'.1
  refine Decides.foldlM
    (fun planets =>
      WellNamed commodities factions (front ++ [{ record.withoutJumps with planets }]))
    (fun planets draft' => Renders commodities factions diplomacy
      (front ++ [{ record.withoutJumps with planets }]) draft' ∧
        (record.name, added.1) ∈ draft'.systems)
    ⟨hbegun, hstart, List.mem_append_right _ List.mem_cons_self⟩ ?_ ?_
  · intro planets planet hgood
    exact (wellNamed_append_planet_iff.mp hgood).1
  · rintro planets planet _ draft' - hgood ⟨hd', hkey⟩
    exact decides_addPlanet hcatalog hcommodities path hgood hd' hkey planet

/-! ### The second pass -/

/-- A turn of the loop over the jumps of a system. -/
theorem decides_addJumps (path : String)
    (hnodup : ((front ++ record :: back).map SystemRecord.name).Nodup)
    (hd : draft.Renders commodities factions diplomacy (front ++ record.withoutJumps :: back)) :
    Decides (∀ jump ∈ record.jumps,
        jump.target ∈ (front ++ record :: back).map SystemRecord.name)
      (Renders commodities factions diplomacy (front ++ record :: back)) LoadError.BlamesFiles
      (addJumps path draft record) := by
  -- However many jumps were read, the names are the same.
  have hnames : ∀ jumps, (front ++ { record with jumps } :: back).map SystemRecord.name =
      (front ++ record :: back).map SystemRecord.name := by
    intro jumps
    rw [List.map_append, List.map_append]
    rfl
  have hname : record.name ∈ draft.systems.map Prod.fst := by
    rw [hd.fst_systems, SystemRecord.withoutJumps, hnames]
    exact List.mem_map_of_mem (List.mem_append_right _ List.mem_cons_self)
  rw [← and_iff_right (b := ∀ jump ∈ record.jumps, _) hname]
  unfold addJumps
  apply (Registry.decides_resolve draft.systems path "system" record.name).bind
  intro origin _ horigin
  refine Decides.congr (P := fun draft' => Renders commodities factions diplomacy
    (front ++ record :: back) draft' ∧ (record.name, origin) ∈ draft'.systems) ?_ Iff.rfl
    fun _ _ hd' => hd'.1
  refine Decides.foldlM
    (fun jumps => ∀ jump ∈ jumps, jump.target ∈ (front ++ record :: back).map SystemRecord.name)
    (fun jumps draft' => Renders commodities factions diplomacy
      (front ++ { record with jumps } :: back) draft' ∧ (record.name, origin) ∈ draft'.systems)
    ⟨List.forall_mem_nil _, hd, horigin⟩ ?_ ?_
  · intro jumps jump hgood
    exact (List.forall_mem_append.mp hgood).1
  · rintro jumps jump _ draft' - hgood ⟨hd', horigin'⟩
    rw [List.forall_mem_append, List.forall_mem_singleton, and_iff_right hgood, ← hnames jumps,
      ← hd'.fst_systems]
    apply (Registry.decides_resolve draft'.systems path "system" jump.target).bind_ok
    intro target _ htarget
    -- Both systems are there, so that the galaxy takes the jump.
    obtain ⟨galaxy, hadd, hd''⟩ := hd'.addJump ((hnames jumps).symm ▸ hnodup) horigin' htarget
    refine ⟨{ draft' with galaxy }, ?_, hd'', horigin'⟩
    show Except.bind
      ((draft'.galaxy.addJump origin (jump.jump target)).mapError LoadError.galaxy) _ = _
    rw [hadd]
    rfl

/-! ### Both passes -/

/-- **The system records become a galaxy** if their names are in order and all jumps lead to systems
that are there. -/
theorem decides_ofRecords (hcatalog : catalog.listings.map (·.commodity.name) = commodities)
    (hcommodities : commodities.Nodup) (path : String) :
    Decides
      (WellNamed commodities factions records ∧ ∀ record ∈ records, ∀ jump ∈ record.jumps,
        jump.target ∈ records.map SystemRecord.name)
      (Renders commodities factions diplomacy records) LoadError.BlamesFiles
      (ofRecords catalog factions.zipIdx diplomacy path records) := by
  unfold ofRecords
  have hfirst : Decides (WellNamed commodities factions records)
      (Renders commodities factions diplomacy (records.map SystemRecord.withoutJumps))
      LoadError.BlamesFiles
      (records.foldlM (addSystem catalog factions.zipIdx path) { galaxy := { diplomacy } }) := by
    refine Decides.foldlM (WellNamed commodities factions)
      (fun front => Renders commodities factions diplomacy (front.map SystemRecord.withoutJumps))
      ⟨⟨List.nodup_nil, List.nodup_nil, List.forall_mem_nil _, List.forall_mem_nil _⟩,
        renders_empty⟩ (fun front record hgood => hgood.of_append) ?_
    intro front record _ draft _ hgood hd
    rw [← wellNamed_map_withoutJumps_iff, List.map_append, List.map_singleton]
    exact decides_addSystem hcatalog hcommodities path (wellNamed_map_withoutJumps_iff.mpr hgood) hd
      record
  apply hfirst.bind
  intro draft hwell hd
  -- The records in front have all their jumps, those behind have none yet.
  refine Decides.congr (P := fun draft' => ∀ back, records = records ++ back →
    Renders commodities factions diplomacy (records ++ back.map SystemRecord.withoutJumps) draft')
    ?_ Iff.rfl ?_
  · refine Decides.foldlM (fun front => ∀ record ∈ front, ∀ jump ∈ record.jumps,
        jump.target ∈ records.map SystemRecord.name)
      (fun front draft' => ∀ back, records = front ++ back →
        Renders commodities factions diplomacy (front ++ back.map SystemRecord.withoutJumps) draft')
      ⟨List.forall_mem_nil _, ?_⟩ ?_ ?_
    · rintro back rfl
      exact hd
    · intro front record hgood
      exact (List.forall_mem_append.mp hgood).1
    · intro front record back draft' hrecords hgood hd'
      have hnames : (front ++ record :: back.map SystemRecord.withoutJumps).map SystemRecord.name =
          records.map SystemRecord.name := by
        rw [hrecords, List.map_append, List.map_append, List.map_cons, List.map_cons, List.map_map]
        rfl
      have hturn := decides_addJumps path (hnames ▸ hwell.systems) (hd' (record :: back) hrecords)
      rw [hnames] at hturn
      rw [List.forall_mem_append, List.forall_mem_singleton, and_iff_right hgood]
      refine hturn.congr Iff.rfl ?_
      intro draft'' _ hd'' back' hback
      -- What is left is what comes behind the record.
      rw [hrecords, List.append_assoc, List.append_cancel_left_eq] at hback
      obtain rfl : back = back' := List.tail_eq_of_cons_eq hback
      rw [List.append_assoc]
      exact hd''
  · intro draft' _ hd'
    have hall := hd' [] (List.append_nil records).symm
    rw [List.map_nil, List.append_nil] at hall
    exact hall

end GalaxyDraft

end GalaxyMarket
