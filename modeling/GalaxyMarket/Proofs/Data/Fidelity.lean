import GalaxyMarket.Proofs.Data.Acceptance

/-!
# A loaded galaxy is what its records say

Whatever a directory holds: if a galaxy is made from it, then it shows the records in their order,
each name stands for what the record of this name became, and nothing else is there
(`load_faithful`). What was written down more than once counts in the way that `lastMention` and
`lastJumpTo?` tell.

What is made of the records is known from the steps of a load (`GalaxyData.IsMadeOf`). It remains to
see that the names which were used on the way are those that can be looked up in the end
(`GalaxyData.IsMadeOf.within`).
-/

namespace GalaxyMarket

/-- What names stand for in loaded data. -/
def GalaxyData.meaning (data : GalaxyData) : Meaning where
  commodity name i := data.catalog.find? name = some i
  faction name i := data.factions.lookup name = some i
  system name key := data.systems.lookup name = some key
  planet name key := data.planets.lookup name = some key

/-- The script of a commodity loads and gives a source. -/
def CommodityRecord.Scripted (folder : Folder) (host : ScriptHost) (record : CommodityRecord)
    (source : Source Float) : Prop :=
  ∃ script, record.script? = some script ∧ host record.name (folder.join script) = .ok source

/-- **A commodity is listed as its record says.** It has a source if its script loads or if it has a
curve, and the script goes first. -/
structure CommodityRecord.Lists (folder : Folder) (host : ScriptHost) (record : CommodityRecord)
    (l : Listing Float) : Prop where
  commodity_eq : l.commodity =
    { name := record.name, description := record.description, basePrice := record.price }
  isSome_source?_iff : l.source?.isSome = true ↔
    (∃ source, record.Scripted folder host source) ∨ record.curve?.isSome = true
  scripted : ∀ source, record.Scripted folder host source → l.source? = some source
  curved : (∀ source, ¬record.Scripted folder host source) →
    l.source? = record.curve?.map CurveRecord.source

/-- **Data that is what some records say.** -/
structure GalaxyData.IsFaithful (folder : Folder) (host : ScriptHost) (records : Records)
    (data : GalaxyData) : Prop where
  /-- The catalog lists the commodities in order, -/
  commodities : List.Forall₂ (CommodityRecord.Lists folder host) records.commodities
    data.catalog.listings
  /-- the galaxy has the systems in order, with their planets and jumps, -/
  systems : List.Forall₂ (fun record entry =>
    record.Describes data.meaning data.galaxy entry.1 entry.2)
    records.systems data.galaxy.systems.toList
  /-- there are no more planets, -/
  planets_length : data.galaxy.planets.keys.length =
    (records.systems.flatMap SystemRecord.planetNames).length
  /-- different factions stand to each other as it was mentioned last, -/
  standings : ∀ i j a b, records.factionNames[i]? = some a → records.factionNames[j]? = some b →
    i ≠ j →
    (data.galaxy.diplomacy.allies i j = true ↔
      lastMention (records.factions.flatMap FactionRecord.mentions) a b = .allied) ∧
    (data.galaxy.diplomacy.enemies i j = true ↔
      lastMention (records.factions.flatMap FactionRecord.mentions) a b = .hostile)
  /-- and a name stands for the one thing whose record has it. -/
  commodity_names : ∀ name i, data.meaning.commodity name i ↔
    records.commodityNames[i]? = some name
  faction_names : ∀ name i, data.meaning.faction name i ↔ records.factionNames[i]? = some name
  system_names : ∀ name key, data.meaning.system name key ↔
    ∃ i : ℕ, records.systemNames[i]? = some name ∧ data.galaxy.systems.keys[i]? = some key
  planet_names : ∀ name key, data.meaning.planet name key ↔
    ∃ i : ℕ, (records.systems.flatMap SystemRecord.planetNames)[i]? = some name ∧
      data.galaxy.planets.keys[i]? = some key
  config_eq : data.config = records.config

/-! ### Commodities -/

/-- The listing that is made of a record lists it. -/
theorem CommodityRecord.lists_listing (folder : Folder) (host : ScriptHost)
    (record : CommodityRecord) : record.Lists folder host (record.listing folder host) := by
  -- What becomes of the script, if there is one.
  have hsource : record.source? folder host =
      (record.script?.bind fun script => (host record.name (folder.join script)).toOption).or
        (record.curve?.map CurveRecord.source) := by
    unfold CommodityRecord.source?
    exact Option.orElse_eq_or
  have hscripted : ∀ source, record.Scripted folder host source ↔
      (record.script?.bind fun script =>
        (host record.name (folder.join script)).toOption) = some source := by
    intro source
    rw [Option.bind_eq_some_iff]
    unfold CommodityRecord.Scripted
    apply exists_congr
    intro script
    cases host record.name (folder.join script) with
    | ok loaded => simp only [Except.toOption, Option.some.injEq, Except.ok.injEq]
    | error reason => simp only [Except.toOption, reduceCtorEq]
  constructor
  case commodity_eq => rfl
  case isSome_source?_iff =>
    show (record.source? folder host).isSome = true ↔ _
    simp only [hscripted]
    rw [hsource, Option.isSome_or, Bool.or_eq_true, Option.isSome_map, Option.isSome_iff_exists]
  case scripted =>
    intro source h
    show record.source? folder host = some source
    rw [hsource, (hscripted source).mp h]
    rfl
  case curved =>
    -- Without a script that loads, what it gives is nothing.
    intro hnone
    show record.source? folder host = _
    rw [hsource, Option.eq_none_iff_forall_ne_some.mpr fun source h =>
      hnone source ((hscripted source).mpr h)]
    rfl

/-! ### From the way it is made to what is there -/

/-- What stands side by side in two lists stands at one place in both. -/
theorem mem_zip_iff {α β : Type} {l : List α} {m : List β} {a : α} {b : β} :
    (a, b) ∈ l.zip m ↔ ∃ i : ℕ, l[i]? = some a ∧ m[i]? = some b := by
  rw [List.mem_iff_getElem?]
  simp only [List.getElem?_zip_eq_some]

/-- Factions that were spoken of stand to each other as it was said. -/
theorem Diplomacy.Echoes.standings {names : List String}
    {mentions : List (String × String × Standing)} {d : Diplomacy} (h : d.Echoes names mentions)
    {i j : ℕ} {a b : String} (ha : names[i]? = some a) (hb : names[j]? = some b) (hne : i ≠ j) :
    (d.allies i j = true ↔ lastMention mentions a b = .allied) ∧
      (d.enemies i j = true ↔ lastMention mentions a b = .hostile) := by
  rw [d.allies_iff_of_ne hne, d.enemies_iff_of_ne hne, h a b i j ha hb]
  exact ⟨Iff.rfl, Iff.rfl⟩

namespace GalaxyData.IsMadeOf

variable {folder : Folder} {host : ScriptHost} {records : Records} {data : GalaxyData}

section

variable (hdata : data.IsMadeOf folder host records) (hacceptable : records.Acceptable)
include hdata hacceptable

/-- A name stands for the commodity of its record, -/
theorem commodity_iff {name : String} {i : ℕ} :
    data.meaning.commodity name i ↔ records.commodityNames[i]? = some name := by
  apply Catalog.find?_eq_some_iff _ hacceptable.commodities
  rw [hdata.listings_eq, List.map_map]
  rfl

/-- for the faction of its record, -/
theorem faction_iff {name : String} {i : ℕ} :
    data.meaning.faction name i ↔ records.factionNames[i]? = some name := by
  -- Factions are numbered by their place, so that different names have different entries.
  have hnodup : (records.factionNames.zipIdx.map Prod.fst).Nodup := by
    rw [List.zipIdx_map_fst]
    exact hacceptable.factions
  show data.factions.lookup name = some i ↔ _
  rw [hdata.factions_eq]
  exact (Registry.lookup_eq_some_iff hnodup).trans List.mem_zipIdx_iff_getElem?

/-- for the system that was entered under it, -/
theorem system_iff {name : String} {key : SystemKey} :
    data.meaning.system name key ↔ (name, key) ∈ data.systems := by
  apply Registry.lookup_eq_some_iff
  rw [hdata.systems.fst_systems]
  exact hacceptable.systems.systems

/-- or for the planet that was. -/
theorem planet_iff {name : String} {key : PlanetKey} :
    data.meaning.planet name key ↔ (name, key) ∈ data.planets := by
  apply Registry.lookup_eq_some_iff
  rw [hdata.systems.fst_planets]
  exact hacceptable.systems.planets

/-- **What names stood for when the systems were made is what can be looked up.** -/
theorem within :
    (GalaxyDraft.meaning ⟨data.galaxy, data.systems, data.planets⟩ records.commodityNames
      records.factionNames).Within data.meaning := by
  constructor
  case commodity => exact (hdata.commodity_iff hacceptable).mpr
  case faction => exact (hdata.faction_iff hacceptable).mpr
  case system => exact (hdata.system_iff hacceptable).mpr
  case planet => exact (hdata.planet_iff hacceptable).mpr

/-- All that was shown on the way holds of what there is in the end. -/
theorem isFaithful : data.IsFaithful folder host records := by
  constructor
  case commodities =>
    rw [hdata.listings_eq, List.forall₂_map_right_iff]
    exact List.forall₂_same.mpr fun record _ => record.lists_listing folder host
  case systems =>
    -- Only what names stand for is put in another way.
    refine List.Forall₂.imp ?_ hdata.systems.shown
    intro record entry hshown
    exact hshown.imp (hdata.within hacceptable) id
  case planets_length => exact hdata.systems.planets_length.symm
  case standings =>
    intro i j a b ha hb hne
    exact hdata.standings.standings ha hb hne
  case commodity_names =>
    intro name i
    exact hdata.commodity_iff hacceptable
  case faction_names =>
    intro name i
    exact hdata.faction_iff hacceptable
  case system_names =>
    intro name key
    have hsystems : data.systems = records.systemNames.zip data.galaxy.systems.keys :=
      hdata.systems.systems_eq
    rw [hdata.system_iff hacceptable, hsystems, mem_zip_iff]
  case planet_names =>
    intro name key
    have hplanets : data.planets =
        (records.systems.flatMap SystemRecord.planetNames).zip data.galaxy.planets.keys :=
      hdata.systems.planets_eq
    rw [hdata.planet_iff hacceptable, hplanets, mem_zip_iff]
  case config_eq => exact hdata.config_eq

end

end GalaxyData.IsMadeOf

/-- **A loaded galaxy is what the records in its files say.** -/
theorem load_faithful {folder : Folder} {host : ScriptHost} {data : GalaxyData}
    (h : folder.load host = .ok data) :
    ∃ records, folder.records = .ok records ∧ data.IsFaithful folder host records := by
  obtain ⟨-, records, hrecords, hacceptable, hdata⟩ := (folder.decides_load host).of_ok h
  exact ⟨records, hrecords, hdata.isFaithful hacceptable⟩

/-- A directory that says things twice: the Reds call the Blues allies, but the Blues call them
enemies, and there are two jumps between the same systems. -/
def quarrel : Folder where
  path := "quarrel"
  entries := [("commodities.ron", .text "[]"),
    ("factions.ron", .text "[(name: \"Reds\", allies: [\"Blues\"]), (name: \"Blues\",
      enemies: [\"Reds\"])]"),
    ("systems.ron", .text "[(name: \"Alpha\", jumps: [(target: \"Beta\"), (target: \"Beta\",
      hidden: true)]), (name: \"Beta\")]")]

/-- The records of this directory, as far as they contradict each other. -/
def Records.Quarrel (records : Records) : Prop :=
  records.factionNames = ["Reds", "Blues"] ∧
    lastMention (records.factions.flatMap FactionRecord.mentions) "Reds" "Blues" = .hostile ∧
    ∃ record ∈ records.systems, (record.jumps.map JumpRecord.target).eraseDups = ["Beta"] ∧
      (lastJumpTo? record.jumps "Beta").any JumpRecord.hidden = true

instance (records : Records) : Decidable records.Quarrel := by
  unfold Records.Quarrel
  infer_instance

/-- The Reds and the Blues are enemies, and there is one hidden jump. -/
theorem load_faithful_quarrel : ∃ data, quarrel.load .none = .ok data ∧
    data.galaxy.diplomacy.enemies 0 1 = true ∧
    ∃ entry ∈ data.galaxy.systems.toList, ∃ jump, entry.2.jumps = [jump] ∧ jump.hidden = true := by
  obtain ⟨records, hrecords, hacceptable, hfactions, hhostile, record, hrecord, htargets,
      hhidden⟩ :=
    Folder.exists_records (P := fun records => records.Acceptable ∧ records.Quarrel)
      (show (quarrel.records.toOption.any fun records =>
        decide (records.Acceptable ∧ records.Quarrel)) = true by decide +kernel)
  obtain ⟨data, hload⟩ : ∃ data, quarrel.load .none = .ok data :=
    (quarrel.decides_load .none).exists_eq_ok_iff.mpr ⟨records, hrecords, hacceptable⟩
  obtain ⟨records', hrecords', hfaithful⟩ := load_faithful hload
  cases hrecords.symm.trans hrecords'
  refine ⟨data, hload, ?_, ?_⟩
  · have hstandings := hfaithful.standings 0 1 "Reds" "Blues" (by rw [hfactions]; rfl)
      (by rw [hfactions]; rfl) Nat.zero_ne_one
    exact hstandings.2.mpr hhostile
  -- The two jumps have one target, so that there is one jump, with the marks of the second.
  · obtain ⟨entry, hentry, hdescribes⟩ := exists_of_mem_left hfaithful.systems hrecord
    refine ⟨entry, hentry, ?_⟩
    have hjumps := hdescribes.jumps
    unfold JumpRecord.Describe at hjumps
    rw [htargets, List.forall₂_cons_left_iff] at hjumps
    obtain ⟨jump, rest, ⟨last, key, hlast, -, rfl⟩, hrest, heq⟩ := hjumps
    cases hrest
    rw [hlast] at hhidden
    exact ⟨last.jump key, heq, hhidden⟩

end GalaxyMarket
