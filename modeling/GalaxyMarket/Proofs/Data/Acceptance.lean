import GalaxyMarket.Proofs.Data.Passes

/-!
# Which directories are accepted

A galaxy can be made from the records in the files of a directory exactly if the records are
acceptable (`Records.Acceptable`): names differ within their kind, what is referred to is there, no
price is negative, and the tuning makes sense. Otherwise the error is about the files. The checks of
the catalog and of the galaxy for what must not happen there never fail (`load_accepts_exactly`).

`Folder.decides_load` also says what is made; it is put together from what each part of a load
decides.
-/

namespace GalaxyMarket

/-- The records of a galaxy and its tuning, as they are written down. -/
structure Records where
  commodities : List CommodityRecord
  factions : List FactionRecord
  systems : List SystemRecord
  config : Config Float

namespace Records

/-- The names of the commodities, in order. -/
def commodityNames (records : Records) : List String := records.commodities.map CommodityRecord.name

/-- The names of the factions, in order. -/
def factionNames (records : Records) : List String := records.factions.map FactionRecord.name

/-- The names of the systems, in order. -/
def systemNames (records : Records) : List String := records.systems.map SystemRecord.name

/-- **Records that a galaxy can be made from.** -/
structure Acceptable (records : Records) : Prop where
  commodities : records.commodityNames.Nodup
  prices : ∀ record ∈ records.commodities, 0 ≤ record.price
  factions : records.factionNames.Nodup
  standings : ∀ record ∈ records.factions, ∀ other ∈ record.allies ++ record.enemies,
    other ∈ records.factionNames
  systems : WellNamed records.commodityNames records.factionNames records.systems
  jumps : ∀ record ∈ records.systems, ∀ jump ∈ record.jumps, jump.target ∈ records.systemNames
  config : records.config.validate = .ok ()

/-- A check has nothing to say but that it was passed. -/
theorem validate_isOk_iff {config : Config Float} :
    config.validate.isOk = true ↔ config.validate = .ok () := by
  cases config.validate with
  | ok _ => exact iff_of_true rfl rfl
  | error e => exact iff_of_false nofun nofun

instance (records : Records) : Decidable records.Acceptable :=
  decidable_of_iff
    (records.commodityNames.Nodup ∧ (∀ record ∈ records.commodities, 0 ≤ record.price) ∧
      records.factionNames.Nodup ∧
      (∀ record ∈ records.factions, ∀ other ∈ record.allies ++ record.enemies,
        other ∈ records.factionNames) ∧
      WellNamed records.commodityNames records.factionNames records.systems ∧
      (∀ record ∈ records.systems, ∀ jump ∈ record.jumps, jump.target ∈ records.systemNames) ∧
      records.config.validate.isOk = true)
    ⟨fun ⟨h₁, h₂, h₃, h₄, h₅, h₆, h₇⟩ => ⟨h₁, h₂, h₃, h₄, h₅, h₆, validate_isOk_iff.mp h₇⟩,
      fun ⟨h₁, h₂, h₃, h₄, h₅, h₆, h₇⟩ => ⟨h₁, h₂, h₃, h₄, h₅, h₆, validate_isOk_iff.mpr h₇⟩⟩

end Records

namespace Folder

/-- The tuning that a directory asks for, before it is checked. -/
def configRecord (folder : Folder) : Except LoadError (Config Float) := do
  match ← folder.find? "economy" with
  | none => return .standard
  | some name => folder.readValue name Config.decoder

/-- **The records in the files of a directory.** There may be no file of factions, which stands for
no factions, and none for the tuning, which then is the standard one. -/
def records (folder : Folder) : Except LoadError Records := do
  let (_, commodities) ← folder.commodityRecords
  let (_, factions) ← folder.factionRecords
  let (_, systems) ← folder.systemRecords
  return { commodities, factions, systems, config := ← folder.configRecord }

/-- There are records if each of the files can be read. -/
theorem records_eq_ok_iff {folder : Folder} {records : Records} :
    folder.records = .ok records ↔
      (∃ path, folder.commodityRecords = .ok (path, records.commodities)) ∧
      (∃ path, folder.factionRecords = .ok (path, records.factions)) ∧
      (∃ path, folder.systemRecords = .ok (path, records.systems)) ∧
      folder.configRecord = .ok records.config := by
  unfold Folder.records
  constructor
  · intro h
    obtain ⟨⟨cpath, commodities⟩, hcommodities, h⟩ := bind_eq_ok_iff.mp h
    obtain ⟨⟨fpath, factions⟩, hfactions, h⟩ := bind_eq_ok_iff.mp h
    obtain ⟨⟨spath, systems⟩, hsystems, h⟩ := bind_eq_ok_iff.mp h
    obtain ⟨config, hconfig, h⟩ := bind_eq_ok_iff.mp h
    cases h
    exact ⟨⟨cpath, hcommodities⟩, ⟨fpath, hfactions⟩, ⟨spath, hsystems⟩, hconfig⟩
  · rintro ⟨⟨cpath, hcommodities⟩, ⟨fpath, hfactions⟩, ⟨spath, hsystems⟩, hconfig⟩
    rw [hcommodities, hfactions, hsystems, hconfig]
    rfl

/-- Records with some property, if files hold such. -/
theorem exists_records {folder : Folder} {P : Records → Prop} [DecidablePred P]
    (h : (folder.records.toOption.any fun records => decide (P records)) = true) :
    ∃ records, folder.records = .ok records ∧ P records := by
  cases hrecords : folder.records with
  | ok records =>
    rw [hrecords] at h
    exact ⟨records, rfl, of_decide_eq_true h⟩
  | error e =>
    rw [hrecords] at h
    cases h

/-! ### Reading files -/

section

variable {folder : Folder} {e : LoadError}

/-- Whatever goes wrong in finding a file, -/
theorem blamesFiles_of_find? {base : String} (h : folder.find? base = .error e) :
    e.BlamesFiles := by
  unfold find? at h
  dsimp only at h
  split at h
  all_goals cases h
  trivial

/-- in finding one that has to be there, -/
theorem blamesFiles_of_require {base : String} (h : folder.require base = .error e) :
    e.BlamesFiles := by
  obtain h | ⟨name?, -, h⟩ := bind_eq_error_iff.mp h
  · exact blamesFiles_of_find? h
  · cases name? with
    | none =>
      cases h
      trivial
    | some name => cases h

/-- in reading it, -/
theorem blamesFiles_of_read {name : String} (h : folder.read name = .error e) : e.BlamesFiles := by
  unfold read at h
  split at h
  all_goals cases h
  all_goals trivial

/-- in making a value -/
theorem blamesFiles_of_readValue {β : Type} {name : String} {content : Decoder β}
    (h : folder.readValue name content = .error e) : e.BlamesFiles := by
  obtain h | ⟨⟨format, text⟩, -, h⟩ := bind_eq_error_iff.mp h
  · exact blamesFiles_of_read h
  · dsimp only at h
    split at h
    · cases h
    · cases h
      trivial

/-- or a list of values of its text, is put down to the files. -/
theorem blamesFiles_of_readList {β : Type} {name key : String} {item : Decoder β}
    (h : folder.readList name key item = .error e) : e.BlamesFiles := by
  obtain h | ⟨⟨format, text⟩, -, h⟩ := bind_eq_error_iff.mp h
  · exact blamesFiles_of_read h
  · dsimp only at h
    split at h
    · cases h
    · cases h
      trivial

/-- So it is with the records of commodities, -/
theorem blamesFiles_of_commodityRecords (h : folder.commodityRecords = .error e) :
    e.BlamesFiles := by
  obtain h | ⟨name, -, h⟩ := bind_eq_error_iff.mp h
  · exact blamesFiles_of_require h
  · obtain h | ⟨records, -, h⟩ := bind_eq_error_iff.mp h
    · exact blamesFiles_of_readList h
    · cases h

/-- of factions -/
theorem blamesFiles_of_factionRecords (h : folder.factionRecords = .error e) :
    e.BlamesFiles := by
  obtain h | ⟨name?, -, h⟩ := bind_eq_error_iff.mp h
  · exact blamesFiles_of_find? h
  · cases name? with
    | none => cases h
    | some name =>
      obtain h | ⟨records, -, h⟩ := bind_eq_error_iff.mp h
      · exact blamesFiles_of_readList h
      · cases h

/-- and of systems. -/
theorem blamesFiles_of_systemRecords (h : folder.systemRecords = .error e) : e.BlamesFiles := by
  obtain h | ⟨name, -, h⟩ := bind_eq_error_iff.mp h
  · exact blamesFiles_of_require h
  · obtain h | ⟨records, -, h⟩ := bind_eq_error_iff.mp h
    · exact blamesFiles_of_readList h
    · cases h

end

/-! ### The tuning -/

/-- The standard tuning makes sense. -/
theorem validate_standard : (Config.standard : Config Float).validate = .ok () :=
  Records.validate_isOk_iff.mp (by decide +kernel)

/-- A tuning is loaded as it is written down, if it makes sense. -/
theorem decides_loadConfig (folder : Folder) :
    Decides (∃ config, folder.configRecord = .ok config ∧ config.validate = .ok ())
      (fun config => folder.configRecord = .ok config) LoadError.BlamesFiles folder.loadConfig := by
  unfold loadConfig configRecord
  -- Without a file for the tuning there is nothing that could go wrong.
  cases hfind : folder.find? "economy" with
  | error e =>
    refine ⟨?_, blamesFiles_of_find? hfind⟩
    rintro ⟨config, hconfig, -⟩
    cases hconfig
  | ok name? =>
    cases name? with
    | none => exact ⟨⟨.standard, rfl, validate_standard⟩, rfl⟩
    | some name =>
      show Decides (∃ config, folder.readValue name Config.decoder = .ok config ∧ _)
        (fun config => folder.readValue name Config.decoder = .ok config) _
        (folder.readValue name Config.decoder >>= _)
      apply Decides.bind_exists fun e h => blamesFiles_of_readValue h
      intro config hconfig
      cases hvalid : config.validate with
      | ok _ => exact ⟨rfl, hconfig⟩
      | error e => exact ⟨nofun, trivial⟩

end Folder

/-! ### Whole directories -/

/-- **What is made of some records**: the parts of the data are made from the parts of the records.
-/
structure GalaxyData.IsMadeOf (folder : Folder) (host : ScriptHost) (records : Records)
    (data : GalaxyData) : Prop where
  listings_eq : data.catalog.listings =
    records.commodities.map (CommodityRecord.listing folder host)
  factions_eq : data.factions = records.factionNames.zipIdx
  standings : data.galaxy.diplomacy.Echoes records.factionNames
    (records.factions.flatMap FactionRecord.mentions)
  systems : GalaxyDraft.Renders records.commodityNames records.factionNames data.galaxy.diplomacy
    records.systems ⟨data.galaxy, data.systems, data.planets⟩
  config_eq : data.config = records.config

/-- **Loading** makes a galaxy from the records in the files exactly if they are acceptable. -/
theorem Folder.decides_load (folder : Folder) (host : ScriptHost) :
    Decides (∃ records, folder.records = .ok records ∧ records.Acceptable)
      (fun data => ∃ records, folder.records = .ok records ∧ records.Acceptable ∧
        data.IsMadeOf folder host records)
      LoadError.BlamesFiles (folder.load host) := by
  unfold load
  -- The condition, in the order in which a load comes across it.
  have hcondition : (∃ records, folder.records = .ok records ∧ records.Acceptable) ↔
      ∃ cs, folder.commodityRecords = .ok cs ∧
        ((cs.2.map CommodityRecord.name).Nodup ∧ ∀ record ∈ cs.2, 0 ≤ record.price) ∧
        ∃ fs, folder.factionRecords = .ok fs ∧
          ((fs.2.map FactionRecord.name).Nodup ∧
            ∀ record ∈ fs.2, ∀ other ∈ record.allies ++ record.enemies,
              other ∈ fs.2.map FactionRecord.name) ∧
          ∃ ss, folder.systemRecords = .ok ss ∧
            (WellNamed (cs.2.map CommodityRecord.name) (fs.2.map FactionRecord.name) ss.2 ∧
              ∀ record ∈ ss.2, ∀ jump ∈ record.jumps,
                jump.target ∈ ss.2.map SystemRecord.name) ∧
            ∃ config, folder.configRecord = .ok config ∧ config.validate = .ok () := by
    constructor
    · rintro ⟨records, hrecords, hacceptable⟩
      obtain ⟨⟨cpath, hcs⟩, ⟨fpath, hfs⟩, ⟨spath, hss⟩, hconfig⟩ := records_eq_ok_iff.mp hrecords
      exact ⟨_, hcs, ⟨hacceptable.commodities, hacceptable.prices⟩, _, hfs,
        ⟨hacceptable.factions, hacceptable.standings⟩, _, hss,
        ⟨hacceptable.systems, hacceptable.jumps⟩, _, hconfig, hacceptable.config⟩
    · rintro ⟨⟨cpath, cs⟩, hcs, ⟨hcommodities, hprices⟩, ⟨fpath, fs⟩, hfs,
        ⟨hfactions, hstandings⟩, ⟨spath, ss⟩, hss, ⟨hsystems, hjumps⟩, config, hconfig, hvalid⟩
      exact ⟨⟨cs, fs, ss, config⟩,
        records_eq_ok_iff.mpr ⟨⟨cpath, hcs⟩, ⟨fpath, hfs⟩, ⟨spath, hss⟩, hconfig⟩,
        ⟨hcommodities, hprices, hfactions, hstandings, hsystems, hjumps, hvalid⟩⟩
  -- From here on each part of the load meets its part of the condition.
  rw [hcondition]
  apply Decides.bind_exists fun e he => blamesFiles_of_commodityRecords he
  rintro ⟨cpath, cs⟩ hcs
  apply (Catalog.decides_ofRecords folder host cpath cs).bind
  intro catalog hcommodities hcatalog
  apply Decides.bind_exists fun e he => blamesFiles_of_factionRecords he
  rintro ⟨fpath, fs⟩ hfs
  apply (Diplomacy.decides_ofRecords fpath fs).bind
  rintro ⟨_, diplomacy⟩ hfactions ⟨rfl, hechoes⟩
  apply Decides.bind_exists fun e he => blamesFiles_of_systemRecords he
  rintro ⟨spath, ss⟩ hss
  have hnames : catalog.listings.map (·.commodity.name) = cs.map CommodityRecord.name := by
    rw [hcatalog, List.map_map]
    rfl
  apply (GalaxyDraft.decides_ofRecords hnames hcommodities.1 spath).bind
  intro draft hsystems hdraft
  apply folder.decides_loadConfig.bind_ok
  intro config hconfig hread
  obtain ⟨config', hread', hvalid⟩ := hconfig
  obtain rfl := Except.ok.inj (hread'.symm.trans hread)
  refine ⟨_, rfl, ⟨cs, fs, ss, config'⟩,
    records_eq_ok_iff.mpr ⟨⟨cpath, hcs⟩, ⟨fpath, hfs⟩, ⟨spath, hss⟩, hread⟩, ?_, ?_⟩
  · exact ⟨hcommodities.1, hcommodities.2, hfactions.1, hfactions.2, hsystems.1, hsystems.2, hvalid⟩
  · obtain rfl := hdraft.diplomacy_eq
    exact ⟨hcatalog, rfl, hechoes, hdraft, rfl⟩

/-- **A directory is accepted exactly if its records are acceptable**, whatever the host does with
scripts. No error says that the galaxy or the catalog was misused: a system that is not there, a
commodity that was registered twice or is not found. -/
theorem load_accepts_exactly (folder : Folder) (host : ScriptHost) :
    (∀ records, folder.records = .ok records →
      ((∃ data, folder.load host = .ok data) ↔ records.Acceptable)) ∧
    ∀ e, folder.load host = .error e → (∀ error, e ≠ .galaxy error) ∧
      ∀ name, e ≠ .catalog (.duplicate name) ∧ e ≠ .catalog (.notFound name) := by
  have hload := folder.decides_load host
  constructor
  · intro records hrecords
    rw [hload.exists_eq_ok_iff]
    constructor
    · rintro ⟨records', hrecords', hacceptable⟩
      cases hrecords.symm.trans hrecords'
      exact hacceptable
    · exact fun hacceptable => ⟨records, hrecords, hacceptable⟩
  · intro e he
    have hblames := (hload.of_error he).2
    -- None of these is an error about the files.
    refine ⟨?_, fun name => ⟨?_, ?_⟩⟩
    · rintro error rfl
      exact hblames
    · rintro rfl
      exact hblames
    · rintro rfl
      exact hblames

/-- A directory with two systems, where a jump leads to the one that comes later. -/
def frontier : Folder where
  path := "frontier"
  entries := [("commodities.ron", .text "[(name: \"Food\", price: 100)]"),
    ("systems.ron", .text "[(name: \"Alpha\", jumps: [(target: \"Beta\")], planets: [(name: \"Alpha I\",
      population: 10, commodities: [\"Food\"])]), (name: \"Beta\")]")]

/-- A directory with a jump to a system that is nowhere. -/
def limbo : Folder where
  path := "limbo"
  entries := [("commodities.ron", .text "[]"),
    ("systems.ron", .text "[(name: \"Alpha\", jumps: [(target: \"Nowhere\")])]")]

/-- The first directory is accepted. The second one is not, and the error is not that of a galaxy.
-/
theorem load_accepts_exactly_frontier :
    (∃ data, frontier.load .none = .ok data) ∧
      ∃ e, limbo.load .none = .error e ∧ ∀ error, e ≠ .galaxy error := by
  constructor
  · obtain ⟨records, hrecords, hacceptable⟩ := Folder.exists_records (P := Records.Acceptable)
      (show (frontier.records.toOption.any fun records => decide records.Acceptable) = true by
        decide +kernel)
    exact ((load_accepts_exactly frontier .none).1 records hrecords).mpr hacceptable
  · obtain ⟨records, hrecords, hrefused⟩ :=
      Folder.exists_records (P := fun records => ¬records.Acceptable)
        (show (limbo.records.toOption.any fun records => decide ¬records.Acceptable) = true by
          decide +kernel)
    obtain ⟨haccepts, hblames⟩ := load_accepts_exactly limbo .none
    cases hload : limbo.load .none with
    | ok data => exact absurd ((haccepts records hrecords).mp ⟨data, hload⟩) hrefused
    | error e => exact ⟨e, rfl, (hblames e hload).1⟩

end GalaxyMarket
