import GalaxyMarket.Data.Folder

/-!
# Loading a galaxy

Makes a catalog, a galaxy and a tuning from the records of a directory. Names in the records become
places and keys: commodities and factions by their order, systems and planets by the keys that the
galaxy gives them. Names have to be different within their kind, and every name that is referred to
has to be there; a jump may lead to a system that comes later.

A commodity is supplied by its script, if it has one that loads, else by its curve. Scripts are
loaded by a host; whatever it does, it is asked once for each commodity, so that it can be taken as
a function.
-/

namespace GalaxyMarket

/-- Loads the script of a commodity from a path, or says why it cannot. -/
abbrev ScriptHost := (commodity path : String) → Except String (Source Float)

/-- The host that loads nothing. -/
def ScriptHost.none : ScriptHost := fun _ path =>
  .error s!"no script host available for {path}"

/-- Keys by name, in order. -/
abbrev Registry (κ : Type) := List (String × κ)

/-- A galaxy made from data files, with the names by which it was made. -/
structure GalaxyData where
  catalog : Catalog Float
  galaxy : Galaxy Float
  config : Config Float
  systems : Registry SystemKey
  planets : Registry PlanetKey
  factions : Registry Nat

namespace Registry

variable {κ : Type}

/-- The key of a name that is referred to. -/
def resolve (names : Registry κ) (path kind name : String) : Except LoadError κ :=
  match names.lookup name with
  | some key => .ok key
  | none => .error (.unresolved path name kind)

/-- Refuses a name that is taken. -/
def checkFree (names : Registry κ) (path name : String) : Except LoadError Unit :=
  if (names.lookup name).isSome then .error (.duplicateName path name) else .ok ()

end Registry

/-! ### Commodities -/

/-- The source that a curve describes. -/
def CurveRecord.source (curve : CurveRecord) : Source Float :=
  let base : Sample Float := ⟨curve.supply, curve.demand⟩
  if 0.0 < curve.jitter then .ofSeed base curve.jitter curve.seed.toUInt64 else .constant base

/-- The source of a commodity: that of its script, if it loads, else that of its curve. -/
def CommodityRecord.source? (folder : Folder) (host : ScriptHost) (record : CommodityRecord) :
    Option (Source Float) :=
  let scripted := record.script?.bind fun script =>
    (host record.name (folder.join script)).toOption
  scripted <|> record.curve?.map CurveRecord.source

/-- What a commodity record puts into the catalog. -/
def CommodityRecord.listing (folder : Folder) (host : ScriptHost) (record : CommodityRecord) :
    Listing Float where
  commodity :=
    { name := record.name, description := record.description, basePrice := record.price }
  source? := record.source? folder host

/-- Adds a commodity whose name is new to a draft. -/
def CatalogDraft.addRecord (folder : Folder) (host : ScriptHost) (path : String)
    (draft : CatalogDraft Float) (record : CommodityRecord) :
    Except LoadError (CatalogDraft Float) :=
  if (draft.find? record.name).isSome then .error (.duplicateName path record.name)
  else (draft.add (record.listing folder host)).mapError .catalog

/-- The catalog of some records. -/
def Catalog.ofRecords (folder : Folder) (host : ScriptHost) (path : String)
    (records : List CommodityRecord) : Except LoadError (Catalog Float) := do
  let draft ← records.foldlM (CatalogDraft.addRecord folder host path) {}
  draft.freeze.mapError .catalog

/-- The records in front of the first one whose name came before. -/
def distinctFront (seen : List String) : List CommodityRecord → List CommodityRecord
  | [] => []
  | record :: records =>
    if seen.contains record.name then []
    else record :: distinctFront (record.name :: seen) records

/-- The scripts that a host is asked for, in order, each with the commodity that names it. -/
def scriptCalls (folder : Folder) (records : List CommodityRecord) : List (String × String) :=
  (distinctFront [] records).filterMap fun record =>
    record.script?.map fun script => (record.name, folder.join script)

/-! ### Factions -/

/-- The factions of some records, numbered in order. -/
def factionRegistry (path : String) (records : List FactionRecord) :
    Except LoadError (Registry Nat) :=
  records.foldlM (fun names record => do
    Registry.checkFree names path record.name
    return names ++ [(record.name, names.length)]) []

/-- Sets the standing of one faction to others. -/
def Diplomacy.declareAll (names : Registry Nat) (path : String) (faction : Nat)
    (standing : Standing) (others : List String) (d : Diplomacy) : Except LoadError Diplomacy :=
  others.foldlM (fun d other => do
    return d.declare faction (← names.resolve path "faction" other) standing) d

/-- Sets what a faction record says, the allies before the enemies. -/
def Diplomacy.addRecord (names : Registry Nat) (path : String) (d : Diplomacy)
    (record : FactionRecord) : Except LoadError Diplomacy := do
  let faction ← names.resolve path "faction" record.name
  let d ← d.declareAll names path faction .allied record.allies
  d.declareAll names path faction .hostile record.enemies

/-- The factions of some records and how they stand to each other. -/
def Diplomacy.ofRecords (path : String) (records : List FactionRecord) :
    Except LoadError (Registry Nat × Diplomacy) := do
  let names ← factionRegistry path records
  return (names, ← records.foldlM (addRecord names path) {})

/-! ### Systems and planets -/

/-- A galaxy in the making, with the names used so far. -/
structure GalaxyDraft where
  galaxy : Galaxy Float
  systems : Registry SystemKey := []
  planets : Registry PlanetKey := []

/-- Adds a planet whose name is new to a system. -/
def GalaxyDraft.addPlanet (catalog : Catalog Float) (path : String) (system : SystemKey)
    (draft : GalaxyDraft) (record : PlanetRecord) : Except LoadError GalaxyDraft := do
  draft.planets.checkFree path record.name
  let commodities ← record.commodities.mapM fun name =>
    match catalog.find? name with
    | some i => .ok i
    | none => .error (.unresolved path name "commodity")
  let planet : Planet :=
    { name := record.name
      population := record.population
      inhabited := record.inhabited?.getD (0 < record.population)
      commodities }
  let (key, galaxy) ← (draft.galaxy.addPlanet system planet).mapError .galaxy
  return { draft with galaxy, planets := draft.planets ++ [(record.name, key)] }

/-- Adds a system whose name is new, and its planets. -/
def GalaxyDraft.addSystem (catalog : Catalog Float) (factions : Registry Nat) (path : String)
    (draft : GalaxyDraft) (record : SystemRecord) : Except LoadError GalaxyDraft := do
  draft.systems.checkFree path record.name
  let faction? ← record.faction?.mapM (factions.resolve path "faction")
  let (key, galaxy) := draft.galaxy.addSystem
    { name := record.name, nebula := ⟨record.density, record.volatility⟩, faction? }
  let draft := { draft with galaxy, systems := draft.systems ++ [(record.name, key)] }
  record.planets.foldlM (addPlanet catalog path key) draft

/-- Adds the jumps of a system. -/
def GalaxyDraft.addJumps (path : String) (draft : GalaxyDraft) (record : SystemRecord) :
    Except LoadError GalaxyDraft := do
  let origin ← draft.systems.resolve path "system" record.name
  record.jumps.foldlM (fun draft jump => do
    let target ← draft.systems.resolve path "system" jump.target
    let galaxy ← (draft.galaxy.addJump origin
      { target, exitOnly := jump.exitOnly, hidden := jump.hidden }).mapError .galaxy
    return { draft with galaxy }) draft

/-- The galaxy of some records: first all systems and planets, then the jumps. -/
def GalaxyDraft.ofRecords (catalog : Catalog Float) (factions : Registry Nat)
    (diplomacy : Diplomacy) (path : String) (records : List SystemRecord) :
    Except LoadError GalaxyDraft := do
  let draft ← records.foldlM (addSystem catalog factions path) { galaxy := { diplomacy } }
  records.foldlM (addJumps path) draft

/-! ### Directories -/

namespace Folder

/-- The commodity records of a directory, and the path of their file. -/
def commodityRecords (folder : Folder) : Except LoadError (String × List CommodityRecord) := do
  let name ← folder.require "commodities"
  return (folder.join name, ← folder.readList name "commodities" CommodityRecord.decoder)

/-- The faction records of a directory, and the path of their file. Without a file there are none,
and the path does not matter. -/
def factionRecords (folder : Folder) : Except LoadError (String × List FactionRecord) := do
  match ← folder.find? "factions" with
  | none => return (folder.path, [])
  | some name => return (folder.join name, ← folder.readList name "factions" FactionRecord.decoder)

/-- The system records of a directory, and the path of their file. -/
def systemRecords (folder : Folder) : Except LoadError (String × List SystemRecord) := do
  let name ← folder.require "systems"
  return (folder.join name, ← folder.readList name "systems" SystemRecord.decoder)

/-- The tuning that a directory asks for, if it asks for one. -/
def loadConfig (folder : Folder) : Except LoadError (Config Float) := do
  match ← folder.find? "economy" with
  | none => return .standard
  | some name =>
    let config ← folder.readValue name Config.decoder
    config.validate.mapError (.config (folder.join name))
    return config

/-- Makes a galaxy from a directory. -/
def load (folder : Folder) (host : ScriptHost) : Except LoadError GalaxyData := do
  let (path, records) ← folder.commodityRecords
  let catalog ← Catalog.ofRecords folder host path records
  let (path, records) ← folder.factionRecords
  let (factions, diplomacy) ← Diplomacy.ofRecords path records
  let (path, records) ← folder.systemRecords
  let draft ← GalaxyDraft.ofRecords catalog factions diplomacy path records
  let config ← folder.loadConfig
  return { catalog, galaxy := draft.galaxy, config, systems := draft.systems,
           planets := draft.planets, factions }

/-- The scripts that a host is asked for when a galaxy is made from a directory. -/
def scriptCalls (folder : Folder) : List (String × String) :=
  match folder.commodityRecords with
  | .ok (_, records) => GalaxyMarket.scriptCalls folder records
  | .error _ => []

end Folder

end GalaxyMarket
