import GalaxyMarket.Proofs.Data.Names
import GalaxyMarket.Proofs.Galaxy.Listing

/-!
# Galaxies in the making

What a galaxy shows of the system records that were read so far (`GalaxyDraft.Renders`): one system
for each record, in order, with what the record describes (`SystemRecord.Describes`). A record that
is being read counts as far as it was read, so that reading on always means the same: there is one
more system without planets and jumps (`Renders.addSystem`), one more planet of the last one
(`Renders.addPlanet`) or one more jump of any (`Renders.addJump`).

From these the two loops over the records follow, with the conditions under which they get to the
end (`GalaxyDraft.decides_ofRecords`).
-/

namespace GalaxyMarket

/-! ### Relations item by item -/

section

variable {α β : Type} {R R' : α → β → Prop}

/-- A relation that is implied holds of two options as well. -/
theorem optionRel_imp (h : ∀ a b, R a b → R' a b) {a? : Option α} {b? : Option β} :
    Option.Rel R a? b? → Option.Rel R' a? b?
  | .none => .none
  | .some hab => .some (h _ _ hab)

/-- An item of the one list stands beside some item of the other, -/
theorem exists_of_mem_left {l : List α} {m : List β} (h : List.Forall₂ R l m) {a : α}
    (ha : a ∈ l) : ∃ b ∈ m, R a b := by
  induction h with
  | nil => cases ha
  | cons hab _ ih =>
    cases ha with
    | head => exact ⟨_, List.mem_cons_self, hab⟩
    | tail _ ha =>
      obtain ⟨b, hb, hab⟩ := ih ha
      exact ⟨b, List.mem_cons_of_mem _ hb, hab⟩

/-- and the other way round. -/
theorem exists_of_mem_right {l : List α} {m : List β} (h : List.Forall₂ R l m) {b : β}
    (hb : b ∈ m) : ∃ a ∈ l, R a b :=
  exists_of_mem_left h.flip hb

/-- What stands beside an item in the middle of a list. -/
theorem exists_split_of_forall₂ {front back : List α} {a : α} {m : List β}
    (h : List.Forall₂ R (front ++ a :: back) m) :
    ∃ before b after, m = before ++ b :: after ∧ List.Forall₂ R front before ∧ R a b ∧
      List.Forall₂ R back after := by
  -- Along the items in front, beside which the other list is taken apart.
  induction front generalizing m with
  | nil =>
    cases h with
    | cons hab hback => exact ⟨[], _, _, rfl, List.Forall₂.nil, hab, hback⟩
  | cons first front ih =>
    cases h with
    | cons hfirst hrest =>
      obtain ⟨before, b, after, rfl, hfront, hab, hback⟩ := ih hrest
      exact ⟨_ :: before, b, after, rfl, List.Forall₂.cons hfirst hfront, hab, hback⟩

end

/-! ### What records describe -/

/-- What the names in records stand for. -/
structure Meaning where
  commodity : String → ℕ → Prop
  faction : String → ℕ → Prop
  system : String → SystemKey → Prop
  planet : String → PlanetKey → Prop

/-- All that is named keeps its name. -/
structure Meaning.Within (names names' : Meaning) : Prop where
  commodity : ∀ {name i}, names.commodity name i → names'.commodity name i
  faction : ∀ {name i}, names.faction name i → names'.faction name i
  system : ∀ {name key}, names.system name key → names'.system name key
  planet : ∀ {name key}, names.planet name key → names'.planet name key

/-- **A planet is as its record says.** It is inhabited if anyone lives there, unless the record has
its own word on that. -/
structure PlanetRecord.Describes (names : Meaning) (record : PlanetRecord) (planet : Planet) :
    Prop where
  name_eq : planet.name = record.name
  population_eq : planet.population = record.population
  inhabited_eq : planet.inhabited = record.inhabited?.getD (0 < record.population)
  commodities : List.Forall₂ names.commodity record.commodities planet.commodities

/-- The last of some jumps that leads to a target. -/
def lastJumpTo? (records : List JumpRecord) (target : String) : Option JumpRecord :=
  records.reverse.find? (·.target == target)

/-- The jump that a record describes, once its target is known. -/
def JumpRecord.jump (record : JumpRecord) (target : SystemKey) : Jump :=
  { target, exitOnly := record.exitOnly, hidden := record.hidden }

/-- **The jumps that some records describe**: one to each target, in the order in which the targets
come first, with the marks that come last. -/
def JumpRecord.Describe (names : Meaning) (records : List JumpRecord) (jumps : List Jump) : Prop :=
  List.Forall₂ (fun target jump => ∃ last key, lastJumpTo? records target = some last ∧
    names.system target key ∧ jump = last.jump key)
    (records.map JumpRecord.target).eraseDups jumps

/-- **A system is as its record says**, with its planets in the order of their records. -/
structure SystemRecord.Describes (names : Meaning) (g : Galaxy Float) (record : SystemRecord)
    (key : SystemKey) (system : System Float) : Prop where
  named : names.system record.name key
  name_eq : system.name = record.name
  nebula_eq : system.nebula = ⟨record.density, record.volatility⟩
  faction : Option.Rel names.faction record.faction? system.faction?
  planets : List.Forall₂ (fun planet orbiter => names.planet planet.name orbiter ∧
    ∃ p, g.planet? orbiter = some p ∧ p.system = key ∧ planet.Describes names p)
    record.planets system.planets
  jumps : JumpRecord.Describe names record.jumps system.jumps

section

variable {names names' : Meaning} {g h : Galaxy Float}

/-- A planet stays described while names are added, -/
theorem PlanetRecord.Describes.imp {record : PlanetRecord} {planet : Planet}
    (hd : record.Describes names planet) (hnames : names.Within names') :
    record.Describes names' planet :=
  { hd with commodities := hd.commodities.imp fun _ _ => hnames.commodity }

/-- and so do jumps. -/
theorem JumpRecord.Describe.imp {records : List JumpRecord} {jumps : List Jump}
    (hd : JumpRecord.Describe names records jumps) (hnames : names.Within names') :
    JumpRecord.Describe names' records jumps := by
  refine List.Forall₂.imp ?_ hd
  rintro target jump ⟨last, key, hlast, hkey, hjump⟩
  exact ⟨last, key, hlast, hnames.system hkey, hjump⟩

/-- What is described stays so while names are added and planets stay. -/
theorem SystemRecord.Describes.imp {record : SystemRecord} {key : SystemKey}
    {system : System Float} (hd : record.Describes names g key system)
    (hnames : names.Within names')
    (hplanets : ∀ {orbiter p}, g.planet? orbiter = some p → h.planet? orbiter = some p) :
    record.Describes names' h key system where
  named := hnames.system hd.named
  name_eq := hd.name_eq
  nebula_eq := hd.nebula_eq
  faction := optionRel_imp (fun _ _ => hnames.faction) hd.faction
  planets := by
    refine List.Forall₂.imp ?_ hd.planets
    rintro planet orbiter ⟨hnamed, p, hp, hsystem, hdescribes⟩
    exact ⟨hnames.planet hnamed, p, hplanets hp, hsystem, hdescribes.imp hnames⟩
  jumps := hd.jumps.imp hnames

end

/-! ### One more jump -/

/-- One more jump is the last to its own target. -/
theorem lastJumpTo?_append_singleton (records : List JumpRecord) (record : JumpRecord)
    (target : String) : lastJumpTo? (records ++ [record]) target =
      if target = record.target then some record else lastJumpTo? records target := by
  unfold lastJumpTo?
  rw [List.reverse_append, List.reverse_singleton, List.singleton_append, List.find?_cons]
  by_cases heq : target = record.target
  · simp [heq]
  · rw [if_neg heq, beq_false_of_ne (Ne.symm heq)]

/-- What is left of one name when those of a list are taken away. -/
theorem removeAll_singleton (name : String) (names : List String) :
    [name].removeAll names = if name ∈ names then [] else [name] := by
  unfold List.removeAll
  by_cases hmem : name ∈ names
  · rw [if_pos hmem, List.filter_cons_of_neg (by simpa using hmem), List.filter_nil]
  · rw [if_neg hmem, List.filter_cons_of_pos (by simpa using hmem), List.filter_nil]

/-- **One more jump is taken in as it is written down.** It has to be clear which system is meant,
as no two names stand for one system and no name for two. -/
theorem JumpRecord.Describe.withJump {names : Meaning} {records : List JumpRecord}
    {jumps : List Jump} (hd : JumpRecord.Describe names records jumps)
    (hexact : ∀ {a b i j}, names.system a i → names.system b j → (i = j ↔ a = b))
    {record : JumpRecord} {key : SystemKey} (hkey : names.system record.target key) :
    JumpRecord.Describe names (records ++ [record]) (Galaxy.withJump jumps (record.jump key)) := by
  -- A jump leads to the target exactly if it stands for it.
  have hsame : ∀ {target jump}, (∃ last key', lastJumpTo? records target = some last ∧
      names.system target key' ∧ jump = last.jump key') →
      (jump.target = key ↔ target = record.target) := by
    rintro target jump ⟨last, key', -, hkey', rfl⟩
    exact hexact hkey' hkey
  have hknown : jumps.any (·.target == key) = true ↔
      record.target ∈ (records.map JumpRecord.target).eraseDups := by
    rw [List.any_eq_true]
    constructor
    · rintro ⟨jump, hjump, heq⟩
      obtain ⟨target, htarget, hshown⟩ := exists_of_mem_right hd hjump
      exact (hsame hshown).mp (beq_iff_eq.mp heq) ▸ htarget
    · intro htarget
      obtain ⟨jump, hjump, hshown⟩ := exists_of_mem_left hd htarget
      exact ⟨jump, hjump, beq_iff_eq.mpr ((hsame hshown).mpr rfl)⟩
  have hother : ∀ {target jump}, target ≠ record.target →
      (∃ last key', lastJumpTo? records target = some last ∧ names.system target key' ∧
        jump = last.jump key') →
      ∃ last key', lastJumpTo? (records ++ [record]) target = some last ∧
        names.system target key' ∧ jump = last.jump key' := by
    intro target jump hne hshown
    rw [lastJumpTo?_append_singleton, if_neg hne]
    exact hshown
  have hnew : ∃ last key', lastJumpTo? (records ++ [record]) record.target = some last ∧
      names.system record.target key' ∧ record.jump key = last.jump key' := by
    rw [lastJumpTo?_append_singleton, if_pos rfl]
    exact ⟨record, key, rfl, hkey, rfl⟩
  unfold JumpRecord.Describe Galaxy.withJump
  rw [List.map_append, List.map_singleton, List.eraseDups_append, removeAll_singleton]
  show List.Forall₂ _ _ (if jumps.any (·.target == key) = true then
    jumps.map fun old => if (old.target == key) = true then record.jump key else old
    else jumps ++ [record.jump key])
  by_cases hmem : record.target ∈ records.map JumpRecord.target
  · -- The target was mentioned before, and its jump gets the new marks.
    rw [if_pos hmem, if_pos (hknown.mpr (List.mem_eraseDups.mpr hmem)), List.eraseDups_nil,
      List.append_nil, List.forall₂_map_right_iff]
    refine List.Forall₂.imp ?_ hd
    intro target jump hshown
    by_cases htarget : target = record.target
    · rw [if_pos (beq_iff_eq.mpr ((hsame hshown).mpr htarget)), htarget]
      exact hnew
    · rw [if_neg fun heq => htarget ((hsame hshown).mp (beq_iff_eq.mp heq))]
      exact hother htarget hshown
  · rw [if_neg hmem, if_neg fun h => hmem (List.mem_eraseDups.mp (hknown.mp h))]
    refine List.rel_append (List.forall₂_iff_zip.mpr ⟨hd.length_eq, ?_⟩)
      (List.Forall₂.cons hnew List.Forall₂.nil)
    intro target jump hzip
    have htarget : target ∈ (records.map JumpRecord.target).eraseDups :=
      (List.of_mem_zip hzip).1
    apply hother _ ((List.forall₂_iff_zip.mp hd).2 hzip)
    rintro rfl
    exact hmem (List.mem_eraseDups.mp htarget)

/-! ### Drafts -/

/-- The names of the planets of a record, in order. -/
def SystemRecord.planetNames (record : SystemRecord) : List String :=
  record.planets.map PlanetRecord.name

/-- Of a record without planets, no planets are named. -/
theorem planetNames_append_bare (front : List SystemRecord) (record : SystemRecord) :
    (front ++ [{ record with planets := [] }]).flatMap SystemRecord.planetNames =
      front.flatMap SystemRecord.planetNames := by
  rw [List.flatMap_append, List.flatMap_singleton]
  exact List.append_nil _

/-- One more planet of the last system is named last, -/
theorem planetNames_append_planet (front : List SystemRecord) (record : SystemRecord)
    (planet : PlanetRecord) :
    (front ++ [{ record with planets := record.planets ++ [planet] }]).flatMap
        SystemRecord.planetNames =
      (front ++ [record]).flatMap SystemRecord.planetNames ++ [planet.name] := by
  rw [List.flatMap_append, List.flatMap_append, List.flatMap_singleton, List.flatMap_singleton,
    List.append_assoc]
  unfold SystemRecord.planetNames
  rw [List.map_append, List.map_singleton]

/-- and the names of the systems stay. -/
theorem systemNames_append_planet (front : List SystemRecord) (record : SystemRecord)
    (planet : PlanetRecord) :
    (front ++ [{ record with planets := record.planets ++ [planet] }]).map SystemRecord.name =
      (front ++ [record]).map SystemRecord.name := by
  rw [List.map_append, List.map_append]
  rfl

/-- A record as it is read first, without its jumps. -/
def SystemRecord.withoutJumps (record : SystemRecord) : SystemRecord := { record with jumps := [] }

namespace GalaxyDraft

/-- What names stand for while a galaxy is made: commodities and factions are known, systems and
planets are those of the draft. -/
def meaning (draft : GalaxyDraft) (commodities factions : List String) : Meaning where
  commodity name i := commodities[i]? = some name
  faction name i := factions[i]? = some name
  system name key := (name, key) ∈ draft.systems
  planet name key := (name, key) ∈ draft.planets

/-- **A draft shows some records**: it has one system for each, in order, as the record describes
it, and registers their names and those of their planets in the order in which they got their keys.
-/
structure Renders (commodities factions : List String) (diplomacy : Diplomacy)
    (records : List SystemRecord) (draft : GalaxyDraft) : Prop where
  diplomacy_eq : draft.galaxy.diplomacy = diplomacy
  systems_dense : draft.galaxy.systems.IsDense
  planets_dense : draft.galaxy.planets.IsDense
  systems_eq : draft.systems = (records.map SystemRecord.name).zip draft.galaxy.systems.keys
  planets_eq : draft.planets =
    (records.flatMap SystemRecord.planetNames).zip draft.galaxy.planets.keys
  planets_length :
    (records.flatMap SystemRecord.planetNames).length = draft.galaxy.planets.keys.length
  shown : List.Forall₂ (fun record entry =>
    record.Describes (draft.meaning commodities factions) draft.galaxy entry.1 entry.2)
    records draft.galaxy.systems.toList

variable {commodities factions : List String} {diplomacy : Diplomacy}
  {records front back : List SystemRecord} {record : SystemRecord} {draft : GalaxyDraft}

/-- An empty draft shows no records. -/
theorem renders_empty : Renders commodities factions diplomacy [] { galaxy := { diplomacy } } where
  diplomacy_eq := rfl
  systems_dense := rfl
  planets_dense := rfl
  systems_eq := rfl
  planets_eq := rfl
  planets_length := rfl
  shown := List.Forall₂.nil

/-- As many systems were made as there are records. -/
theorem Renders.systems_length (hd : draft.Renders commodities factions diplomacy records) :
    (records.map SystemRecord.name).length = draft.galaxy.systems.keys.length := by
  unfold Slots.keys
  rw [List.length_map, List.length_map]
  exact hd.shown.length_eq

/-- The registered systems are those of the records, -/
theorem Renders.fst_systems (hd : draft.Renders commodities factions diplomacy records) :
    draft.systems.map Prod.fst = records.map SystemRecord.name := by
  rw [hd.systems_eq]
  exact List.map_fst_zip hd.systems_length.le

/-- and so are the planets. -/
theorem Renders.fst_planets (hd : draft.Renders commodities factions diplomacy records) :
    draft.planets.map Prod.fst = records.flatMap SystemRecord.planetNames := by
  rw [hd.planets_eq]
  exact List.map_fst_zip hd.planets_length.le

/-- Registered systems exist. -/
theorem Renders.contains (hd : draft.Renders commodities factions diplomacy records) {name : String}
    {key : SystemKey} (hkey : (name, key) ∈ draft.systems) :
    draft.galaxy.systems.contains key = true := by
  rw [hd.systems_eq] at hkey
  exact Slots.mem_keys_iff_contains.mp (List.of_mem_zip hkey).2

/-- Different names stand for different systems. -/
theorem Renders.exact (hd : draft.Renders commodities factions diplomacy records)
    (hnodup : (records.map SystemRecord.name).Nodup) {a b : String} {i j : SystemKey}
    (ha : (a, i) ∈ draft.systems) (hb : (b, j) ∈ draft.systems) : i = j ↔ a = b := by
  -- Neither keys nor names stand twice in the register.
  have hkeys : (draft.systems.map Prod.snd).Nodup := by
    rw [hd.systems_eq, List.map_snd_zip hd.systems_length.ge]
    exact List.Nodup.of_map Key.slot draft.galaxy.systems.nodup_slot_keys
  have hnames : (draft.systems.map Prod.fst).Nodup := hd.fst_systems ▸ hnodup
  constructor
  · rintro rfl
    exact (Prod.mk.inj (List.inj_on_of_nodup_map hkeys ha hb rfl)).1
  · rintro rfl
    exact (Prod.mk.inj (List.inj_on_of_nodup_map hnames ha hb rfl)).2

/-- **Where a record stands**, there is the system of its name. -/
theorem Renders.exists_split
    (hd : draft.Renders commodities factions diplomacy (front ++ record :: back))
    (hnodup : ((front ++ record :: back).map SystemRecord.name).Nodup) {key : SystemKey}
    (hkey : (record.name, key) ∈ draft.systems) : ∃ before system after,
      draft.galaxy.systems.toList = before ++ (key, system) :: after ∧
      List.Forall₂ (fun record entry => record.Describes (draft.meaning commodities factions)
        draft.galaxy entry.1 entry.2) front before ∧
      record.Describes (draft.meaning commodities factions) draft.galaxy key system ∧
      List.Forall₂ (fun record entry => record.Describes (draft.meaning commodities factions)
        draft.galaxy entry.1 entry.2) back after := by
  obtain ⟨before, ⟨key', system⟩, after, hlist, hfront, hrecord, hback⟩ :=
    exists_split_of_forall₂ hd.shown
  obtain rfl : key' = key := (hd.exact hnodup hrecord.named hkey).mpr rfl
  exact ⟨before, system, after, hlist, hfront, hrecord, hback⟩

/-! ### Reading on -/

/-- **One more system**, without planets and jumps. -/
theorem Renders.addSystem (hd : draft.Renders commodities factions diplomacy records)
    (record : SystemRecord) {faction? : Option ℕ}
    (hfaction : Option.Rel (fun name i => factions[i]? = some name) record.faction? faction?) :
    let added := draft.galaxy.addSystem
      { name := record.name, nebula := ⟨record.density, record.volatility⟩, faction? }
    Renders commodities factions diplomacy (records ++ [{ record with jumps := [], planets := [] }])
      ⟨added.2, draft.systems ++ [(record.name, added.1)], draft.planets⟩ := by
  intro added
  let system : System Float :=
    { name := record.name, nebula := ⟨record.density, record.volatility⟩, faction? }
  let draft' : GalaxyDraft :=
    ⟨added.2, draft.systems ++ [(record.name, added.1)], draft.planets⟩
  -- Names that were registered stay registered.
  have hwithin : (draft.meaning commodities factions).Within
      (draft'.meaning commodities factions) := by
    constructor
    case commodity => exact id
    case faction => exact id
    case system => exact List.mem_append_left _
    case planet => exact id
  have hnames : (records ++ [{ record with jumps := [], planets := [] }]).flatMap
      SystemRecord.planetNames = records.flatMap SystemRecord.planetNames :=
    planetNames_append_bare records { record with jumps := [] }
  constructor
  case diplomacy_eq => exact hd.diplomacy_eq
  case systems_dense => exact hd.systems_dense.insert system
  case planets_dense => exact hd.planets_dense
  case systems_eq =>
    show draft.systems ++ [(record.name, added.1)] =
      List.zip _ (draft.galaxy.systems.insert system).2.keys
    rw [hd.systems_dense.keys_insert, List.map_append, List.zip_append hd.systems_length,
      ← hd.systems_eq]
    rfl
  case planets_eq =>
    rw [hnames]
    exact hd.planets_eq
  case planets_length =>
    rw [hnames]
    exact hd.planets_length
  case shown =>
    show List.Forall₂ _ _ (draft.galaxy.systems.insert system).2.toList
    rw [hd.systems_dense.toList_insert]
    -- The old systems are shown as before, and the new one comes behind them.
    refine List.rel_append (List.Forall₂.imp ?_ hd.shown)
      (List.Forall₂.cons ?_ List.Forall₂.nil)
    · exact fun _ _ hold => hold.imp hwithin id
    · constructor
      case named => exact List.mem_append_right _ List.mem_cons_self
      case name_eq => rfl
      case nebula_eq => rfl
      case faction => exact hfaction
      case planets => exact List.Forall₂.nil
      case jumps => exact List.Forall₂.nil

/-- **One more planet** of the last system. -/
theorem Renders.addPlanet (hd : draft.Renders commodities factions diplomacy (front ++ [record]))
    (hnodup : ((front ++ [record]).map SystemRecord.name).Nodup) {key : SystemKey}
    (hkey : (record.name, key) ∈ draft.systems) {planetRecord : PlanetRecord} {planet : Planet}
    (hplanet : planetRecord.Describes (draft.meaning commodities factions) planet) :
    ∃ orbiter galaxy, draft.galaxy.addPlanet key planet = .ok (orbiter, galaxy) ∧
      Renders commodities factions diplomacy
        (front ++ [{ record with planets := record.planets ++ [planetRecord] }])
        ⟨galaxy, draft.systems, draft.planets ++ [(planetRecord.name, orbiter)]⟩ := by
  -- The planet goes to the system of the last record. Only its list of planets is changed.
  obtain ⟨before, system, after, hlist, hfront, hrecord, hback⟩ := hd.exists_split hnodup hkey
  let orbiting : Planet := { planet with system := key }
  let orbiter := (draft.galaxy.planets.insert orbiting).1
  let enlist (s : System Float) : System Float := { s with planets := s.planets ++ [orbiter] }
  let galaxy : Galaxy Float := ⟨draft.galaxy.systems.modify key enlist,
    (draft.galaxy.planets.insert orbiting).2, draft.galaxy.diplomacy⟩
  let draft' : GalaxyDraft :=
    ⟨galaxy, draft.systems, draft.planets ++ [(planetRecord.name, orbiter)]⟩
  refine ⟨orbiter, galaxy, ?_, ?_⟩
  · unfold Galaxy.addPlanet
    rw [if_pos (hd.contains hkey)]
  have hwithin : (draft.meaning commodities factions).Within
      (draft'.meaning commodities factions) := by
    constructor
    case commodity => exact id
    case faction => exact id
    case system => exact id
    case planet => exact List.mem_append_left _
  -- A new planet takes the place of none.
  have hkept : ∀ {orbiter p}, draft.galaxy.planet? orbiter = some p →
      galaxy.planet? orbiter = some p :=
    hd.planets_dense.get?_insert_of_get? orbiting
  have hnames := planetNames_append_planet front record planetRecord
  constructor
  case diplomacy_eq => exact hd.diplomacy_eq
  case systems_dense => exact hd.systems_dense.modify key enlist
  case planets_dense => exact hd.planets_dense.insert orbiting
  case systems_eq =>
    show draft.systems = List.zip _ (draft.galaxy.systems.modify key enlist).keys
    rw [Slots.keys_modify, systemNames_append_planet]
    exact hd.systems_eq
  case planets_eq =>
    show draft.planets ++ [(planetRecord.name, orbiter)] =
      List.zip _ (draft.galaxy.planets.insert orbiting).2.keys
    rw [hnames, hd.planets_dense.keys_insert, List.zip_append hd.planets_length, ← hd.planets_eq]
    rfl
  case planets_length =>
    show _ = (draft.galaxy.planets.insert orbiting).2.keys.length
    rw [hnames, hd.planets_dense.keys_insert, List.length_append, List.length_append,
      hd.planets_length]
    rfl
  case shown =>
    -- Nothing comes behind the system that gets the planet.
    cases hback
    show List.Forall₂ _ _ (draft.galaxy.systems.modify key enlist).toList
    rw [Slots.toList_modify_of_append hlist]
    refine List.rel_append (List.Forall₂.imp ?_ hfront) (List.Forall₂.cons ?_ List.Forall₂.nil)
    · exact fun _ _ hold => hold.imp hwithin hkept
    · have hold := hrecord.imp hwithin hkept
      refine { hold with planets := List.rel_append hold.planets ?_ }
      refine List.Forall₂.cons ⟨?_, orbiting, ?_, rfl, ?_⟩ List.Forall₂.nil
      · exact List.mem_append_right _ List.mem_cons_self
      · exact hd.planets_dense.get?_insert_self orbiting
      · have hdescribes := hplanet.imp hwithin
        exact { hdescribes with }

/-- **One more jump** of any system. -/
theorem Renders.addJump
    (hd : draft.Renders commodities factions diplomacy (front ++ record :: back))
    (hnodup : ((front ++ record :: back).map SystemRecord.name).Nodup) {key target : SystemKey}
    (hkey : (record.name, key) ∈ draft.systems) {jump : JumpRecord}
    (htarget : (jump.target, target) ∈ draft.systems) :
    ∃ galaxy, draft.galaxy.addJump key (jump.jump target) = .ok galaxy ∧
      Renders commodities factions diplomacy
        (front ++ { record with jumps := record.jumps ++ [jump] } :: back)
        { draft with galaxy } := by
  obtain ⟨before, system, after, hlist, hfront, hrecord, hback⟩ := hd.exists_split hnodup hkey
  let enter (s : System Float) : System Float :=
    { s with jumps := Galaxy.withJump s.jumps (jump.jump target) }
  let galaxy : Galaxy Float := ⟨draft.galaxy.systems.modify key enter, draft.galaxy.planets,
    draft.galaxy.diplomacy⟩
  refine ⟨galaxy, ?_, ?_⟩
  · unfold Galaxy.addJump Galaxy.updateSystem
    rw [if_pos (show draft.galaxy.systems.contains (jump.jump target).target = true from
      hd.contains htarget), if_pos (hd.contains hkey)]
  have hwithin : (draft.meaning commodities factions).Within
      (meaning { draft with galaxy } commodities factions) := ⟨id, id, id, id⟩
  have hsystems : (front ++ { record with jumps := record.jumps ++ [jump] } :: back).map
      SystemRecord.name = (front ++ record :: back).map SystemRecord.name := by
    rw [List.map_append, List.map_append]
    rfl
  have hnames : (front ++ { record with jumps := record.jumps ++ [jump] } :: back).flatMap
      SystemRecord.planetNames = (front ++ record :: back).flatMap SystemRecord.planetNames := by
    rw [List.flatMap_append, List.flatMap_append]
    rfl
  constructor
  case diplomacy_eq => exact hd.diplomacy_eq
  case systems_dense => exact hd.systems_dense.modify key enter
  case planets_dense => exact hd.planets_dense
  case systems_eq =>
    show draft.systems = List.zip _ (draft.galaxy.systems.modify key enter).keys
    rw [Slots.keys_modify, hsystems]
    exact hd.systems_eq
  case planets_eq =>
    rw [hnames]
    exact hd.planets_eq
  case planets_length =>
    rw [hnames]
    exact hd.planets_length
  case shown =>
    show List.Forall₂ _ _ (draft.galaxy.systems.modify key enter).toList
    rw [Slots.toList_modify_of_append hlist]
    -- The systems in front and behind are not touched.
    refine List.rel_append (List.Forall₂.imp ?_ hfront)
      (List.Forall₂.cons ?_ (List.Forall₂.imp ?_ hback))
    · exact fun _ _ hold => hold.imp hwithin id
    · have hold := hrecord.imp hwithin id
      exact { hold with jumps := hold.jumps.withJump (hd.exact hnodup) htarget }
    · exact fun _ _ hold => hold.imp hwithin id

end GalaxyDraft

end GalaxyMarket
