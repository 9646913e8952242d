import Mathlib.Data.Sym.Sym2
import GalaxyMarket.Data.Load
import GalaxyMarket.Proofs.Commodity.Drafting
import GalaxyMarket.Proofs.Data.Decides
import GalaxyMarket.Proofs.Galaxy.Diplomacy

/-!
# Names in data files

What becomes of the names of commodities and factions. A registry of different names finds exactly
what was put in (`Registry.lookup_eq_some_iff`); the catalog lists the commodity records in their
order (`Catalog.decides_ofRecords`), and the standing of two factions is what was said of them last
(`Diplomacy.decides_ofRecords`).

Each of these comes with the exact condition under which it succeeds. What goes wrong is always put
down to the files (`LoadError.BlamesFiles`).
-/

namespace GalaxyMarket

/-- An error that says what is wrong with the files. Of the catalog's own errors only that of a
negative price does. -/
def LoadError.BlamesFiles : LoadError → Prop
  | .galaxy _ => False
  | .catalog (.negativePrice ..) => True
  | .catalog _ => False
  | _ => True

/-! ### Registries -/

namespace Registry

variable {κ : Type} {names : Registry κ} {name : String} {key : κ}

/-- A name is found if it was put in, -/
theorem isSome_lookup_iff : (names.lookup name).isSome = true ↔ name ∈ names.map Prod.fst := by
  rw [List.lookup_isSome_iff, List.mem_map]
  simp only [beq_iff_eq, eq_comm (a := name)]

/-- and what is found was put in under it. -/
theorem mem_of_lookup (h : names.lookup name = some key) : (name, key) ∈ names := by
  obtain ⟨front, back, rfl, -⟩ := List.lookup_eq_some_iff.mp h
  exact List.mem_append_right _ List.mem_cons_self

/-- **A registry of different names** finds exactly what was put in. -/
theorem lookup_eq_some_iff (hnodup : (names.map Prod.fst).Nodup) :
    names.lookup name = some key ↔ (name, key) ∈ names := by
  constructor
  · exact mem_of_lookup
  · intro hmem
    obtain ⟨found, hfound⟩ := Option.isSome_iff_exists.mp
      (isSome_lookup_iff.mpr (List.mem_map_of_mem (f := Prod.fst) hmem))
    have hsame : (name, found) = (name, key) :=
      List.inj_on_of_nodup_map hnodup (mem_of_lookup hfound) hmem rfl
    rw [hfound, (Prod.mk.inj hsame).2]

/-- A name is resolved if it was put in, -/
theorem decides_resolve (names : Registry κ) (path kind name : String) :
    Decides (name ∈ names.map Prod.fst) (fun key => (name, key) ∈ names) LoadError.BlamesFiles
      (names.resolve path kind name) := by
  unfold resolve
  cases hkey : names.lookup name with
  | some key => exact ⟨isSome_lookup_iff.mp (by rw [hkey]; rfl), mem_of_lookup hkey⟩
  | none =>
    refine ⟨fun hmem => ?_, trivial⟩
    have hfound := isSome_lookup_iff.mpr hmem
    rw [hkey] at hfound
    cases hfound

/-- Where names are numbered in order, a name stands for its place. -/
theorem decides_resolve_zipIdx (names : List String) (path kind name : String) :
    Decides (name ∈ names) (fun i => names[i]? = some name) LoadError.BlamesFiles
      (resolve names.zipIdx path kind name) := by
  have hresolve := decides_resolve names.zipIdx path kind name
  rw [List.zipIdx_map_fst] at hresolve
  exact hresolve.congr Iff.rfl fun i _ hi => List.mem_zipIdx_iff_getElem?.mp hi

/-- and it is free if it was not. -/
theorem decides_checkFree (names : Registry κ) (path name : String) :
    Decides (name ∉ names.map Prod.fst) (fun _ => True) LoadError.BlamesFiles
      (names.checkFree path name) := by
  unfold checkFree
  split
  · next htaken => exact ⟨fun hfree => hfree (isSome_lookup_iff.mp htaken), trivial⟩
  · next hfree => exact ⟨fun hmem => hfree (isSome_lookup_iff.mpr hmem), trivial⟩

end Registry

/-- One name more keeps names different if it is not among them. -/
theorem nodup_append_singleton_iff {β : Type} {l : List β} {a : β} :
    (l ++ [a]).Nodup ↔ l.Nodup ∧ a ∉ l := by
  rw [List.nodup_append, and_iff_right (List.nodup_singleton a)]
  simp only [List.mem_singleton, forall_eq, ne_eq]
  exact and_congr_right fun _ => ⟨fun h hmem => h a hmem rfl, fun h b hb heq => h (heq ▸ hb)⟩

/-! ### Commodities -/

namespace CatalogDraft

variable {draft : CatalogDraft Float}

/-- **A commodity with a new name** goes to the end of the list, with its source. -/
theorem add_of_new {l : Listing Float}
    (hnew : l.commodity.name ∉ draft.listings.map (·.commodity.name)) :
    draft.add l = .ok { draft with listings := draft.listings ++ [l] } := by
  have hfresh : ¬(draft.find? l.commodity.name).isSome = true :=
    fun h => hnew (isSome_find?_iff.mp h)
  obtain ⟨commodity, source?⟩ := l
  -- Without the name in the list there is nothing to report.
  have hregister : draft.register commodity =
      ⟨draft.listings ++ [⟨commodity, none⟩], draft.repeated⟩ := by
    unfold register
    rw [if_neg hfresh]
  unfold add
  rw [hregister]
  cases source? with
  | none => rfl
  | some source =>
    have hfind : find? ⟨draft.listings ++ [⟨commodity, none⟩], draft.repeated⟩
        commodity.name = some draft.listings.length :=
      (find?_append_singleton _ draft.repeated _ _ _).trans (if_pos rfl)
    -- The source goes to the commodity that was just put in, the last one.
    have hmodify : ∀ f : Listing Float → Listing Float,
        (draft.listings ++ [(⟨commodity, none⟩ : Listing Float)]).modify draft.listings.length f =
          draft.listings ++ [f ⟨commodity, none⟩] := by
      intro f
      exact List.modifyTailIdx_add _ 0 draft.listings [⟨commodity, none⟩]
    show attach _ commodity.name source = _
    unfold attach
    rw [hfind]
    simp only [hmodify]

end CatalogDraft

namespace Catalog

variable (folder : Folder) (host : ScriptHost) (path : String)

/-- What is drafted once some records with different names were read. -/
def drafted (records : List CommodityRecord) : CatalogDraft Float :=
  ⟨records.map (CommodityRecord.listing folder host), []⟩

/-- A turn of the loop over commodity records. -/
theorem decides_addRecord {front : List CommodityRecord} (record : CommodityRecord)
    (hfront : (front.map CommodityRecord.name).Nodup) :
    Decides ((front ++ [record]).map CommodityRecord.name).Nodup
      (fun draft => draft = drafted folder host (front ++ [record])) LoadError.BlamesFiles
      (CatalogDraft.addRecord folder host path (drafted folder host front) record) := by
  have hnames : (front.map (CommodityRecord.listing folder host)).map (·.commodity.name) =
      front.map CommodityRecord.name := by
    rw [List.map_map]
    rfl
  rw [List.map_append, List.map_singleton, nodup_append_singleton_iff]
  unfold CatalogDraft.addRecord drafted
  by_cases hmem : record.name ∈ front.map CommodityRecord.name
  · rw [if_pos (CatalogDraft.isSome_find?_iff.mpr (hnames ▸ hmem))]
    exact ⟨fun hgood => hgood.2 hmem, trivial⟩
  · have hnew : (record.listing folder host).commodity.name ∉
        (front.map (CommodityRecord.listing folder host)).map (·.commodity.name) := by
      rw [hnames]
      exact hmem
    rw [if_neg fun h => hnew (CatalogDraft.isSome_find?_iff.mp h), CatalogDraft.add_of_new hnew,
      List.map_append, List.map_singleton]
    exact ⟨⟨hfront, hmem⟩, rfl⟩

/-- **The catalog lists the commodity records in order**, if their names differ and no price is
negative. -/
theorem decides_ofRecords (records : List CommodityRecord) :
    Decides ((records.map CommodityRecord.name).Nodup ∧ ∀ record ∈ records, 0 ≤ record.price)
      (fun catalog => catalog.listings = records.map (CommodityRecord.listing folder host))
      LoadError.BlamesFiles (ofRecords folder host path records) := by
  unfold ofRecords
  refine Decides.bind (P := fun draft => draft = drafted folder host records) ?_ ?_
  · refine Decides.foldlM (fun front => (front.map CommodityRecord.name).Nodup)
      (fun front draft => draft = drafted folder host front) ?_ ?_ ?_
    · exact ⟨List.nodup_nil, rfl⟩
    · intro front a hgood
      rw [List.map_append] at hgood
      exact hgood.of_append_left
    · rintro front record back draft - hgood rfl
      exact decides_addRecord folder host path record hgood
  · -- No name was registered twice, so that only prices are left to go wrong.
    rintro draft - rfl
    unfold CatalogDraft.freeze drafted
    cases hprice : (records.map (CommodityRecord.listing folder host)).find?
        fun l => l.commodity.basePrice < 0 with
    | some l =>
      refine ⟨fun hgood => ?_, trivial⟩
      obtain ⟨record, hrecord, rfl⟩ := List.mem_map.mp (List.mem_of_find?_eq_some hprice)
      have hnegative : (record.listing folder host).commodity.basePrice < 0 := by
        simpa using List.find?_some hprice
      exact absurd (hgood record hrecord) (Int.not_le.mpr hnegative)
    | none =>
      refine ⟨fun record hrecord => ?_, rfl⟩
      have hnot := List.find?_eq_none.mp hprice _ (List.mem_map_of_mem hrecord)
      exact Int.not_lt.mp fun h => hnot (decide_eq_true h)

end Catalog

/-! ### Factions -/

/-- What a faction record says of other factions, the allies before the enemies. -/
def FactionRecord.mentions (record : FactionRecord) : List (String × String × Standing) :=
  record.allies.map (record.name, ·, .allied) ++ record.enemies.map (record.name, ·, .hostile)

/-- The standing that was mentioned last of two factions, in whatever direction. They are neutral if
nothing was mentioned. -/
def lastMention (mentions : List (String × String × Standing)) (a b : String) : Standing :=
  ((mentions.reverse.find? fun m => s(m.1, m.2.1) = s(a, b)).map fun m => m.2.2).getD .neutral

/-- One mention more is the last one about its pair, and about no other. -/
theorem lastMention_append_singleton (mentions : List (String × String × Standing)) (c d : String)
    (standing : Standing) (a b : String) : lastMention (mentions ++ [(c, d, standing)]) a b =
      if s(a, b) = s(c, d) then standing else lastMention mentions a b := by
  unfold lastMention
  rw [List.reverse_append, List.reverse_singleton, List.singleton_append, List.find?_cons]
  by_cases heq : s(c, d) = s(a, b)
  · rw [if_pos heq.symm]
    simp [heq]
  · rw [if_neg (Ne.symm heq)]
    simp [heq]

namespace Diplomacy

/-- **The standings of factions are what was mentioned of them last.** -/
def Echoes (names : List String) (mentions : List (String × String × Standing)) (d : Diplomacy) :
    Prop :=
  ∀ a b i j, names[i]? = some a → names[j]? = some b → d.word i j = lastMention mentions a b

variable {names : List String} {mentions : List (String × String × Standing)} {d : Diplomacy}

/-- Different names have different places. -/
theorem eq_iff_of_getElem? (hnodup : names.Nodup) {a b : String} {i j : ℕ}
    (ha : names[i]? = some a) (hb : names[j]? = some b) : i = j ↔ a = b := by
  constructor
  · rintro rfl
    exact Option.some.inj (ha.symm.trans hb)
  · rintro rfl
    exact (List.getElem?_inj (List.getElem?_eq_some_iff.mp ha).1 hnodup).mp (ha.trans hb.symm)

/-- **One mention more.** -/
theorem Echoes.declare (h : Echoes names mentions d) (hnodup : names.Nodup) {a b : String}
    {i j : ℕ} (ha : names[i]? = some a) (hb : names[j]? = some b) (standing : Standing) :
    Echoes names (mentions ++ [(a, b, standing)]) (d.declare i j standing) := by
  intro a' b' i' j' ha' hb'
  -- Numbers stand for names, so that the two name the same pair.
  have hpair : s(i', j') = s(i, j) ↔ s(a', b') = s(a, b) := by
    rw [Sym2.eq_iff, Sym2.eq_iff, eq_iff_of_getElem? hnodup ha' ha,
      eq_iff_of_getElem? hnodup ha' hb, eq_iff_of_getElem? hnodup hb' ha,
      eq_iff_of_getElem? hnodup hb' hb]
  rw [word_declare, lastMention_append_singleton, h a' b' i' j' ha' hb']
  simp only [hpair]

/-- What a record says of some factions, in one direction. -/
theorem decides_declareAll (hnodup : names.Nodup) (path : String) {a : String} {i : ℕ}
    (ha : names[i]? = some a) (standing : Standing) (others : List String)
    (h : Echoes names mentions d) :
    Decides (∀ other ∈ others, other ∈ names)
      (Echoes names (mentions ++ others.map (a, ·, standing))) LoadError.BlamesFiles
      (d.declareAll names.zipIdx path i standing others) := by
  unfold declareAll
  -- The loop keeps that everything mentioned so far has been declared.
  refine Decides.foldlM (fun front => ∀ other ∈ front, other ∈ names)
    (fun front => Echoes names (mentions ++ front.map (a, ·, standing))) ?_ ?_ ?_
  · refine ⟨List.forall_mem_nil _, ?_⟩
    rw [List.map_nil, List.append_nil]
    exact h
  · intro front other hgood
    exact (List.forall_mem_append.mp hgood).1
  · intro front other back d' _ hgood hd'
    rw [List.forall_mem_append, List.forall_mem_singleton, and_iff_right hgood, List.map_append,
      List.map_singleton, ← List.append_assoc]
    apply (Registry.decides_resolve_zipIdx names path "faction" other).bind_ok
    intro j _ hj
    exact ⟨_, rfl, hd'.declare hnodup ha hj standing⟩

/-- What a whole record says. -/
theorem decides_addRecord (hnodup : names.Nodup) (path : String) (record : FactionRecord)
    (hrecord : record.name ∈ names) (h : Echoes names mentions d) :
    Decides (∀ other ∈ record.allies ++ record.enemies, other ∈ names)
      (Echoes names (mentions ++ record.mentions)) LoadError.BlamesFiles
      (addRecord names.zipIdx path d record) := by
  rw [List.forall_mem_append, ← and_iff_right (b := _ ∧ _) hrecord, FactionRecord.mentions,
    ← List.append_assoc]
  unfold addRecord
  apply (Registry.decides_resolve_zipIdx names path "faction" record.name).bind
  intro i _ hi
  apply (decides_declareAll hnodup path hi .allied record.allies h).bind
  intro d' _ hd'
  exact decides_declareAll hnodup path hi .hostile record.enemies hd'

/-- Factions are numbered in the order of their records, if their names differ. -/
theorem decides_factionRegistry (path : String) (records : List FactionRecord) :
    Decides (records.map FactionRecord.name).Nodup
      (fun names => names = (records.map FactionRecord.name).zipIdx) LoadError.BlamesFiles
      (factionRegistry path records) := by
  unfold factionRegistry
  refine Decides.foldlM (fun front => (front.map FactionRecord.name).Nodup)
    (fun front names => names = (front.map FactionRecord.name).zipIdx) ?_ ?_ ?_
  · exact ⟨List.nodup_nil, rfl⟩
  · intro front record hgood
    rw [List.map_append] at hgood
    exact hgood.of_append_left
  · rintro front record back names - hgood rfl
    have hfree := Registry.decides_checkFree (front.map FactionRecord.name).zipIdx path record.name
    rw [List.zipIdx_map_fst] at hfree
    rw [List.map_append, List.map_singleton, nodup_append_singleton_iff, and_iff_right hgood]
    apply hfree.bind_ok
    intro _ _ _
    refine ⟨_, rfl, ?_⟩
    rw [List.zipIdx_append, List.length_zipIdx, Nat.zero_add]
    rfl

/-- **Factions stand to each other as the records say**, if the names of the records differ and no
other name is mentioned. -/
theorem decides_ofRecords (path : String) (records : List FactionRecord) :
    Decides ((records.map FactionRecord.name).Nodup ∧
        ∀ record ∈ records, ∀ other ∈ record.allies ++ record.enemies,
          other ∈ records.map FactionRecord.name)
      (fun result => result.1 = (records.map FactionRecord.name).zipIdx ∧
        Echoes (records.map FactionRecord.name) (records.flatMap FactionRecord.mentions) result.2)
      LoadError.BlamesFiles (ofRecords path records) := by
  unfold ofRecords
  apply (decides_factionRegistry path records).bind
  rintro _ hnodup rfl
  -- Record by record, each with what it says of its allies and then of its enemies.
  have hloop : Decides (∀ record ∈ records, ∀ other ∈ record.allies ++ record.enemies,
        other ∈ records.map FactionRecord.name)
      (Echoes (records.map FactionRecord.name) (records.flatMap FactionRecord.mentions))
      LoadError.BlamesFiles
      (records.foldlM (addRecord (records.map FactionRecord.name).zipIdx path) {}) := by
    refine Decides.foldlM (fun front => ∀ record ∈ front, ∀ other ∈ record.allies ++ record.enemies,
        other ∈ records.map FactionRecord.name)
      (fun front => Echoes (records.map FactionRecord.name)
        (front.flatMap FactionRecord.mentions)) ?_ ?_ ?_
    · exact ⟨List.forall_mem_nil _, fun _ _ _ _ _ _ => rfl⟩
    · intro front record hgood
      exact (List.forall_mem_append.mp hgood).1
    · intro front record back d hrecords hgood hd
      have hrecord : record.name ∈ records.map FactionRecord.name := by
        apply List.mem_map_of_mem
        rw [hrecords]
        exact List.mem_append_right _ List.mem_cons_self
      rw [List.forall_mem_append, List.forall_mem_singleton, and_iff_right hgood,
        List.flatMap_append, List.flatMap_singleton]
      exact decides_addRecord hnodup path record hrecord hd
  apply hloop.bind_ok
  intro d _ hd
  exact ⟨_, rfl, rfl, hd⟩

end Diplomacy

end GalaxyMarket
