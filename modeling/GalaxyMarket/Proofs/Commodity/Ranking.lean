import Mathlib
import GalaxyMarket.Proofs.Commodity.Columns
import GalaxyMarket.Proofs.Text.ByteOrder

/-!
# The order by value

The dearer commodity comes first, and of two that cost the same the one whose name comes first by
bytes. Any two commodities of a catalog are strictly ordered in this way, for the one reason that
their names differ: a draft in which a name came twice is never frozen (`DraftColumns.Registers`).
So there is one list of the commodities that is in order, however they were registered.
-/

namespace GalaxyMarket

variable {α : Type}

/-- The first of two commodities is worth more, or comes first by name at the same price. -/
def Commodity.Outranks (a b : Commodity) : Prop :=
  b.basePrice < a.basePrice ∨
    a.basePrice = b.basePrice ∧ Text.bytes a.name < Text.bytes b.name

/-- No two commodities outrank each other. -/
theorem Commodity.Outranks.asymm {a b : Commodity} (h : a.Outranks b) : ¬b.Outranks a := by
  rintro (hprice | ⟨hprice, hname⟩)
  all_goals rcases h with hprice' | ⟨hprice', hname'⟩
  · omega
  · omega
  · omega
  · exact List.lt_asymm hname hname'

namespace Catalog

/-- The comparison that sorts, in words: by price, and by name at the same price. -/
theorem moreValuable_iff {a b : Commodity} : moreValuable a b = true ↔
    b.basePrice < a.basePrice ∨ a.basePrice = b.basePrice ∧ a.name ≤ b.name := by
  rw [moreValuable, Bool.or_eq_true, Bool.and_eq_true, decide_eq_true_iff, beq_iff_eq,
    decide_eq_true_iff]

/-- The comparison is transitive, -/
theorem moreValuable_trans (a b c : Commodity) (hab : moreValuable a b = true)
    (hbc : moreValuable b c = true) : moreValuable a c = true := by
  rw [moreValuable_iff] at hab hbc ⊢
  rcases hab with hab | ⟨hab, hname⟩
  · omega
  · rcases hbc with hbc | ⟨hbc, hname'⟩
    · omega
    · exact Or.inr ⟨hab.trans hbc, String.le_trans hname hname'⟩

/-- and of two commodities it puts one or the other first. -/
theorem moreValuable_total (a b : Commodity) :
    (moreValuable a b || moreValuable b a) = true := by
  rw [Bool.or_eq_true, moreValuable_iff, moreValuable_iff]
  rcases Int.lt_trichotomy a.basePrice b.basePrice with hlt | heq | hgt
  · exact Or.inr (Or.inl hlt)
  · rcases String.le_total a.name b.name with hname | hname
    · exact Or.inl (Or.inr ⟨heq, hname⟩)
    · exact Or.inr (Or.inr ⟨heq.symm, hname⟩)
  · exact Or.inl (Or.inl hgt)

/-- Between different names the order is strict. -/
theorem outranks_of_moreValuable {a b : Commodity} (h : moreValuable a b = true)
    (hne : a.name ≠ b.name) : a.Outranks b := by
  rcases moreValuable_iff.mp h with hprice | ⟨hprice, hname⟩
  · exact Or.inl hprice
  · -- The names are compared by characters, which is the same as by bytes.
    refine Or.inr ⟨hprice, Text.bytes_lt_bytes_iff.mpr ?_⟩
    exact (Std.le_iff_lt_or_eq.mp hname).resolve_right hne

/-! ### The ranking of a catalog -/

variable {catalog catalog' : Catalog α}

/-- The commodities of a catalog beside their places. -/
def entries (catalog : Catalog α) : List (Commodity × ℕ) :=
  catalog.listings.zipIdx.map fun (l, i) => (l.commodity, i)

/-- The same by value. -/
def ranked (catalog : Catalog α) : List (Commodity × ℕ) :=
  catalog.entries.mergeSort fun a b => moreValuable a.1 b.1

/-- The commodities by value. -/
def commoditiesByValue (catalog : Catalog α) : List Commodity :=
  catalog.byValue.filterMap catalog.commodity?

/-- The ranking lists the places of what was sorted. -/
theorem byValue_eq (catalog : Catalog α) : catalog.byValue = catalog.ranked.map Prod.snd := rfl

theorem ranked_perm (catalog : Catalog α) : catalog.ranked.Perm catalog.entries :=
  List.mergeSort_perm ..

/-- The commodities of the entries, in order of registration. -/
theorem map_fst_entries (catalog : Catalog α) :
    catalog.entries.map Prod.fst = catalog.listings.map Listing.commodity := by
  conv_rhs => rw [← List.zipIdx_map_fst 0 catalog.listings, List.map_map]
  rw [entries, List.map_map]
  rfl

/-- The places of the entries are all places. -/
theorem map_snd_entries (catalog : Catalog α) :
    catalog.entries.map Prod.snd = List.range catalog.size := by
  rw [entries, List.map_map, List.range_eq_range']
  exact List.zipIdx_map_snd 0 catalog.listings

/-- At its place each entry is found again, -/
theorem commodity?_of_mem_entries {entry : Commodity × ℕ} (h : entry ∈ catalog.entries) :
    catalog.commodity? entry.2 = some entry.1 := by
  obtain ⟨⟨l, i⟩, hmem, rfl⟩ := List.mem_map.mp h
  rw [commodity?, List.mem_zipIdx_iff_getElem?.mp hmem, Option.map_some]

/-- also after sorting. -/
theorem commodity?_of_mem_ranked {entry : Commodity × ℕ} (h : entry ∈ catalog.ranked) :
    catalog.commodity? entry.2 = some entry.1 :=
  commodity?_of_mem_entries (catalog.ranked_perm.mem_iff.mp h)

/-- So the commodities by value are those of the sorted entries. -/
theorem commoditiesByValue_eq (catalog : Catalog α) :
    catalog.commoditiesByValue = catalog.ranked.map Prod.fst := by
  rw [commoditiesByValue, byValue_eq, List.filterMap_map, ← List.filterMap_eq_map]
  exact List.filterMap_congr fun entry hentry => commodity?_of_mem_ranked hentry

/-- **All places are ranked**, each once. -/
theorem byValue_perm (catalog : Catalog α) : catalog.byValue.Perm (List.range catalog.size) := by
  rw [byValue_eq, ← map_snd_entries]
  exact catalog.ranked_perm.map Prod.snd

/-- No commodity is lost or doubled by sorting. -/
theorem commoditiesByValue_perm (catalog : Catalog α) :
    catalog.commoditiesByValue.Perm (catalog.listings.map Listing.commodity) := by
  rw [commoditiesByValue_eq, ← map_fst_entries]
  exact catalog.ranked_perm.map Prod.fst

/-- **The ranking is strict** where names are different. -/
theorem pairwise_ranked (hnodup : (catalog.listings.map (·.commodity.name)).Nodup) :
    catalog.ranked.Pairwise fun a b => a.1.Outranks b.1 := by
  have hsorted : catalog.ranked.Pairwise fun a b => moreValuable a.1 b.1 = true :=
    List.pairwise_mergeSort (fun a b c => moreValuable_trans a.1 b.1 c.1)
      (fun a b => moreValuable_total a.1 b.1) catalog.entries
  -- Sorting keeps names different, because it only rearranges them.
  have hnames : (catalog.ranked.map (·.1.name)).Nodup := by
    refine ((catalog.ranked_perm.map (·.1.name)).nodup_iff).mpr ?_
    rwa [← Function.comp_def Commodity.name, ← List.map_map, map_fst_entries, List.map_map]
  exact (hsorted.and (List.pairwise_map.mp hnames)).imp fun h => outranks_of_moreValuable h.1 h.2

/-- The same of the commodities themselves, -/
theorem pairwise_commoditiesByValue (hnodup : (catalog.listings.map (·.commodity.name)).Nodup) :
    catalog.commoditiesByValue.Pairwise Commodity.Outranks := by
  rw [commoditiesByValue_eq]
  exact List.pairwise_map.mpr (pairwise_ranked hnodup)

/-- and of their places. -/
theorem pairwise_byValue (hnodup : (catalog.listings.map (·.commodity.name)).Nodup) :
    catalog.byValue.Pairwise fun i j => ∃ a b, catalog.commodity? i = some a ∧
      catalog.commodity? j = some b ∧ a.Outranks b := by
  rw [byValue_eq]
  refine List.pairwise_map.mpr ((pairwise_ranked hnodup).imp_of_mem fun ha hb h => ?_)
  exact ⟨_, _, commodity?_of_mem_ranked ha, commodity?_of_mem_ranked hb, h⟩

/-- **Of the same commodities there is one ranking.** -/
theorem commoditiesByValue_congr (hnodup : (catalog.listings.map (·.commodity.name)).Nodup)
    (hperm : (catalog.listings.map Listing.commodity).Perm
      (catalog'.listings.map Listing.commodity)) :
    catalog.commoditiesByValue = catalog'.commoditiesByValue := by
  have hnodup' : (catalog'.listings.map (·.commodity.name)).Nodup := by
    have hnames := hperm.map Commodity.name
    rw [List.map_map, List.map_map] at hnames
    exact hnames.nodup_iff.mp hnodup
  -- The order is strict, so that it leaves one way to arrange the same commodities.
  refine List.Perm.eq_of_pairwise (fun a b _ _ hab hba => absurd hba hab.asymm)
    (pairwise_commoditiesByValue hnodup) (pairwise_commoditiesByValue hnodup') ?_
  exact (catalog.commoditiesByValue_perm.trans hperm).trans
    catalog'.commoditiesByValue_perm.symm

end Catalog

/-! ### The ranking by numbers -/

/-- **All numbers are ranked**, each once: a number always finds a commodity. -/
theorem IndexedCatalog.ranking_perm (catalog : IndexedCatalog α) :
    catalog.ranking.Perm catalog.numbers := by
  have hfound : ∀ id ∈ catalog.numbers,
      ∃ commodity, catalog.commodity? id.toNat = some commodity := by
    intro id hid
    obtain ⟨i, hi, rfl⟩ := List.mem_map.mp hid
    -- A count of 32 bits is not more than the size, whatever of it is cut off.
    have hlt : i < catalog.size % UInt32.size := List.mem_range.mp hi
    have hsize : i < UInt32.size := Nat.lt_trans hlt (Nat.mod_lt _ (by decide))
    have hplace : i < catalog.listings.length := Nat.lt_of_lt_of_le hlt (Nat.mod_le ..)
    refine ⟨catalog.listings[i].commodity, ?_⟩
    rw [UInt32.toNat_ofNat_of_lt' hsize, Catalog.commodity?, List.getElem?_eq_getElem hplace,
      Option.map_some]
  have hentries : (catalog.numbers.filterMap fun id =>
      (catalog.commodity? id.toNat).map (·, id)).map Prod.snd = catalog.numbers := by
    rw [List.map_filterMap]
    refine (List.filterMap_congr fun id hid => ?_).trans List.filterMap_some
    obtain ⟨commodity, hcommodity⟩ := hfound id hid
    rw [hcommodity]
    rfl
  exact ((List.mergeSort_perm ..).map Prod.snd).trans (.of_eq hentries)

/-- Where there are numbers enough, they are ranked as the places that they stand for. -/
theorem IndexedCatalog.ranking_eq {catalog : IndexedCatalog α}
    (hfew : catalog.size < UInt32.size) :
    catalog.ranking = catalog.byValue.map UInt32.ofNat := by
  have hentries : (catalog.numbers.filterMap fun id =>
      (catalog.commodity? id.toNat).map (·, id)) =
        catalog.entries.map (Prod.map id UInt32.ofNat) := by
    rw [numbers_eq hfew, ← Catalog.map_snd_entries, List.map_map, List.filterMap_map,
      ← List.filterMap_eq_map]
    refine List.filterMap_congr fun entry hentry => ?_
    have hlt : entry.2 < UInt32.size := by
      refine Nat.lt_trans ?_ hfew
      rw [← List.mem_range, ← Catalog.map_snd_entries]
      exact List.mem_map_of_mem hentry
    show (catalog.commodity? (UInt32.ofNat entry.2).toNat).map (·, UInt32.ofNat entry.2) = _
    rw [UInt32.toNat_ofNat_of_lt' hlt, Catalog.commodity?_of_mem_entries hentry]
    rfl
  rw [ranking, hentries, Catalog.byValue_eq, Catalog.ranked, List.map_map]
  -- Numbers are not compared, so that they can be given before or after sorting.
  have hsort := List.map_mergeSort (l := catalog.entries) (f := Prod.map id UInt32.ofNat)
    (r := fun a b => Catalog.moreValuable a.1 b.1) (s := fun a b => Catalog.moreValuable a.1 b.1)
    fun a _ b _ => rfl
  rw [← hsort, List.map_map]
  rfl

/-! ### Drafts in which a name came twice -/

namespace DraftColumns

variable {columns next : DraftColumns α} {h : DraftHistory α}

/-- What the columns have of a history apart from its sources. This does not take numbers for all
commodities. -/
structure Registers (columns : DraftColumns α) (h : DraftHistory α) : Prop where
  commodities_eq : columns.commodities.toList = h.registered
  size_eq : columns.sources.size = columns.commodities.size
  isSome_id?_iff : ∀ {name}, (columns.id? name).isSome = true ↔ name ∈ h.names
  /-- A name that came twice has been noticed. -/
  nodup : columns.repeated = #[] → h.names.Nodup

/-- Columns without calls. -/
theorem registers_empty : Registers ({} : DraftColumns α) {} where
  commodities_eq := rfl
  size_eq := rfl
  isSome_id?_iff := iff_of_false nofun nofun
  nodup _ := List.nodup_nil

/-- A commodity is written behind the others, whether or not its name was known. -/
theorem Registers.register (hd : columns.Registers h) (commodity : Commodity) :
    (columns.register commodity).2.Registers (h.note (.register commodity)) := by
  have hnames := h.names_register commodity
  constructor
  case commodities_eq =>
    show (columns.commodities.push commodity).toList = h.registered ++ [commodity]
    rw [Array.toList_push, hd.commodities_eq]
  case size_eq =>
    show (columns.sources.push none).size = (columns.commodities.push commodity).size
    rw [Array.size_push, Array.size_push, hd.size_eq]
  case isSome_id?_iff =>
    intro name
    show (List.lookup name ((commodity.name, _) :: columns.ids)).isSome = true ↔ _
    rw [hnames, List.mem_append, List.mem_singleton, ← hd.isSome_id?_iff, List.lookup_cons]
    by_cases hname : name = commodity.name
    · simp [hname]
    · rw [beq_false_of_ne hname]
      exact (or_iff_left hname).symm
  case nodup =>
    -- A name that is known is recorded as repeated, so that only a new one leaves the record empty.
    show (if (columns.ids.lookup commodity.name).isSome then
      columns.repeated.push commodity.name else columns.repeated) = #[] → _
    rw [hnames]
    split
    · exact fun hempty => absurd hempty (Array.push_ne_empty)
    · next hunknown =>
      intro hempty
      have hnew : commodity.name ∉ h.names := fun hmem => hunknown (hd.isSome_id?_iff.mpr hmem)
      exact (hd.nodup hempty).append (List.nodup_singleton _) (List.disjoint_singleton.mpr hnew)

/-- A source changes nothing about commodities. -/
theorem Registers.attach (hd : columns.Registers h) {name : String} {source : Source α}
    (hperform : columns.perform (.attach name source) = some next) :
    next.Registers (h.note (.attach name source)) := by
  have hnote : (h.note (.attach name source)).registered = h.registered := by
    rw [DraftHistory.note]
    split <;> rfl
  have hnames : (h.note (.attach name source)).names = h.names := by
    rw [DraftHistory.names, hnote, DraftHistory.names]
  -- Whether there is such a commodity or not, nothing is written but one of the sources.
  suffices hsame : next.commodities = columns.commodities ∧
      next.sources.size = columns.sources.size ∧ next.ids = columns.ids ∧
        next.repeated = columns.repeated by
    obtain ⟨hcommodities, hsize, hids, hrepeated⟩ := hsame
    constructor
    case commodities_eq => rw [hcommodities, hnote, hd.commodities_eq]
    case size_eq => rw [hsize, hcommodities, hd.size_eq]
    case isSome_id?_iff =>
      intro name
      rw [hnames, ← hd.isSome_id?_iff, id?, hids]
      rfl
    case nodup =>
      rw [hnames, hrepeated]
      exact hd.nodup
  obtain ⟨result, hattach, rfl⟩ := Option.map_eq_some_iff.mp hperform
  unfold DraftColumns.attach at hattach
  split at hattach
  · cases hattach
    exact ⟨rfl, rfl, rfl, rfl⟩
  · split at hattach
    · cases hattach
      exact ⟨rfl, Array.size_setIfInBounds .., rfl, rfl⟩
    · cases hattach

/-- **Columns register what was registered**, whatever is done with them. -/
theorem Registers.after (hd : columns.Registers h) (calls : List (DraftCall α))
    {final : DraftColumns α} (hfinal : calls.foldlM perform columns = some final) :
    final.Registers (calls.foldl DraftHistory.note h) := by
  induction calls generalizing columns h with
  | nil =>
    cases hfinal
    exact hd
  | cons call calls ih =>
    rw [List.foldlM_cons] at hfinal
    obtain ⟨next, hperform, hrest⟩ := Option.bind_eq_some_iff.mp hfinal
    refine ih ?_ hrest
    cases call with
    | register commodity =>
      cases hperform
      exact hd.register commodity
    | attach name source => exact hd.attach hperform

/-- **What is frozen** has different names. -/
theorem Registers.of_freeze (hd : columns.Registers h) {catalog : IndexedCatalog α}
    (hfreeze : columns.freeze = .ok catalog) :
    catalog.listings.map Listing.commodity = h.registered ∧ h.names.Nodup := by
  unfold freeze at hfreeze
  split at hfreeze
  · cases hfreeze
  · cases hfreeze
  · next hrepeated _ =>
    cases hfreeze
    refine ⟨(map_commodity_zipWith hd.size_eq).trans hd.commodities_eq, hd.nodup ?_⟩
    exact Array.size_eq_zero_iff.mp (Nat.le_zero.mp (Array.getElem?_eq_none_iff.mp hrepeated))

end DraftColumns

/-! ### Frozen catalogs -/

/-- A catalog whose commodities are strictly ordered by value. -/
structure IndexedCatalog.RanksStrictly (catalog : IndexedCatalog α) : Prop where
  /-- Every place is ranked once. -/
  byValue_perm : catalog.byValue.Perm (List.range catalog.size)
  /-- Any commodity is dearer than those that come later, or as dear and its name is in front. -/
  pairwise_byValue : catalog.byValue.Pairwise fun i j => ∃ a b, catalog.commodity? i = some a ∧
    catalog.commodity? j = some b ∧ a.Outranks b
  /-- Every number is ranked once, -/
  ranking_perm : catalog.ranking.Perm catalog.numbers
  /-- and while there are enough for all commodities, they are ranked with their places. -/
  map_toNat_ranking : catalog.size < UInt32.size →
    catalog.ranking.map UInt32.toNat = catalog.byValue

theorem IndexedCatalog.ranksStrictly {catalog : IndexedCatalog α}
    (hnodup : (catalog.listings.map (·.commodity.name)).Nodup) : catalog.RanksStrictly where
  byValue_perm := catalog.byValue_perm
  pairwise_byValue := Catalog.pairwise_byValue hnodup
  ranking_perm := catalog.ranking_perm
  map_toNat_ranking hfew := by
    rw [ranking_eq hfew, List.map_map]
    refine (List.map_congr_left fun i hi => ?_).trans (List.map_id _)
    have hlt := List.mem_range.mp (catalog.byValue_perm.mem_iff.mp hi)
    exact UInt32.toNat_ofNat_of_lt' (Nat.lt_trans hlt hfew)

/-- **Frozen catalogs rank their commodities strictly** by value, and the order in which commodities
were registered is of no account: catalogs of the same commodities rank them in the same way. -/
theorem catalogs_rank_strictly {calls : List (DraftCall α)} {columns : DraftColumns α}
    {catalog : IndexedCatalog α} (hcolumns : DraftColumns.ofCalls calls = some columns)
    (hfreeze : columns.freeze = .ok catalog) :
    catalog.RanksStrictly ∧
      ∀ {calls' : List (DraftCall α)} {columns' : DraftColumns α} {catalog' : IndexedCatalog α},
        DraftColumns.ofCalls calls' = some columns' → columns'.freeze = .ok catalog' →
        (catalog.listings.map Listing.commodity).Perm
          (catalog'.listings.map Listing.commodity) →
        catalog.commoditiesByValue.map Commodity.name =
          catalog'.commoditiesByValue.map Commodity.name := by
  have hregisters := DraftColumns.registers_empty.after calls hcolumns
  obtain ⟨hcommodities, hnames⟩ := hregisters.of_freeze hfreeze
  have hnodup : (catalog.listings.map (·.commodity.name)).Nodup := by
    rwa [← Function.comp_def Commodity.name, ← List.map_map, hcommodities]
  refine ⟨IndexedCatalog.ranksStrictly hnodup, fun _ _ hperm => ?_⟩
  rw [Catalog.commoditiesByValue_congr hnodup hperm]

/-- The goods of a bazaar, the second and the last at the same price. -/
def bazaarCalls : List (DraftCall Float) :=
  [.register ⟨"Food", "", 100⟩, .register ⟨"Ore", "", 200⟩, .attach "Ore" (.constant ⟨3, 1⟩),
    .register ⟨"Luxury Goods", "", 800⟩, .register ⟨"Armour", "", 200⟩]

/-- In whatever order the goods of the bazaar come, luxury is in front, and armour before ore. -/
theorem catalogs_rank_strictly_bazaar : ∃ columns catalog columns' catalog',
    DraftColumns.ofCalls bazaarCalls = some columns ∧ columns.freeze = .ok catalog ∧
      DraftColumns.ofCalls bazaarCalls.reverse = some columns' ∧ columns'.freeze = .ok catalog' ∧
      catalog.RanksStrictly ∧
      catalog.commoditiesByValue.map Commodity.name =
        catalog'.commoditiesByValue.map Commodity.name ∧
      catalog'.commoditiesByValue.map Commodity.name =
        ["Luxury Goods", "Armour", "Ore", "Food"] := by
  have hcolumns : DraftColumns.ofCalls bazaarCalls = some _ := rfl
  have hcolumns' : DraftColumns.ofCalls bazaarCalls.reverse = some _ := rfl
  refine ⟨_, _, _, _, hcolumns, rfl, hcolumns', rfl, ?_⟩
  obtain ⟨hranks, hsame⟩ := catalogs_rank_strictly hcolumns rfl
  refine ⟨hranks, hsame hcolumns' rfl ?_, ?_⟩
  · decide
  · cbv

end GalaxyMarket
