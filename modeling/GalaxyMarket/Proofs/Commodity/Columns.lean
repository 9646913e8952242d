import GalaxyMarket.Number.Binary64
import GalaxyMarket.Commodity.Columns
import GalaxyMarket.Proofs.Commodity.Drafting

/-!
# Columns, index and draft stay in step

The columns of a draft with their index are another form of the draft that is a list: side by side
they are the list, and a name has the number of the place at which the list has it last
(`DraftColumns.InStep`). Registering and attaching keep them in step, in any order and with any
names, as long as there are numbers enough for all commodities. So a number from the index always
finds its place, and what is known of drafts holds of the columns (`drafts_freeze_exactly`).
-/

namespace GalaxyMarket

variable {α : Type}

namespace DraftColumns

/-- Columns with an index that are a draft. -/
structure InStep (columns : DraftColumns α) (draft : CatalogDraft α) : Prop where
  size_eq : columns.sources.size = columns.commodities.size
  listings_eq :
    List.zipWith Listing.mk columns.commodities.toList columns.sources.toList = draft.listings
  id?_eq : ∀ name, columns.id? name = (draft.find? name).map UInt32.ofNat
  repeated_eq : columns.repeated.toList = draft.repeated

/-- The columns after a call. There are none if a source has no place. -/
def perform (columns : DraftColumns α) : DraftCall α → Option (DraftColumns α)
  | .register commodity => some (columns.register commodity).2
  | .attach name source =>
    (columns.attach name source).map fun result => result.toOption.getD columns

/-- The columns after some calls. -/
def ofCalls (calls : List (DraftCall α)) : Option (DraftColumns α) := calls.foldlM perform {}

variable {columns : DraftColumns α} {draft : CatalogDraft α} {h : DraftHistory α} {name : String}

/-- Side by side with as many sources are all commodities. -/
theorem map_commodity_zipWith (hsize : columns.sources.size = columns.commodities.size) :
    (List.zipWith Listing.mk columns.commodities.toList columns.sources.toList).map
      Listing.commodity = columns.commodities.toList := by
  have hlength : columns.commodities.toList.length ≤ columns.sources.toList.length :=
    Nat.le_of_eq hsize.symm
  rw [List.map_zipWith]
  exact List.map_zip_eq_zipWith.symm.trans (List.map_fst_zip hlength)

/-- At the start there are no columns, no names and no listings. -/
theorem inStep_empty : InStep ({} : DraftColumns α) {} where
  size_eq := rfl
  listings_eq := rfl
  id?_eq _ := rfl
  repeated_eq := rfl

namespace InStep

/-- There is a listing for each commodity, -/
theorem size_listings (hd : columns.InStep draft) :
    draft.listings.length = columns.commodities.size := by
  rw [← hd.listings_eq, List.length_zipWith, Array.length_toList, Array.length_toList, hd.size_eq,
    Nat.min_self]

/-- and it is of this commodity. -/
theorem commodities_eq (hd : columns.InStep draft) :
    columns.commodities.toList = draft.listings.map Listing.commodity := by
  rw [← hd.listings_eq, map_commodity_zipWith hd.size_eq]

/-- **Registering** writes to all columns and to the index. -/
theorem register (hd : columns.InStep draft) (commodity : Commodity) :
    (columns.register commodity).2.InStep (draft.register commodity) where
  size_eq := by
    show (columns.sources.push none).size = (columns.commodities.push commodity).size
    rw [Array.size_push, Array.size_push, hd.size_eq]
  listings_eq := by
    show List.zipWith Listing.mk (columns.commodities.push commodity).toList
      (columns.sources.push none).toList = draft.listings ++ [⟨commodity, none⟩]
    rw [Array.toList_push, Array.toList_push, List.zipWith_append (by simp [hd.size_eq]),
      hd.listings_eq]
    rfl
  id?_eq name := by
    show List.lookup name ((commodity.name, UInt32.ofNat columns.commodities.size) :: columns.ids) =
      (CatalogDraft.find? ⟨draft.listings ++ [⟨commodity, none⟩], _⟩ name).map UInt32.ofNat
    rw [List.lookup_cons, CatalogDraft.find?_append_singleton _ draft.repeated]
    -- The pair in front of the index stands for the listing at the end.
    by_cases hname : commodity.name = name
    · rw [if_pos hname, hname, beq_self_eq_true, Option.map_some, hd.size_listings]
    · rw [if_neg hname, beq_eq_false_iff_ne.mpr (Ne.symm hname)]
      exact hd.id?_eq name
  repeated_eq := by
    -- A name has a number if and only if it is found, whatever the number is.
    have hknown : (columns.ids.lookup commodity.name).isSome =
        (draft.find? commodity.name).isSome := by
      rw [show columns.ids.lookup commodity.name = _ from hd.id?_eq commodity.name,
        Option.isSome_map]
    show (if (columns.ids.lookup commodity.name).isSome then
      columns.repeated.push commodity.name else columns.repeated).toList =
        if (draft.find? commodity.name).isSome then draft.repeated ++ [commodity.name]
        else draft.repeated
    rw [hknown]
    split
    · rw [Array.toList_push, hd.repeated_eq]
    · exact hd.repeated_eq

/-- The number of a name is a place in the column of sources. -/
theorem toNat_lt (hd : columns.InStep draft) (hfew : draft.listings.length < UInt32.size) {i : ℕ}
    (hfind : draft.find? name = some i) :
    (UInt32.ofNat i).toNat = i ∧ i < columns.sources.size := by
  obtain ⟨l, hl, -⟩ := CatalogDraft.exists_of_find?_eq_some hfind
  have hlt : i < draft.listings.length := (List.getElem?_eq_some_iff.mp hl).1
  refine ⟨UInt32.toNat_ofNat_of_lt' (Nat.lt_trans hlt hfew), ?_⟩
  rwa [hd.size_eq, ← hd.size_listings]

/-- **Attaching** finds the commodity that the draft finds, and writes to its place. -/
theorem attach (hd : columns.InStep draft) (hfew : draft.listings.length < UInt32.size)
    (name : String) (source : Source α) :
    (draft.find? name = none ∧ columns.attach name source = some (.error (.notFound name))) ∨
    ∃ i after, draft.find? name = some i ∧ columns.attach name source = some (.ok after) ∧
      after.InStep (draft.perform (.attach name source)) := by
  have hid := hd.id?_eq name
  unfold DraftColumns.attach
  cases hfind : draft.find? name with
  | none =>
    rw [hfind, Option.map_none] at hid
    rw [hid]
    exact Or.inl ⟨rfl, rfl⟩
  | some i =>
    -- No bit of the place was lost in the number, and there is a source for each commodity.
    obtain ⟨hi, hlt⟩ := hd.toNat_lt hfew hfind
    rw [hfind, Option.map_some] at hid
    rw [hid]
    dsimp only
    rw [hi, if_pos hlt, CatalogDraft.perform_attach_of_find? hfind]
    refine Or.inr ⟨i, _, rfl, rfl, ?_⟩
    constructor
    case size_eq => exact (Array.size_setIfInBounds ..).trans hd.size_eq
    case listings_eq =>
      show List.zipWith Listing.mk columns.commodities.toList
        (columns.sources.setIfInBounds i (some source)).toList =
          draft.listings.modify i fun l => { l with source? := some source }
      rw [Array.toList_setIfInBounds, ← hd.listings_eq]
      refine List.ext_getElem? fun j => ?_
      rw [List.getElem?_modify, List.getElem?_zipWith, List.getElem?_zipWith, List.getElem?_set]
      by_cases hij : i = j
      · -- Writing does nothing outside the column, but this place is in it.
        subst hij
        rw [if_pos rfl, if_pos (by rwa [Array.length_toList])]
        have hsource : columns.sources.toList[i]? = some columns.sources[i] := by
          rw [Array.getElem?_toList, Array.getElem?_eq_getElem hlt]
        rw [hsource]
        cases columns.commodities.toList[i]? with
        | none => rfl
        | some commodity => simp
      · rw [if_neg hij]
        simp only [if_neg hij, id_map']
    case id?_eq =>
      -- The index was not written to, and the names are what they were.
      intro other
      refine (hd.id?_eq other).trans (congrArg _ (CatalogDraft.find?_congr ?_ other).symm)
      have hcommodities := CatalogDraft.map_commodity_modify draft.listings i source
      have hnames := congrArg (List.map Commodity.name) hcommodities
      rwa [List.map_map, List.map_map] at hnames
    case repeated_eq => exact hd.repeated_eq

/-- **No call** gets columns and draft out of step. -/
theorem perform (hd : columns.InStep draft) (hfew : draft.listings.length < UInt32.size)
    (call : DraftCall α) :
    ∃ after, columns.perform call = some after ∧ after.InStep (draft.perform call) := by
  cases call with
  | register commodity => exact ⟨_, rfl, hd.register commodity⟩
  | attach name source =>
    rw [DraftColumns.perform]
    rcases hd.attach hfew name source with ⟨hfind, hattach⟩ | ⟨i, after, -, hattach, hafter⟩
    · rw [hattach, CatalogDraft.perform_attach_of_find?_eq_none hfind]
      exact ⟨columns, rfl, hd⟩
    · rw [hattach]
      exact ⟨after, rfl, hafter⟩

/-- **No calls** do, if there are numbers for all commodities that they register. -/
theorem after (hd : columns.InStep draft) (hkeeps : draft.Keeps h) (calls : List (DraftCall α))
    (hfew : (calls.foldl DraftHistory.note h).registered.length < UInt32.size) :
    ∃ after, calls.foldlM DraftColumns.perform columns = some after ∧
      after.InStep (calls.foldl CatalogDraft.perform draft) := by
  induction calls generalizing columns draft h with
  | nil => exact ⟨columns, rfl, hd⟩
  | cons call calls ih =>
    -- Histories only grow, so that there are numbers enough at each call.
    have hlength : draft.listings.length < UInt32.size := by
      rw [hkeeps.length_listings]
      exact Nat.lt_of_le_of_lt (h.length_registered_le (call :: calls)) hfew
    obtain ⟨next, hperform, hnext⟩ := hd.perform hlength call
    obtain ⟨after, hrest, hafter⟩ := ih hnext (hkeeps.perform call) hfew
    refine ⟨after, ?_, hafter⟩
    rw [List.foldlM_cons, hperform]
    exact hrest

/-- **Freezing** the columns is freezing the draft, with the index. -/
theorem freeze_eq (hd : columns.InStep draft) : columns.freeze =
    draft.freeze.map fun catalog => { toCatalog := catalog, ids := columns.ids } := by
  have hrepeated : columns.repeated[0]? = draft.repeated.head? := by
    rw [← hd.repeated_eq, List.head?_eq_getElem?, Array.getElem?_toList]
  have hprices : columns.commodities.find? (fun commodity => commodity.basePrice < 0) =
      (draft.listings.find? fun l => l.commodity.basePrice < 0).map Listing.commodity := by
    rw [← Array.find?_toList, hd.commodities_eq, List.find?_map]
    rfl
  unfold DraftColumns.freeze CatalogDraft.freeze
  rw [hrepeated, hprices, hd.listings_eq]
  cases draft.repeated with
  | cons name rest => rfl
  | nil => cases draft.listings.find? fun l => l.commodity.basePrice < 0 <;> rfl

end InStep

end DraftColumns

/-! ### What comes of a draft -/

/-- While the count of the commodities fits, each place has its number. -/
theorem IndexedCatalog.numbers_eq {catalog : IndexedCatalog α} (hfew : catalog.size < UInt32.size) :
    catalog.numbers = (List.range catalog.size).map UInt32.ofNat := by
  rw [numbers, UInt32.toNat_ofNat_of_lt' hfew]

/-- A catalog that has come of a history. -/
structure IndexedCatalog.Lists [Scalar α] (catalog : IndexedCatalog α) (h : DraftHistory α) :
    Prop where
  /-- Commodities are numbered in the order of their registration. -/
  size_eq : catalog.size = h.registered.length
  numbers_eq : catalog.numbers.map UInt32.toNat = List.range h.registered.length
  commodity?_eq : ∀ i, catalog.commodity? i = h.registered[i]?
  /-- A name has a number if and only if the commodity of this number has the name. -/
  id?_eq_some_iff : ∀ {name id}, catalog.id? name = some id ↔
    ∃ commodity, catalog.commodity? id.toNat = some commodity ∧ commodity.name = name
  /-- The index finds what a search through the commodities finds. -/
  find?_eq : ∀ name, catalog.find? name = (catalog.id? name).map UInt32.toNat
  /-- A commodity has a source if and only if one was attached to its name. -/
  isSome_source?_iff : ∀ {i commodity}, catalog.commodity? i = some commodity →
    ((catalog.source? i).isSome = true ↔ ∃ source, (commodity.name, source) ∈ h.attached)
  /-- It is the last one, and the one that samples are drawn from. -/
  source?_eq : ∀ {i commodity}, catalog.commodity? i = some commodity →
    catalog.source? i = h.attached.lookup commodity.name
  draw?_eq : ∀ {i commodity}, catalog.commodity? i = some commodity → ∀ n,
    (catalog.draw? i n).map Prod.fst =
      (h.attached.lookup commodity.name).map fun source => (source.drawMany n).1
  /-- Where there is no commodity there is no source. -/
  source?_eq_none : ∀ {i}, catalog.commodity? i = none → catalog.source? i = none

/-- The columns of a draft with a history. -/
structure DraftColumns.Records [Scalar α] (columns : DraftColumns α) (h : DraftHistory α) :
    Prop where
  /-- The next commodity gets the next number. -/
  register_fst : ∀ commodity, (columns.register commodity).1.toNat = h.registered.length
  /-- A source is taken if its name was registered, -/
  attach_ok : ∀ {name} source, name ∈ h.names →
    ∃ after, columns.attach name source = some (.ok after)
  /-- and is refused otherwise. -/
  attach_error : ∀ {name} source, name ∉ h.names →
    columns.attach name source = some (.error (.notFound name))
  /-- The draft can be frozen if and only if all names are different and no price is negative. -/
  freeze_ok_iff : (∃ catalog, columns.freeze = .ok catalog) ↔
    h.names.Nodup ∧ ∀ commodity ∈ h.registered, 0 ≤ commodity.basePrice
  /-- If names are not different, the first repeated one is to blame, -/
  freeze_duplicate : ¬h.names.Nodup →
    ∃ name, IsFirstRepeat h.names name ∧ columns.freeze = .error (.duplicate name)
  /-- and if they are, the first negative price. -/
  freeze_negative : h.names.Nodup → ∀ {commodity},
    h.registered.find? (fun commodity => commodity.basePrice < 0) = some commodity →
    columns.freeze = .error (.negativePrice commodity.name commodity.basePrice)
  /-- What is frozen is the catalog of the history. -/
  freeze_ok : ∀ {catalog}, columns.freeze = .ok catalog → catalog.Lists h

section

variable [Scalar α] {columns : DraftColumns α} {draft : CatalogDraft α} {h : DraftHistory α}

/-- **The catalog** of different names. -/
theorem DraftColumns.InStep.lists (hd : columns.InStep draft) (hkeeps : draft.Keeps h)
    (hfew : draft.listings.length < UInt32.size) (hnodup : h.names.Nodup) :
    IndexedCatalog.Lists { toCatalog := ⟨draft.listings⟩, ids := columns.ids } h := by
  have hcommodity : ∀ i : ℕ, draft.listings[i]?.map Listing.commodity = h.registered[i]? := by
    intro i
    rw [← hkeeps.commodities_eq, List.getElem?_map]
  have hsource : ∀ {i : ℕ} {commodity}, draft.listings[i]?.map Listing.commodity = some commodity →
      draft.listings[i]?.bind Listing.source? = h.attached.lookup commodity.name := by
    intro i commodity hi
    obtain ⟨l, hl, rfl⟩ := Option.map_eq_some_iff.mp hi
    rw [hl, Option.bind_some]
    exact hkeeps.source?_eq hnodup l (List.mem_of_getElem? hl)
  -- The last place of a name is its only one, because names are different.
  have hid : ∀ {name} {id : CommodityId}, columns.id? name = some id ↔
      h.names[id.toNat]? = some name := by
    intro name id
    rw [hd.id?_eq, ← hkeeps.find?_eq_some_iff hnodup]
    constructor
    · intro hid
      obtain ⟨i, hfind, rfl⟩ := Option.map_eq_some_iff.mp hid
      rw [(hd.toNat_lt hfew hfind).1, hfind]
    · intro hfind
      rw [hfind, Option.map_some, UInt32.ofNat_toNat]
  constructor
  case size_eq => exact hkeeps.length_listings
  case numbers_eq =>
    have hnumbers : IndexedCatalog.numbers { toCatalog := ⟨draft.listings⟩, ids := columns.ids } =
        (List.range draft.listings.length).map UInt32.ofNat := IndexedCatalog.numbers_eq hfew
    rw [hnumbers, List.map_map, ← hkeeps.length_listings]
    refine (List.map_congr_left fun i hi => ?_).trans (List.map_id _)
    exact UInt32.toNat_ofNat_of_lt' (Nat.lt_trans (List.mem_range.mp hi) hfew)
  case commodity?_eq => exact hcommodity
  case id?_eq_some_iff =>
    intro name id
    refine hid.trans ?_
    rw [DraftHistory.names, List.getElem?_map, Option.map_eq_some_iff, ← hcommodity]
    rfl
  case find?_eq =>
    intro name
    refine Option.ext fun i => ?_
    rw [Option.map_eq_some_iff]
    refine (Catalog.find?_eq_some_iff hkeeps.names_eq hnodup).trans ⟨fun hi => ?_, ?_⟩
    · -- Every place has a number that stands for it.
      have hlt : i < h.names.length := (List.getElem?_eq_some_iff.mp hi).1
      rw [DraftHistory.names, List.length_map, ← hkeeps.length_listings] at hlt
      have htoNat := UInt32.toNat_ofNat_of_lt' (Nat.lt_trans hlt hfew)
      exact ⟨UInt32.ofNat i, hid.mpr (by rwa [htoNat]), htoNat⟩
    · rintro ⟨id, hname, rfl⟩
      exact hid.mp hname
  case isSome_source?_iff =>
    intro i commodity hi
    rw [show Catalog.source? ⟨draft.listings⟩ i = _ from hsource hi, List.lookup_isSome_iff]
    constructor
    · rintro ⟨⟨name, source⟩, hmem, hname⟩
      obtain rfl : commodity.name = name := beq_iff_eq.mp hname
      exact ⟨source, hmem⟩
    · rintro ⟨source, hmem⟩
      exact ⟨_, hmem, beq_self_eq_true _⟩
  case source?_eq => exact hsource
  case draw?_eq =>
    intro i commodity hi n
    rw [Catalog.draw?, show Catalog.source? ⟨draft.listings⟩ i = _ from hsource hi, Option.map_map]
    rfl
  case source?_eq_none =>
    intro i hi
    show draft.listings[i]?.bind Listing.source? = none
    rw [Option.map_eq_none_iff.mp hi, Option.bind_none]

theorem DraftColumns.InStep.records (hd : columns.InStep draft) (hkeeps : draft.Keeps h)
    (hfew : draft.listings.length < UInt32.size) : columns.Records h := by
  -- Freezing comes down to that of the draft, of which the three outcomes are known.
  have hfreeze := hd.freeze_eq
  have hnegative : ∀ {commodity},
      h.registered.find? (fun commodity => commodity.basePrice < 0) = some commodity →
        ¬∀ commodity ∈ h.registered, 0 ≤ commodity.basePrice := by
    intro commodity hfind hprices
    have hbelow := of_decide_eq_true (List.find?_some hfind :)
    exact Int.not_le.mpr hbelow (hprices commodity (List.mem_of_find?_eq_some hfind))
  constructor
  case register_fst =>
    intro commodity
    show (UInt32.ofNat columns.commodities.size).toNat = h.registered.length
    rw [← hd.size_listings, UInt32.toNat_ofNat_of_lt' hfew, hkeeps.length_listings]
  -- There is a place for a source exactly where the draft finds the name.
  case attach_ok =>
    intro name source hknown
    rcases hd.attach hfew name source with ⟨hfind, -⟩ | ⟨i, after, -, hattach, -⟩
    · exact absurd hknown (hkeeps.notMem_names hfind)
    · exact ⟨after, hattach⟩
  case attach_error =>
    intro name source hunknown
    rcases hd.attach hfew name source with ⟨-, hattach⟩ | ⟨i, after, hfind, -, -⟩
    · exact hattach
    · exact absurd (hkeeps.mem_names hfind) hunknown
  case freeze_ok_iff =>
    rw [hfreeze]
    rcases hkeeps.freeze_cases with ⟨hnodup, hprices, heq⟩ | ⟨name, hfirst, heq⟩ |
      ⟨-, commodity, hfind, heq⟩
    · exact iff_of_true ⟨_, by rw [heq]; rfl⟩ ⟨hnodup, hprices⟩
    · exact iff_of_false (by rw [heq]; exact nofun) fun hall => hfirst.not_nodup hall.1
    · exact iff_of_false (by rw [heq]; exact nofun) fun hall => hnegative hfind hall.2
  case freeze_duplicate =>
    intro hrepeats
    rw [hfreeze]
    rcases hkeeps.freeze_cases with ⟨hnodup, -⟩ | ⟨name, hfirst, heq⟩ | ⟨hnodup, -⟩
    · exact absurd hnodup hrepeats
    · exact ⟨name, hfirst, by rw [heq]; rfl⟩
    · exact absurd hnodup hrepeats
  case freeze_negative =>
    intro hnodup commodity hfind
    rw [hfreeze]
    rcases hkeeps.freeze_cases with ⟨-, hprices, -⟩ | ⟨name, hfirst, -⟩ |
      ⟨-, commodity', hfind', heq⟩
    · exact absurd hprices (hnegative hfind)
    · exact absurd hnodup hfirst.not_nodup
    · rw [hfind] at hfind'
      cases hfind'
      rw [heq]
      rfl
  case freeze_ok =>
    intro catalog hok
    rw [hfreeze] at hok
    rcases hkeeps.freeze_cases with ⟨hnodup, -, heq⟩ | ⟨name, -, heq⟩ | ⟨-, commodity, -, heq⟩
    · rw [heq] at hok
      cases hok
      exact hd.lists hkeeps hfew hnodup
    · rw [heq] at hok
      cases hok
    · rw [heq] at hok
      cases hok

end

/-- **Drafts are frozen exactly** if their names differ and no price is negative, whatever is
registered and attached, and in whatever order. No call is the end of the program, and a catalog
lists what was registered with the sources that were attached to it last. -/
theorem drafts_freeze_exactly [Scalar α] (calls : List (DraftCall α))
    (hfew : (DraftHistory.ofCalls calls).registered.length < UInt32.size) :
    ∃ columns, DraftColumns.ofCalls calls = some columns ∧ columns.Records (.ofCalls calls) := by
  obtain ⟨columns, hcolumns, hstep⟩ :=
    DraftColumns.inStep_empty.after CatalogDraft.keeps_empty calls hfew
  have hkeeps := CatalogDraft.keeps_empty.after calls
  refine ⟨columns, hcolumns, hstep.records hkeeps ?_⟩
  rw [hkeeps.length_listings]
  exact hfew

/-- Sources for goods, some of them too early or replaced later. -/
def smithyCalls : List (DraftCall Float) :=
  [.attach "Iron" (.constant ⟨9, 9⟩), .register ⟨"Iron", "", 50⟩, .attach "Iron" (.constant ⟨1, 2⟩),
    .register ⟨"Coal", "", 20⟩, .attach "Iron" (.constant ⟨3, 4⟩)]

/-- The smithy is frozen: coal has number 1 and no source, and iron has its last source. -/
theorem drafts_freeze_exactly_smithy : ∃ columns catalog,
    DraftColumns.ofCalls smithyCalls = some columns ∧ columns.freeze = .ok catalog ∧
      catalog.id? "Coal" = some 1 ∧ catalog.source? 1 = none ∧
      catalog.source? 0 = some (.constant ⟨3, 4⟩) := by
  obtain ⟨columns, hcolumns, hrecords⟩ := drafts_freeze_exactly smithyCalls (by decide)
  have hnames : (DraftHistory.ofCalls smithyCalls).names = ["Iron", "Coal"] := rfl
  obtain ⟨catalog, hok⟩ := hrecords.freeze_ok_iff.mpr ⟨by rw [hnames]; decide, by decide⟩
  have hlists := hrecords.freeze_ok hok
  have hcoal : catalog.commodity? 1 = some ⟨"Coal", "", 20⟩ := hlists.commodity?_eq 1
  refine ⟨columns, catalog, hcolumns, hok, hlists.id?_eq_some_iff.mpr ⟨_, hcoal, rfl⟩, ?_, ?_⟩
  · exact hlists.source?_eq hcoal
  · exact hlists.source?_eq (hlists.commodity?_eq 0)

end GalaxyMarket
