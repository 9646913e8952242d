import GalaxyMarket.Proofs.Market.Run

/-!
# A round of repricing

A round reprices one commodity after the other, in the market that the one before left. What
repricing looks at is the base price and the source of the commodity and its column of the ledger,
beside tuning and index, which stay (`Market.Alike`); what it changes is that source and that column
(`Market.alike_reprice_of_ne`). So the commodities of a round do not hear of each other: the round
leaves each column as if its commodity had been repriced alone, and its events are those of the
commodities, one after the other (`Market.alike_repriceAll`, `Market.repriceAll_snd`).
-/

namespace GalaxyMarket

variable {α : Type}

/-- Setting a source changes one listing, and of that the source only, -/
theorem Catalog.getElem?_setSource (catalog : Catalog α) (c d : Nat)
    (source? : Option (Source α)) :
    (catalog.setSource c source?).listings[d]? =
      if d = c then catalog.listings[d]?.map fun l => { l with source? }
      else catalog.listings[d]? := by
  unfold setSource
  rw [List.getElem?_modify]
  by_cases h : c = d
  · simp [h]
  · simp [h, Ne.symm h]

/-- so that base prices stay, -/
@[simp] theorem Catalog.basePrices_setSource (catalog : Catalog α) (c : Nat)
    (source? : Option (Source α)) :
    (catalog.setSource c source?).basePrices = catalog.basePrices := by
  refine List.ext_getElem? fun d => ?_
  unfold basePrices
  rw [List.getElem?_map, List.getElem?_map, getElem?_setSource]
  split
  · rw [Option.map_map]
    rfl
  · rfl

/-- Each commodity has a base price, -/
theorem Catalog.size_eq (catalog : Catalog α) : catalog.size = catalog.basePrices.length :=
  (List.length_map _).symm

/-- The source of the commodity that gets a new one, if there is such a commodity. -/
theorem Catalog.source?_setSource_self (catalog : Catalog α) (c : Nat)
    (source? : Option (Source α)) :
    (catalog.setSource c source?).source? c = catalog.basePrices[c]?.bind fun _ => source? := by
  rw [Catalog.source?, getElem?_setSource, if_pos rfl, basePrices, List.getElem?_map]
  cases catalog.listings[c]? <;> rfl

/-- and so do the sources of all other commodities. -/
theorem Catalog.source?_setSource_of_ne (catalog : Catalog α) {c d : Nat} (hd : d ≠ c)
    (source? : Option (Source α)) :
    (catalog.setSource c source?).source? d = catalog.source? d := by
  rw [Catalog.source?, getElem?_setSource, if_neg hd]
  rfl

/-- which is that in its listing. -/
theorem Catalog.basePrices_of_listing {catalog : Catalog α} {c : Nat} {listing : Listing α}
    (h : catalog.listings[c]? = some listing) :
    catalog.basePrices[c]? = some listing.commodity.basePrice := by
  rw [basePrices, List.getElem?_map, h, Option.map_some]

/-- There is no source beyond the end of the catalog. -/
theorem Catalog.source?_of_size_le {catalog : Catalog α} {c : Nat} (h : catalog.size ≤ c) :
    catalog.source? c = none := by
  rw [Catalog.source?, List.getElem?_eq_none h, Option.bind_none]

/-- A commodity with a base price and a source is listed with both. -/
theorem Catalog.exists_listing {catalog : Catalog α} {c : Nat} {price : Int} {source : Source α}
    (hprice : catalog.basePrices[c]? = some price) (hsource : catalog.source? c = some source) :
    ∃ good, catalog.listings[c]? = some ⟨good, some source⟩ ∧ good.basePrice = price := by
  obtain ⟨⟨good, _⟩, hlisting, rfl⟩ := Option.bind_eq_some_iff.mp hsource
  refine ⟨good, hlisting, Option.some.inj ?_⟩
  rw [← basePrices_of_listing hlisting, hprice]

namespace Market

variable [Scalar α] {m m' : Market α} {g : Galaxy α} {dt : α} {prepared : Prepared α} {c d : Nat}

/-- Two markets that agree on all that repricing a commodity looks at. -/
structure Alike (c : Nat) (m m' : Market α) : Prop where
  config : m'.config = m.config
  index : m'.index = m.index
  basePrice : m'.catalog.basePrices[c]? = m.catalog.basePrices[c]?
  source : m'.catalog.source? c = m.catalog.source? c
  column : ∀ q, m'.ledger.get? q c = m.ledger.get? q c

omit [Scalar α] in
/-- Being alike does not depend on the order in which two markets are named. -/
theorem Alike.refl (m : Market α) : m.Alike c m := ⟨rfl, rfl, rfl, rfl, fun _ => rfl⟩

omit [Scalar α] in
theorem Alike.symm (h : m.Alike c m') : m'.Alike c m where
  config := h.config.symm
  index := h.index.symm
  basePrice := h.basePrice.symm
  source := h.source.symm
  column q := (h.column q).symm

omit [Scalar α] in
theorem Alike.trans {m'' : Market α} (h : m.Alike c m') (h' : m'.Alike c m'') : m.Alike c m'' where
  config := h'.config.trans h.config
  index := h'.index.trans h.index
  basePrice := h'.basePrice.trans h.basePrice
  source := h'.source.trans h.source
  column q := (h'.column q).trans (h.column q)

/-! ### Moving the trackers -/

/-- The trackers are moved by one pass over the planets of all systems, in the order of the index.
-/
theorem advance_ledger (source : Source α) : (m.advance g dt c source).2.ledger =
    (Pass.visitAll m.config dt c { source, ledger := m.ledger }
      (m.index.keys.flatMap g.planetsIn)).2.ledger :=
  congrArg Pass.ledger (Pass.systems_snd m.index.keys)

/-- No row comes or goes on the way. -/
theorem sameShape_advance (source : Source α) :
    m.ledger.SameShape (m.advance g dt c source).2.ledger := by
  rw [advance_ledger]
  exact Pass.sameShape_visitAll { source, ledger := m.ledger } _

/-- Moving the trackers changes no price. -/
theorem price_advance (source : Source α) (q : PlanetKey) (d : Nat) :
    ((m.advance g dt c source).2.ledger.get? q d).map Quote.price =
      (m.ledger.get? q d).map Quote.price := by
  rw [advance_ledger]
  exact Pass.price_visitAll ..

/-- What a pass writes are the column and the source of its own commodity. -/
theorem alike_advance_of_ne (source : Source α) (hd : d ≠ c) :
    m.Alike d (m.advance g dt c source).2 where
  config := rfl
  index := rfl
  basePrice := congrArg (·[d]?) (Catalog.basePrices_setSource ..)
  source := Catalog.source?_setSource_of_ne _ hd _
  column q := by
    rw [advance_ledger]
    exact Pass.get?_visitAll_of_not fun h => hd h.1

/-- Markets that are alike move their trackers alike, and find the same intensities. -/
theorem Alike.advance (h : m.Alike c m') (g : Galaxy α) (dt : α) (source : Source α) :
    (m'.advance g dt c source).1 = (m.advance g dt c source).1 ∧
      (m.advance g dt c source).2.Alike c (m'.advance g dt c source).2 := by
  have hstart : ({ source, ledger := m.ledger } : Pass α).Alike c { source, ledger := m'.ledger } :=
    ⟨rfl, h.column⟩
  obtain ⟨hintensities, halike⟩ :=
    hstart.systems m.config dt g m.index.keys
  unfold Market.advance
  rw [h.config, h.index]
  -- The source that is put back is the one that is left over, which is the same in both.
  refine ⟨hintensities, rfl, rfl, ?_, ?_, halike.column⟩
  · show (m'.catalog.setSource c _).basePrices[c]? = (m.catalog.setSource c _).basePrices[c]?
    rw [Catalog.basePrices_setSource, Catalog.basePrices_setSource, h.basePrice]
  · show (m'.catalog.setSource c _).source? c = (m.catalog.setSource c _).source? c
    rw [Catalog.source?_setSource_self, Catalog.source?_setSource_self, h.basePrice, halike.source]

/-! ### Writing the prices -/

variable {basePrice : Int} {answer : Except SolveError (List α)}

/-- What the answer of a solve makes of the market: nothing, or it writes prices. -/
theorem settle_cases (m : Market α) (g : Galaxy α) (c : Nat) (basePrice : Int)
    (answer : Except SolveError (List α)) :
    (m.settle g c basePrice answer).1 = m ∨
      ∃ potentials multipliers, answer = .ok potentials ∧ normalize? potentials = some multipliers ∧
        (m.settle g c basePrice answer).1 = { m with
          ledger := m.ledger.writePrices g m.index c basePrice multipliers.values } := by
  cases answer with
  | error reason => exact Or.inl rfl
  | ok potentials =>
    rw [settle]
    cases hmultipliers : normalize? potentials with
    | none => exact Or.inl rfl
    | some multipliers => exact Or.inr ⟨potentials, multipliers, rfl, hmultipliers, rfl⟩

/-- Prices are written in place, -/
theorem sameShape_settle : m.ledger.SameShape (m.settle g c basePrice answer).1.ledger := by
  rcases m.settle_cases g c basePrice answer with h | ⟨_, _, -, -, h⟩
  · rw [h]
    exact .refl _
  · rw [h]
    exact Ledger.sameShape_foldl_priceNext _

/-- in the column of the commodity, -/
theorem alike_settle_of_ne (hd : d ≠ c) : m.Alike d (m.settle g c basePrice answer).1 := by
  rcases m.settle_cases g c basePrice answer with h | ⟨_, _, -, -, h⟩
  · rw [h]
    exact .refl m
  · rw [h]
    exact ⟨rfl, rfl, rfl, rfl, fun q => Ledger.get?_foldl_priceNext_of_ne _ hd⟩

/-- and alike in markets that are. -/
theorem Alike.settle (h : m.Alike c m') :
    (m'.settle g c basePrice answer).2 = (m.settle g c basePrice answer).2 ∧
      (m.settle g c basePrice answer).1.Alike c (m'.settle g c basePrice answer).1 := by
  cases answer with
  | error reason => exact ⟨rfl, h⟩
  | ok potentials =>
    rw [Market.settle, Market.settle]
    cases normalize? potentials with
    | none => exact ⟨rfl, h⟩
    | some multipliers =>
      refine ⟨rfl, h.config, h.index, h.basePrice, h.source, fun q => ?_⟩
      show ((m'.index.keys.zip _).foldl (Ledger.priceNext c g basePrice) m'.ledger).get? q c =
        ((m.index.keys.zip _).foldl (Ledger.priceNext c g basePrice) m.ledger).get? q c
      rw [Ledger.get?_foldl_priceNext, Ledger.get?_foldl_priceNext, h.index, h.column]

/-! ### One commodity -/

/-- Repricing neither adds rows nor drops any. -/
theorem sameShape_reprice : m.ledger.SameShape (m.reprice g dt prepared c).1.ledger := by
  rcases m.source?_cases c with hsource | ⟨good, source, hlisting⟩
  · rw [reprice_of_source?_eq_none hsource]
    exact .refl _
  · rw [reprice_eq hlisting]
    exact (sameShape_advance source).trans sameShape_settle

/-- **Repricing a commodity** changes nothing that repricing another one looks at. -/
theorem alike_reprice_of_ne (hd : d ≠ c) : m.Alike d (m.reprice g dt prepared c).1 := by
  rcases m.source?_cases c with hsource | ⟨good, source, hlisting⟩
  · rw [reprice_of_source?_eq_none hsource]
    exact .refl m
  · rw [reprice_eq hlisting]
    exact (alike_advance_of_ne source hd).trans (alike_settle_of_ne hd)

/-- Repricing does the same in markets that are alike. -/
theorem Alike.reprice (h : m.Alike c m') :
    (m'.reprice g dt prepared c).2 = (m.reprice g dt prepared c).2 ∧
      (m.reprice g dt prepared c).1.Alike c (m'.reprice g dt prepared c).1 := by
  rcases m.source?_cases c with hsource | ⟨good, source, hlisting⟩
  · have hsource' : m'.catalog.source? c = none := h.source.trans hsource
    rw [reprice_of_source?_eq_none hsource, reprice_of_source?_eq_none hsource']
    exact ⟨rfl, h⟩
  · obtain ⟨hintensities, halike⟩ := h.advance g dt source
    -- The goods may have different names, but they have the same base price.
    obtain ⟨good', hlisting', hprice⟩ := Catalog.exists_listing
      (h.basePrice.trans (Catalog.basePrices_of_listing hlisting))
      (h.source.trans (Catalog.source?_of_listing hlisting))
    change good'.basePrice = good.basePrice at hprice
    rw [reprice_eq hlisting, reprice_eq hlisting', hprice, hintensities]
    exact halike.settle

/-! ### All commodities -/

variable {cs : List Nat}

/-- Neither does a round. -/
theorem sameShape_repriceAll : m.ledger.SameShape (m.repriceAll g dt prepared cs).1.ledger := by
  induction cs generalizing m with
  | nil => exact .refl _
  | cons first cs ih =>
    rw [repriceAll_cons]
    exact sameShape_reprice.trans ih

/-- An update neither adds rows nor drops any. -/
theorem sameShape_update : m.ledger.SameShape (m.update g dt).1.ledger := by
  rw [update]
  split
  · exact sameShape_repriceAll
  · exact .refl _

/-- A commodity that has no turn is left alone by all the others. -/
theorem alike_repriceAll_of_notMem (hc : c ∉ cs) :
    m.Alike c (m.repriceAll g dt prepared cs).1 := by
  induction cs generalizing m with
  | nil => exact .refl m
  | cons first cs ih =>
    rw [List.mem_cons, not_or] at hc
    rw [repriceAll_cons]
    exact (alike_reprice_of_ne hc.1).trans (ih hc.2)

/-- **A round leaves each column** as if its commodity had been repriced alone. -/
theorem alike_repriceAll (hnodup : cs.Nodup) (hc : c ∈ cs) :
    (m.reprice g dt prepared c).1.Alike c (m.repriceAll g dt prepared cs).1 := by
  -- A commodity is left alone before its turn, and after it.
  induction cs generalizing m with
  | nil => cases hc
  | cons first cs ih =>
    obtain ⟨hfirst, hnodup⟩ := List.nodup_cons.mp hnodup
    rw [repriceAll_cons]
    rcases List.mem_cons.mp hc with rfl | hc
    · -- None of the commodities that follow is this one again.
      exact alike_repriceAll_of_notMem hfirst
    · have hne : c ≠ first := fun heq => hfirst (heq ▸ hc)
      exact (alike_reprice_of_ne hne).reprice.2.trans (ih hnodup hc)

/-- A round over the whole catalog does so for every commodity, also for one that does not exist. -/
theorem alike_round (m : Market α) (g : Galaxy α) (dt : α) (prepared : Prepared α) (c : Nat) :
    (m.reprice g dt prepared c).1.Alike c
      (m.repriceAll g dt prepared (List.range m.catalog.size)).1 := by
  by_cases hc : c < m.catalog.size
  · exact alike_repriceAll List.nodup_range (List.mem_range.mpr hc)
  · rw [reprice_of_source?_eq_none (Catalog.source?_of_size_le (Nat.le_of_not_lt hc))]
    exact alike_repriceAll_of_notMem fun h => hc (List.mem_range.mp h)

/-- **The events of a round** are those that each commodity would have made alone, in order. -/
theorem repriceAll_snd (hnodup : cs.Nodup) :
    (m.repriceAll g dt prepared cs).2 = cs.flatMap fun c => (m.reprice g dt prepared c).2 := by
  induction cs generalizing m with
  | nil => rfl
  | cons first cs ih =>
    obtain ⟨hfirst, hnodup⟩ := List.nodup_cons.mp hnodup
    rw [repriceAll_cons, List.flatMap_cons, ih hnodup]
    refine congrArg (_ ++ ·) ?_
    -- The first commodity has left nothing behind that the others look at.
    refine List.flatMap_congr fun c hc => ?_
    have hne : c ≠ first := fun heq => hfirst (heq ▸ hc)
    exact (alike_reprice_of_ne hne).reprice.1

end Market

end GalaxyMarket
