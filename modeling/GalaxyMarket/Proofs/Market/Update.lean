import Mathlib
import GalaxyMarket.Galaxy.Shape
import GalaxyMarket.Proofs.Galaxy.Edits
import GalaxyMarket.Proofs.Market.Books
import GalaxyMarket.Proofs.Market.Multipliers

/-!
# What an update leaves

An update walks over commodities, systems and planets, and any of these may have changed since the
index was made: systems that are gone, planets that have no row yet, planets that nobody lives on,
sources that were taken away, a solve that fails. `Market.UpdateSpec` says for each cell of the
ledger what becomes of it, and which events there are; `update_spec` that an update of a ready
market does just that, for every galaxy that edits can make, whether or not the market was refreshed
since.

The planets that an update reaches are those of systems that are there and have a number
(`Market.Serves`). It meets each of them once (`Market.nodup_visits`), because each orbits one
system and each system has one number, so that one multiplier decides a price
(`Market.pricedBy?_zip`) and a tracker moves once. That no commodity disturbs another is
`Market.alike_repriceAll`.
-/

namespace GalaxyMarket

variable {α : Type}

/-- The commodities that have a source, in ascending order. -/
def Catalog.sourced (catalog : Catalog α) : List Nat :=
  (List.range catalog.size).filter fun c => (catalog.source? c).isSome

/-- Commodity by commodity, each with a source appears once. -/
theorem Catalog.sourced_eq_flatMap (catalog : Catalog α) : catalog.sourced.map some =
    (List.range catalog.size).flatMap fun c =>
      if (catalog.source? c).isSome then [some c] else [] := by
  unfold Catalog.sourced
  -- Over any list of commodities, since only their order matters.
  induction List.range catalog.size with
  | nil => rfl
  | cons c cs ih =>
    rw [List.filter_cons, List.flatMap_cons, ← ih]
    split <;> rfl

/-- The commodity that an event is about. -/
def Event.commodity? : Event α → Option Nat
  | .refreshed .. => none
  | .pricesUpdated c .. => some c
  | .solveFailed c _ => some c

/-- The production and the demand tracker. -/
def Quote.trackers (quote : Quote α) : α × α := (quote.supply, quote.demand)

namespace Market

/-- A planet of a system that is there and has a number in the market. -/
structure Serves (m : Market α) (g : Galaxy α) (q : PlanetKey) (planet : Planet) (i : Nat) :
    Prop where
  planet? : g.planet? q = some planet
  contains : g.systems.contains planet.system = true
  position? : m.index.position? planet.system = some i

variable [Scalar α]

/-- What an update of a market does, given what its network was prepared to. -/
structure UpdateSpec (m : Market α) (g : Galaxy α) (dt : α) (prepared : Prepared α) : Prop where
  /-- Commodities have their turn in ascending order, and without a source none has an event. -/
  ascending : ((m.update g dt).2.map Event.commodity?).Sublist (m.catalog.sourced.map some)
  /-- Unless no system is numbered, each with a source has one. -/
  events : m.index.keys ≠ [] →
    (m.update g dt).2.map Event.commodity? = m.catalog.sourced.map some
  /-- A solve that fails is reported, and leaves all prices of its commodity as they were. -/
  failed : ∀ {c good source reason}, m.catalog.listings[c]? = some ⟨good, some source⟩ →
    prepared.solve (m.advance g (elapsed dt) c source).1 = .error reason →
    .solveFailed c reason ∈ (m.update g dt).2 ∧
      ∀ q, ((m.update g dt).1.ledger.get? q c).map Quote.price =
        (m.ledger.get? q c).map Quote.price
  /-- A solve that succeeds is reported, and prices every planet that is served and has a row by the
  potential of its own system. -/
  solved : m.index.keys ≠ [] →
    ∀ {c good source potentials}, m.catalog.listings[c]? = some ⟨good, some source⟩ →
    prepared.solve (m.advance g (elapsed dt) c source).1 = .ok potentials →
    ∃ multipliers, normalize? potentials = some multipliers ∧
      .pricesUpdated c multipliers.least multipliers.greatest ∈ (m.update g dt).2 ∧
      ∀ {q planet i}, m.Serves g q planet i → m.ledger.contains q = true →
        ∃ quote x, (m.update g dt).1.ledger.get? q c = some quote ∧
          multipliers.values[i]? = some x ∧ quote.price = scaledPrice good.basePrice x
  /-- On inhabited planets that are served, the trackers move, by one sample. -/
  moved : ∀ {c q planet i quote}, c ∈ m.catalog.sourced → m.Serves g q planet i →
    planet.inhabited = true → m.ledger.get? q c = some quote →
    ∃ sample, ((m.update g dt).1.ledger.get? q c).map Quote.trackers =
      some (quote.track m.config (elapsed dt) sample).trackers
  /-- All other trackers stay. -/
  kept : ∀ {c q}, (∀ planet i, c ∈ m.catalog.sourced → m.Serves g q planet i →
      planet.inhabited = false) →
    ((m.update g dt).1.ledger.get? q c).map Quote.trackers =
      (m.ledger.get? q c).map Quote.trackers
  /-- Trackers do not depend on how the solves come out. -/
  unsolved : ∀ (other : Prepared α) (q : PlanetKey) (c : Nat),
    ((m.update g dt).1.ledger.get? q c).map Quote.trackers =
      ((update { m with prepared? := some other } g dt).1.ledger.get? q c).map Quote.trackers
  /-- A commodity without a source keeps everything. -/
  unsourced : ∀ {c}, c ∉ m.catalog.sourced →
    ∀ q, (m.update g dt).1.ledger.get? q c = m.ledger.get? q c
  /-- So does a planet that is not served. -/
  unserved : ∀ {q}, (∀ planet i, ¬ m.Serves g q planet i) →
    (m.update g dt).1.ledger.row? q = m.ledger.row? q
  /-- No row is added or removed, nor does any change its width. -/
  rows : ∀ q, ((m.update g dt).1.ledger.row? q).map List.length =
    (m.ledger.row? q).map List.length

variable {m : Market α} {g g₀ : Galaxy α} {dt : α} {prepared : Prepared α} {q : PlanetKey}
  {planet : Planet} {c i : Nat}

/-! ### The planets that an update meets -/

omit [Scalar α] in
/-- A planet that is served orbits the system that it names. -/
theorem Serves.home? (h : m.Serves g q planet i) : g.home? q = some planet.system :=
  Galaxy.home?_of_planet? h.planet?

omit [Scalar α] in
/-- The number of a system that is served leads back to it. -/
theorem Serves.getElem?_keys (h : m.Serves g q planet i) (hindex : m.index = .ofGalaxy g₀) :
    m.index.keys[i]? = some planet.system := by
  have hi := h.position?
  rw [hindex] at hi ⊢
  exact SystemIndex.position?_ofGalaxy_eq_some_iff.mp hi

omit [Scalar α] in
/-- Where a planet is served there is a system to price. -/
theorem Serves.keys_ne_nil (h : m.Serves g q planet i) (hindex : m.index = .ofGalaxy g₀) :
    m.index.keys ≠ [] :=
  List.ne_nil_of_mem (List.mem_of_getElem? (h.getElem?_keys hindex))

omit [Scalar α] in
/-- **The planets that an update meets** are those that are served. -/
theorem mem_visits_iff (hg : g.IsOrderly) (hindex : m.index = .ofGalaxy g₀) :
    (q, planet) ∈ m.index.keys.flatMap g.planetsIn ↔ ∃ i, m.Serves g q planet i := by
  rw [List.mem_flatMap]
  constructor
  · rintro ⟨key, hkey, hmem⟩
    obtain ⟨hplanet, rfl⟩ := hg.mem_planetsIn_iff.mp hmem
    obtain ⟨i, hi⟩ := List.mem_iff_getElem?.mp hkey
    refine ⟨i, hplanet, hg.contains_system hplanet, ?_⟩
    rw [hindex] at hi ⊢
    exact SystemIndex.position?_ofGalaxy_eq_some_iff.mpr hi
  · rintro ⟨i, h⟩
    exact ⟨planet.system, List.mem_of_getElem? (h.getElem?_keys hindex),
      hg.mem_planetsIn_iff.mpr ⟨h.planet?, rfl⟩⟩

omit [Scalar α] in
/-- **An update meets each planet once.** -/
theorem nodup_visits (hg : g.IsOrderly) (hindex : m.index = .ofGalaxy g₀) :
    ((m.index.keys.flatMap g.planetsIn).map Prod.fst).Nodup := by
  rw [List.map_flatMap, List.nodup_flatMap]
  refine ⟨fun key _ => hg.nodup_planetsIn key, ?_⟩
  have hkeys : m.index.keys.Nodup := hindex ▸ SystemIndex.nodup_keys_ofGalaxy g₀
  refine hkeys.imp fun {a b} hne p ha hb => hne ?_
  -- A planet that two systems list orbits both, so that they are one.
  have ha := hg.mem_map_planetsIn_iff.mp ha
  have hb := hg.mem_map_planetsIn_iff.mp hb
  exact Option.some.inj (ha.symm.trans hb)

omit [Scalar α] in
/-- Of all the multipliers, the one that prices a planet is that of its system. -/
theorem pricedBy?_zip (hg : g.IsOrderly) (hindex : m.index = .ofGalaxy g₀)
    (h : m.Serves g q planet i) {multipliers : List α}
    (hlength : multipliers.length = m.index.keys.length) :
    ∃ x, multipliers[i]? = some x ∧
      Ledger.pricedBy? g q (m.index.keys.zip multipliers) = some (planet.system, x) := by
  have hi : m.index.keys[i]? = some planet.system := h.getElem?_keys hindex
  have hlt : i < multipliers.length := hlength ▸ (List.getElem?_eq_some_iff.mp hi).1
  have hx : multipliers[i]? = some multipliers[i] := List.getElem?_eq_getElem hlt
  refine ⟨multipliers[i], hx, ?_⟩
  have hmem : (planet.system, multipliers[i]) ∈ m.index.keys.zip multipliers :=
    List.mem_of_getElem? (List.getElem?_zip_eq_some.mpr ⟨hi, hx⟩)
  -- Some system prices the planet, and that can only be the one it orbits.
  cases hlast : Ledger.pricedBy? g q (m.index.keys.zip multipliers) with
  | none =>
    have hlists := hg.mem_map_planetsIn_iff.mpr h.home?
    exact absurd hlists (Ledger.pricedBy?_eq_none_iff.mp hlast _ hmem)
  | some entry =>
    obtain ⟨key, y⟩ := entry
    obtain ⟨hentry, hlists⟩ := Ledger.pricedBy?_eq_some hlast
    obtain rfl : planet.system = key :=
      Option.some.inj (h.home?.symm.trans (hg.mem_map_planetsIn_iff.mp hlists))
    -- The system has one number only.
    obtain ⟨j, hj⟩ := List.mem_iff_getElem?.mp hentry
    obtain ⟨hkey, hy⟩ := List.getElem?_zip_eq_some.mp hj
    obtain rfl : i = j := by
      rw [hindex] at hi hkey
      exact SystemIndex.system?_inj hi hkey
    rw [hx] at hy
    rw [Option.some.inj hy]

/-! ### Trackers -/

/-- The ledger once the trackers of a commodity have moved, before any price is written. -/
def trackedLedger (m : Market α) (g : Galaxy α) (dt : α) (c : Nat) : Ledger α :=
  (m.catalog.source? c).elim m.ledger fun source => (m.advance g dt c source).2.ledger

/-- A solve has no part in trackers, whatever its answer is, -/
theorem trackers_settle (m : Market α) (g : Galaxy α) (c : Nat) (basePrice : Int)
    (answer : Except SolveError (List α)) (q : PlanetKey) :
    ((m.settle g c basePrice answer).1.ledger.get? q c).map Quote.trackers =
      (m.ledger.get? q c).map Quote.trackers := by
  rcases m.settle_cases g c basePrice answer with h | ⟨_, _, -, -, h⟩
  · rw [h]
  · rw [h]
    refine (congrArg _ (Ledger.get?_foldl_priceNext _)).trans ?_
    rw [Option.map_map]
    rfl

/-- so that repricing leaves them as the pass before it did. -/
theorem trackers_reprice (m : Market α) (g : Galaxy α) (dt : α) (prepared : Prepared α) (c : Nat)
    (q : PlanetKey) :
    ((m.reprice g dt prepared c).1.ledger.get? q c).map Quote.trackers =
      ((m.trackedLedger g dt c).get? q c).map Quote.trackers := by
  unfold trackedLedger
  rcases m.source?_cases c with hsource | ⟨good, source, hlisting⟩
  · rw [reprice_of_source?_eq_none hsource, hsource]
    rfl
  · have hsource : m.catalog.source? c = some source := Catalog.source?_of_listing hlisting
    rw [reprice_eq hlisting, trackers_settle, hsource]
    rfl

omit [Scalar α] in
/-- A commodity with a source is listed with it. -/
theorem mem_sourced_iff : c ∈ m.catalog.sourced ↔
    ∃ good source, m.catalog.listings[c]? = some ⟨good, some source⟩ := by
  unfold Catalog.sourced
  rw [List.mem_filter, List.mem_range]
  rcases m.source?_cases c with hsource | ⟨good, source, hlisting⟩
  · rw [hsource]
    refine iff_of_false (fun h => nomatch h.2) ?_
    rintro ⟨good, source, hlisting⟩
    cases (Catalog.source?_of_listing hlisting).symm.trans hsource
  · refine iff_of_true ⟨(List.getElem?_eq_some_iff.mp hlisting).1, ?_⟩ ⟨good, source, hlisting⟩
    rw [Catalog.source?_of_listing hlisting]
    rfl

/-- A column of the ledger after a round is as if its commodity had been repriced alone. -/
theorem get?_repriceAll (m : Market α) (g : Galaxy α) (dt : α) (prepared : Prepared α)
    (q : PlanetKey) (c : Nat) :
    (m.repriceAll g dt prepared (List.range m.catalog.size)).1.ledger.get? q c =
      (m.reprice g dt prepared c).1.ledger.get? q c :=
  (alike_round m g dt prepared c).column q

/-- What a round makes of the trackers is settled before any price is. -/
theorem trackers_repriceAll (m : Market α) (g : Galaxy α) (dt : α) (prepared : Prepared α)
    (q : PlanetKey) (c : Nat) :
    ((m.repriceAll g dt prepared (List.range m.catalog.size)).1.ledger.get? q c).map
        Quote.trackers =
      ((m.trackedLedger g dt c).get? q c).map Quote.trackers := by
  rw [get?_repriceAll, trackers_reprice]

/-! ### Events -/

/-- Potentials of a network that is not empty can be rescaled, one multiplier for each system. -/
theorem exists_multipliers_of_length (hkeys : m.index.keys ≠ []) {potentials : List α}
    (hlength : potentials.length = m.index.keys.length) :
    ∃ multipliers, normalize? potentials = some multipliers ∧
      multipliers.values.length = m.index.keys.length := by
  have hne : potentials ≠ [] := by
    rintro rfl
    exact hkeys (List.length_eq_zero_iff.mp hlength.symm)
  obtain ⟨multipliers, hmultipliers⟩ := exists_normalize? hne
  exact ⟨multipliers, hmultipliers, (values_normalize? hmultipliers).1.trans hlength⟩

/-- What a solve finds can be rescaled. -/
theorem exists_multipliers (hkeys : m.index.keys ≠ []) {source : Source α} {potentials : List α}
    (hsolve : prepared.solve (m.advance g dt c source).1 = .ok potentials) :
    ∃ multipliers, normalize? potentials = some multipliers ∧
      multipliers.values.length = m.index.keys.length :=
  exists_multipliers_of_length hkeys
    ((Prepared.length_of_solve hsolve).trans (Pass.length_systems ..))

/-- A commodity has an event if it has a source, unless there is nothing to price. -/
theorem commodity?_reprice (m : Market α) (g : Galaxy α) (dt : α) (prepared : Prepared α)
    (c : Nat) :
    (((m.reprice g dt prepared c).2.map Event.commodity?).Sublist
      (if (m.catalog.source? c).isSome then [some c] else [])) ∧
    (m.index.keys ≠ [] → (m.reprice g dt prepared c).2.map Event.commodity? =
      if (m.catalog.source? c).isSome then [some c] else []) := by
  rcases m.source?_cases c with hsource | ⟨good, source, hlisting⟩
  · -- Without a source there is no solve, and nothing to report.
    rw [reprice_of_source?_eq_none hsource, hsource]
    exact ⟨.refl _, fun _ => rfl⟩
  · have hsource : m.catalog.source? c = some source := Catalog.source?_of_listing hlisting
    rw [reprice_eq hlisting, hsource]
    cases hsolve : prepared.solve (m.advance g dt c source).1 with
    | error reason => exact ⟨.refl _, fun _ => rfl⟩
    | ok potentials =>
      rw [settle]
      cases hmultipliers : normalize? potentials with
      | none =>
        refine ⟨List.nil_sublist _, fun hkeys => ?_⟩
        obtain ⟨multipliers, hsome, -⟩ := exists_multipliers hkeys hsolve
        cases hmultipliers.symm.trans hsome
      | some multipliers => exact ⟨.refl _, fun _ => rfl⟩

/-! ### One commodity -/

/-- A solve that fails leaves the trackers where they moved to, and no prices. -/
theorem reprice_of_error {good : Commodity} {source : Source α} {reason : SolveError}
    (hlisting : m.catalog.listings[c]? = some ⟨good, some source⟩)
    (hsolve : prepared.solve (m.advance g dt c source).1 = .error reason) :
    m.reprice g dt prepared c = ((m.advance g dt c source).2, [.solveFailed c reason]) := by
  rw [reprice_eq hlisting, hsolve]
  rfl

/-- One that succeeds writes them. -/
theorem reprice_of_ok {good : Commodity} {source : Source α} {potentials : List α}
    {multipliers : Multipliers α}
    (hlisting : m.catalog.listings[c]? = some ⟨good, some source⟩)
    (hsolve : prepared.solve (m.advance g dt c source).1 = .ok potentials)
    (hmultipliers : normalize? potentials = some multipliers) :
    m.reprice g dt prepared c =
      ({ (m.advance g dt c source).2 with
        ledger := (m.advance g dt c source).2.ledger.writePrices g m.index c good.basePrice
          multipliers.values },
        [.pricesUpdated c multipliers.least multipliers.greatest]) := by
  rw [reprice_eq hlisting, hsolve, settle, hmultipliers]
  rfl

/-- A planet that is served is priced by the multiplier of its system. -/
theorem get?_writePrices_of_serves (hg : g.IsOrderly) (hindex : m.index = .ofGalaxy g₀)
    (h : m.Serves g q planet i) {multipliers : List α}
    (hlength : multipliers.length = m.index.keys.length) {ledger : Ledger α} {quote : Quote α}
    (hquote : ledger.get? q c = some quote) (basePrice : Int) :
    ∃ x, multipliers[i]? = some x ∧
      (ledger.writePrices g m.index c basePrice multipliers).get? q c =
        some { quote with price := scaledPrice basePrice x } := by
  obtain ⟨x, hx, hlast⟩ := pricedBy?_zip hg hindex h hlength
  refine ⟨x, hx, (Ledger.get?_foldl_priceNext _).trans ?_⟩
  rw [hquote, hlast]
  rfl

/-- A planet that is not served keeps its price. -/
theorem get?_writePrices_of_not_serves (hg : g.IsOrderly) (hindex : m.index = .ofGalaxy g₀)
    (h : ∀ planet i, ¬ m.Serves g q planet i) (multipliers : List α) (ledger : Ledger α)
    (basePrice : Int) :
    (ledger.writePrices g m.index c basePrice multipliers).get? q c = ledger.get? q c := by
  -- Any system that lists the planet and has a number would serve it.
  have hlast : Ledger.pricedBy? g q (m.index.keys.zip multipliers) = none := by
    refine Ledger.pricedBy?_eq_none_iff.mpr fun entry hentry hmem => ?_
    obtain ⟨⟨_, planet⟩, hplanet, rfl⟩ := List.mem_map.mp hmem
    have hkey : entry.1 ∈ m.index.keys := (List.of_mem_zip hentry).1
    obtain ⟨i, hi⟩ := (mem_visits_iff hg hindex).mp (List.mem_flatMap.mpr ⟨_, hkey, hplanet⟩)
    exact h planet i hi
  refine (Ledger.get?_foldl_priceNext _).trans ?_
  rw [hlast]
  exact Option.map_id_apply

/-- Where the trackers of a commodity move, they do so by one sample, drawn from a source of which
all is kept that draws keep. -/
theorem trackedLedger_of_serves (hg : g.IsOrderly) (hindex : m.index = .ofGalaxy g₀)
    {P : Source α → Prop} (hdraw : ∀ source, P source → P source.draw.2)
    {source : Source α} (hsource : m.catalog.source? c = some source) (hP : P source)
    (h : m.Serves g q planet i) (hinhabited : planet.inhabited = true)
    {quote : Quote α} (hquote : m.ledger.get? q c = some quote) (dt : α) :
    ∃ source, P source ∧
      (m.trackedLedger g dt c).get? q c = some (quote.track m.config dt source.draw.1) := by
  have hvisit : (q, planet) ∈ m.index.keys.flatMap g.planetsIn :=
    (mem_visits_iff hg hindex).mpr ⟨i, h⟩
  unfold trackedLedger
  rw [hsource, Option.elim_some, advance_ledger]
  exact Pass.get?_visitAll hdraw hP (nodup_visits hg hindex) hvisit hinhabited hquote

/-- Everywhere else the ledger is as before. -/
theorem trackedLedger_of_not_serves (hg : g.IsOrderly) (hindex : m.index = .ofGalaxy g₀)
    (h : ∀ planet i, c ∈ m.catalog.sourced → m.Serves g q planet i → planet.inhabited = false)
    (dt : α) : (m.trackedLedger g dt c).get? q c = m.ledger.get? q c := by
  unfold trackedLedger
  rcases m.source?_cases c with hsource | ⟨good, source, hlisting⟩
  · rw [hsource]
    rfl
  · have hsource : m.catalog.source? c = some source := Catalog.source?_of_listing hlisting
    rw [hsource, Option.elim_some, advance_ledger]
    refine Pass.get?_visitAll_of_not ?_
    rintro ⟨-, planet, hvisit, hinhabited⟩
    obtain ⟨i, hi⟩ := (mem_visits_iff hg hindex).mp hvisit
    rw [h planet i (mem_sourced_iff.mpr ⟨good, source, hlisting⟩) hi] at hinhabited
    cases hinhabited

/-- Repricing passes over a planet that is not served. -/
theorem get?_reprice_of_not_serves (hg : g.IsOrderly) (hindex : m.index = .ofGalaxy g₀)
    (h : ∀ planet i, ¬ m.Serves g q planet i) :
    (m.reprice g dt prepared c).1.ledger.get? q c = m.ledger.get? q c := by
  rcases m.source?_cases c with hsource | ⟨good, source, hlisting⟩
  · rw [reprice_of_source?_eq_none hsource]
  · have hsource : m.catalog.source? c = some source := Catalog.source?_of_listing hlisting
    -- Neither the pass nor the prices reach the planet.
    have hadvance : (m.advance g dt c source).2.ledger.get? q c = m.ledger.get? q c := by
      have htracked := trackedLedger_of_not_serves hg hindex
        (c := c) (fun planet i _ hserves => absurd hserves (h planet i)) dt
      rwa [trackedLedger, hsource, Option.elim_some] at htracked
    rw [reprice_eq hlisting]
    rcases (m.advance g dt c source).2.settle_cases g c good.basePrice
      (prepared.solve (m.advance g dt c source).1) with hsettle | ⟨_, multipliers, -, -, hsettle⟩
    · rw [hsettle, hadvance]
    · rw [hsettle]
      exact (get?_writePrices_of_not_serves hg hindex h multipliers.values _ _).trans hadvance

/-! ### The whole update -/

section

variable (hphase : m.phase = .ready) (hprepared : m.prepared? = some prepared)

include hphase hprepared

/-- Of a round over all commodities, a quote shows the turn of its own. -/
theorem get?_update (g : Galaxy α) (dt : α) (q : PlanetKey) (c : Nat) :
    (m.update g dt).1.ledger.get? q c =
      (m.reprice g (elapsed dt) prepared c).1.ledger.get? q c := by
  rw [update_of_ready hphase hprepared, get?_repriceAll]

/-- Trackers show the pass of their own commodity. -/
theorem trackers_update (g : Galaxy α) (dt : α) (q : PlanetKey) (c : Nat) :
    ((m.update g dt).1.ledger.get? q c).map Quote.trackers =
      ((m.trackedLedger g (elapsed dt) c).get? q c).map Quote.trackers := by
  rw [update_of_ready hphase hprepared, trackers_repriceAll]

/-- All events are those of single commodities, in order. -/
theorem update_snd (g : Galaxy α) (dt : α) : (m.update g dt).2 =
    (List.range m.catalog.size).flatMap fun c => (m.reprice g (elapsed dt) prepared c).2 := by
  rw [update_of_ready hphase hprepared, repriceAll_snd List.nodup_range]

/-- So each event of a commodity is among them. -/
theorem mem_update_snd {good : Commodity} {source : Source α} {event : Event α}
    (hlisting : m.catalog.listings[c]? = some ⟨good, some source⟩)
    (hevent : event ∈ (m.reprice g (elapsed dt) prepared c).2) : event ∈ (m.update g dt).2 := by
  rw [update_snd hphase hprepared, List.mem_flatMap]
  exact ⟨c, List.mem_range.mpr (List.getElem?_eq_some_iff.mp hlisting).1, hevent⟩

/-- A planet that is served and has a row is priced by the multiplier of its system. -/
theorem exists_price_update (hindex : m.index = .ofGalaxy g₀)
    (hledger : m.ledger.Fits m.catalog.basePrices) (hg : g.IsOrderly) {good : Commodity}
    {source : Source α} {potentials : List α} {multipliers : Multipliers α}
    (hlisting : m.catalog.listings[c]? = some ⟨good, some source⟩)
    (hsolve : prepared.solve (m.advance g (elapsed dt) c source).1 = .ok potentials)
    (hmultipliers : normalize? potentials = some multipliers)
    (hlength : multipliers.values.length = m.index.keys.length) (hserves : m.Serves g q planet i)
    (hrow : m.ledger.contains q = true) :
    ∃ quote x, (m.update g dt).1.ledger.get? q c = some quote ∧
      multipliers.values[i]? = some x ∧ quote.price = scaledPrice good.basePrice x := by
  obtain ⟨row, hrow⟩ := Option.isSome_iff_exists.mp hrow
  have hc : c < m.catalog.basePrices.length := by
    rw [Catalog.basePrices, List.length_map]
    exact (List.getElem?_eq_some_iff.mp hlisting).1
  -- The quote is there before the trackers move, and so it is afterwards.
  obtain ⟨quote, hquote⟩ := hledger.exists_get? hrow hc
  obtain ⟨moved, hmoved⟩ := (sameShape_advance source).exists_get? hquote
  obtain ⟨x, hx, hprice⟩ :=
    get?_writePrices_of_serves hg hindex hserves hlength hmoved good.basePrice
  refine ⟨{ moved with price := scaledPrice good.basePrice x }, x, ?_, hx, rfl⟩
  rw [get?_update hphase hprepared, reprice_of_ok hlisting hsolve hmultipliers]
  exact hprice

/-- **An update does what it should** in a market whose index was made from a galaxy and whose
ledger fits its catalog. -/
theorem updateSpec_of_ready (hindex : m.index = .ofGalaxy g₀)
    (hledger : m.ledger.Fits m.catalog.basePrices) (hg : g.IsOrderly) (dt : α) :
    m.UpdateSpec g dt prepared := by
  have hshape : m.ledger.SameShape (m.update g dt).1.ledger := sameShape_update
  -- The round comes down to single commodities: `get?_update` says so of quotes, `trackers_update`
  -- of trackers and `update_snd` of events.
  constructor
  case ascending =>
    rw [update_snd hphase hprepared, List.map_flatMap, Catalog.sourced_eq_flatMap]
    exact List.Sublist.flatMap_right _ fun c _ => (commodity?_reprice ..).1
  case events =>
    intro hkeys
    rw [update_snd hphase hprepared, List.map_flatMap, Catalog.sourced_eq_flatMap]
    exact List.flatMap_congr fun c _ => (commodity?_reprice ..).2 hkeys
  case failed =>
    intro c good source reason hlisting hsolve
    have hreprice := reprice_of_error hlisting hsolve
    refine ⟨mem_update_snd hphase hprepared hlisting ?_, fun q => ?_⟩
    · rw [hreprice]
      exact List.mem_singleton_self _
    · rw [get?_update hphase hprepared, hreprice]
      exact price_advance source q c
  case solved =>
    intro hkeys c good source potentials hlisting hsolve
    obtain ⟨multipliers, hmultipliers, hlength⟩ := exists_multipliers hkeys hsolve
    refine ⟨multipliers, hmultipliers, mem_update_snd hphase hprepared hlisting ?_, ?_⟩
    · rw [reprice_of_ok hlisting hsolve hmultipliers]
      exact List.mem_singleton_self _
    · intro q planet i
      exact exists_price_update hphase hprepared hindex hledger hg hlisting hsolve hmultipliers
        hlength
  case moved =>
    intro c q planet i quote hc hserves hinhabited hquote
    obtain ⟨good, source, hlisting⟩ := mem_sourced_iff.mp hc
    obtain ⟨drawn, -, hdrawn⟩ := trackedLedger_of_serves hg hindex (P := fun _ => True)
      (fun _ _ => trivial) (Catalog.source?_of_listing hlisting) trivial hserves hinhabited hquote
      (elapsed dt)
    exact ⟨drawn.draw.1, by rw [trackers_update hphase hprepared, hdrawn, Option.map_some]⟩
  case kept =>
    intro c q h
    rw [trackers_update hphase hprepared, trackedLedger_of_not_serves hg hindex h]
  case unsolved =>
    intro other q c
    -- The trackers move before the solve, which alone knows what was prepared.
    rw [trackers_update hphase hprepared]
    exact (trackers_update (m := { m with prepared? := some other }) hphase rfl g dt q c).symm
  case unsourced =>
    intro c hc q
    have hsource : m.catalog.source? c = none := by
      rcases m.source?_cases c with hsource | hlisting
      · exact hsource
      · exact absurd (mem_sourced_iff.mpr hlisting) hc
    rw [get?_update hphase hprepared, reprice_of_source?_eq_none hsource]
  case unserved =>
    intro q h
    refine hshape.row?_eq fun c => ?_
    rw [get?_update hphase hprepared]
    exact get?_reprice_of_not_serves hg hindex h
  case rows => exact hshape.widths

end

end Market

/-- **What an update leaves**, after any calls that made the market ready, in any galaxy that edits
can make, and for any length of time. -/
theorem update_spec [Scalar α] {catalog : Catalog α} {config : Config α} {solver : Solver α}
    {m : Market α} (h : Market.ofConfig catalog config solver = .ok m) (calls : List (Call α))
    (hready : (m.after calls).phase = .ready) (edits : List (Edit α)) (dt : α) :
    ∃ prepared, (m.after calls).prepared? = some prepared ∧
      (m.after calls).UpdateSpec (.ofEdits edits) dt prepared := by
  have hstart := Market.living_ofConfig h
  have hlife := hstart.after calls
  obtain ⟨g₀, -, hnetwork⟩ := hlife.network hready
  have hbooks : (m.after calls).Bookkeeping catalog.basePrices :=
    hstart.after_induction Market.Bookkeeping.step (Market.bookkeeping_ofConfig h) calls
  have hledger : (m.after calls).ledger.Fits (m.after calls).catalog.basePrices := by
    rw [hbooks.catalog]
    refine hbooks.ledger ?_
    rw [hready]
    decide
  have hprepared := hlife.prepared_of_ready hready
  exact ⟨_, hprepared, Market.updateSpec_of_ready hready hprepared
    (Galaxy.dim_network hnetwork).1 hledger (Galaxy.isOrderly_ofEdits edits) dt⟩

/-- A system with a planet that nobody lives on, where the couple has an inhabited one. -/
def deserted : List (Edit Float) :=
  [.addSystem { name := "System 0", nebula := ⟨0, 0⟩ },
    .addPlanet ⟨0, 1⟩ { name := "Planet 0", population := 0 }]

/-- A market that was opened for the couple still prices every good that has a source when it is
shown a deserted galaxy instead. -/
theorem update_spec_deserted :
    ∃ m : Market Float, Market.ofConfig .standard .standard .cholesky = .ok m ∧
      (m.after [.init couple]).phase = .ready ∧
      ((m.after [.init couple]).update (.ofEdits deserted) 1).2.map Event.commodity? =
        (m.after [.init couple]).catalog.sourced.map some := by
  obtain ⟨_, hvalid⟩ := exists_eq_ok_of_isOk
    (show (Config.standard : Config Float).validate.isOk = true by decide +kernel)
  obtain ⟨⟨index, matrix⟩, hnetwork⟩ := exists_eq_ok_of_isOk
    (show (couple.network .standard).isOk = true by decide +kernel)
  let m : Market Float := { catalog := .standard, config := .standard, solver := .cholesky }
  have hm : Market.ofConfig .standard .standard .cholesky = .ok m :=
    Market.ofConfig_eq_ok_iff.mpr ⟨hvalid, rfl⟩
  obtain ⟨goods, ledger, hinit⟩ := Market.exists_init_fst (m := m) rfl hnetwork
  have hopened : m.after [.init couple] = _ := hinit
  have hphase : (m.after [.init couple]).phase = .ready := by
    rw [hopened]
    rfl
  have hkeys : (m.after [.init couple]).index.keys ≠ [] := by
    rw [hopened]
    show index.keys ≠ []
    rw [(Galaxy.dim_network hnetwork).1]
    decide
  obtain ⟨prepared, -, hspec⟩ := update_spec hm [.init couple] hphase deserted 1
  exact ⟨m, hm, hphase, hspec.events hkeys⟩

end GalaxyMarket
