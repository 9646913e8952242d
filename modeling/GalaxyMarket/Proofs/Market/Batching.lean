import Mathlib
import GalaxyMarket.Proofs.Market.Rows
import GalaxyMarket.Proofs.Market.Solves
import GalaxyMarket.Proofs.Market.Standstill

/-!
# One refresh for many edits

While a galaxy is being edited, a market may be refreshed after every edit, or be asked for a
refresh each time and carry it out once in the end. Both ways end in the same place
(`refreshes_batched`): with the same network, the same rows and the same trackers, and with the same
prices, but for those of commodities whose last solve fails.

On the way the eager market draws samples and writes prices. What it does not do is to move a
tracker, because no time passes. So it stays akin to a market that was only brought in line with the
galaxy (`Market.Akin`, `Market.LeadsTo.refreshes`): one that differs in the state of its sources and
in the prices of commodities that have one. The last refresh reads the trackers of both, has the
solver answer the same questions, and writes the same price on each planet, since every planet that
has a row orbits a system of the network (`Market.Akin.reprice_idle`).
-/

namespace GalaxyMarket

variable {α : Type}

/-! ### Ledgers -/

namespace Ledger

/-- Two ledgers that differ in prices only, and in those of some commodities not even that. -/
structure SameButPrices (kept : Nat → Prop) (ledger ledger' : Ledger α) : Prop where
  basePrices : ledger'.basePrices = ledger.basePrices
  contains : ∀ q, ledger'.contains q = ledger.contains q
  trackers : ∀ q c, (ledger'.get? q c).map Quote.trackers = (ledger.get? q c).map Quote.trackers
  column : ∀ {c}, kept c → ∀ q, ledger'.get? q c = ledger.get? q c

variable {kept : Nat → Prop} {ledger ledger' ledger'' : Ledger α}

/-- Ledgers with the same quotes are the same in all of this. -/
theorem SameButPrices.of_get? (hprices : ledger'.basePrices = ledger.basePrices)
    (hcontains : ∀ q, ledger'.contains q = ledger.contains q)
    (hget : ∀ q c, ledger'.get? q c = ledger.get? q c) : ledger.SameButPrices kept ledger' :=
  ⟨hprices, hcontains, fun q c => by rw [hget], fun _ q => hget q _⟩

/-- It does not matter which ledger comes first. -/
theorem SameButPrices.symm (h : ledger.SameButPrices kept ledger') :
    ledger'.SameButPrices kept ledger where
  basePrices := h.basePrices.symm
  contains q := (h.contains q).symm
  trackers q c := (h.trackers q c).symm
  column hc q := (h.column hc q).symm

/-- A ledger in between may be left out. -/
theorem SameButPrices.trans (h : ledger.SameButPrices kept ledger')
    (h' : ledger'.SameButPrices kept ledger'') : ledger.SameButPrices kept ledger'' where
  basePrices := h'.basePrices.trans h.basePrices
  contains q := (h'.contains q).trans (h.contains q)
  trackers q c := (h'.trackers q c).trans (h.trackers q c)
  column hc q := (h'.column hc q).trans (h.column hc q)

/-- Bringing both in line with a galaxy starts the same rows and drops the same. -/
theorem SameButPrices.sync [Scalar α] (h : ledger.SameButPrices kept ledger') (g : Galaxy α) :
    (ledger.sync g).SameButPrices kept (ledger'.sync g) where
  basePrices := by rw [basePrices_sync, basePrices_sync, h.basePrices]
  contains q := by rw [contains_sync, contains_sync]
  trackers q c := by
    rw [get?_sync, get?_sync, h.contains, h.basePrices]
    split
    · split
      · exact h.trackers q c
      · rfl
    · rfl
  column hc q := by rw [get?_sync, get?_sync, h.contains, h.basePrices, h.column hc]

/-- What holds of all trackers of the one holds of those of the other. -/
theorem SameButPrices.tracks {P : α → Prop} (h : ledger.SameButPrices kept ledger')
    (hP : ledger.Tracks P) : ledger'.Tracks P := by
  intro q c quote hquote
  have htrackers := h.trackers q c
  rw [hquote, Option.map_some] at htrackers
  obtain ⟨before, hbefore, heq⟩ := Option.map_eq_some_iff.mp htrackers.symm
  obtain ⟨hsupply, hdemand⟩ := Prod.mk.inj heq
  rw [← hsupply, ← hdemand]
  exact hP q c before hbefore

end Ledger

namespace Market

variable [Scalar α] {m m' m'' : Market α} {g : Galaxy α} {prepared : Prepared α} {c : Nat}
  {q : PlanetKey}

/-! ### Markets that are akin -/

omit [Scalar α] in
/-- Two markets that differ in their networks, in the state of their sources, and in the prices of
commodities that have one. -/
structure Akin (m m' : Market α) : Prop where
  config : m'.config = m.config
  solver : m'.solver = m.solver
  lastUpdate? : m'.lastUpdate? = m.lastUpdate?
  basePrices : m'.catalog.basePrices = m.catalog.basePrices
  unsourced_iff : ∀ c, m'.catalog.source? c = none ↔ m.catalog.source? c = none
  ledger : m.ledger.SameButPrices (fun c => m.catalog.source? c = none) m'.ledger

omit [Scalar α] in
/-- Whichever market comes first, -/
theorem Akin.symm (h : m.Akin m') : m'.Akin m where
  config := h.config.symm
  solver := h.solver.symm
  lastUpdate? := h.lastUpdate?.symm
  basePrices := h.basePrices.symm
  unsourced_iff c := (h.unsourced_iff c).symm
  ledger := { h.ledger.symm with
    column := fun {c} hc q => h.ledger.symm.column ((h.unsourced_iff c).mp hc) q }

omit [Scalar α] in
/-- and by way of a third, markets are akin. -/
theorem Akin.trans (h : m.Akin m') (h' : m'.Akin m'') : m.Akin m'' where
  config := h'.config.trans h.config
  solver := h'.solver.trans h.solver
  lastUpdate? := h'.lastUpdate?.trans h.lastUpdate?
  basePrices := h'.basePrices.trans h.basePrices
  unsourced_iff c := (h'.unsourced_iff c).trans (h.unsourced_iff c)
  ledger := h.ledger.trans { h'.ledger with
    column := fun {c} hc q => h'.ledger.column ((h.unsourced_iff c).mpr hc) q }

/-- Of a market that has just taken over a network, its rows matter, and not the network. -/
theorem Akin.of_rebuilt {index : SystemIndex} {matrix : SparseMatrix α}
    (h : (m.rebuilt g index matrix).Akin m') : { m with ledger := m.ledger.sync g }.Akin m' :=
  ⟨h.config, h.solver, h.lastUpdate?, h.basePrices, h.unsourced_iff, h.ledger⟩

/-- Repricing leaves a commodity its source. -/
theorem source?_reprice_eq_none_iff (m : Market α) (g : Galaxy α) (dt : α) (prepared : Prepared α)
    (c : Nat) :
    (m.reprice g dt prepared c).1.catalog.source? c = none ↔ m.catalog.source? c = none := by
  rcases m.source?_cases c with hsource | ⟨good, source, hlisting⟩
  · rw [reprice_of_source?_eq_none hsource]
  · obtain ⟨ledger, hsettle⟩ := (m.advance g dt c source).2.exists_settle_fst g c good.basePrice
      (prepared.solve (m.advance g dt c source).1)
    obtain ⟨drawn, hdrawn⟩ := exists_source?_advance (g := g) hlisting
    rw [reprice_eq hlisting, hsettle]
    exact iff_of_false (fun hnone => nomatch hdrawn.symm.trans hnone)
      fun hnone => nomatch (Catalog.source?_of_listing hlisting).symm.trans hnone

/-- **An update in which no time passes** leaves a market akin to what it was. -/
theorem akin_update_idle (hphase : m.phase = .ready) (hprepared : m.prepared? = some prepared)
    (hrest : m.ledger.AtRest m.config) (g : Galaxy α) : m.Akin (m.update g 0).1 := by
  have hround : (m.update g 0).1 =
      (m.repriceAll g (elapsed 0) prepared (List.range m.catalog.size)).1 := by
    rw [update_of_ready hphase hprepared]
  have hshape : m.ledger.SameShape (m.update g 0).1.ledger := sameShape_update
  obtain ⟨catalog, ledger, hupdate⟩ := m.exists_update_fst g 0
  constructor
  case config => rw [hupdate]
  case solver => rw [hupdate]
  case lastUpdate? => rw [hupdate]
  case basePrices => rw [hround, basePrices_repriceAll]
  case unsourced_iff =>
    intro c
    rw [hround, (alike_round ..).source, source?_reprice_eq_none_iff]
  case ledger =>
    -- Only prices are written, and those only of commodities that have a source.
    refine ⟨hshape.basePrices, fun q => hshape.contains_eq, fun q c => ?_, fun {c} hc q => ?_⟩
    · rw [trackers_update hphase hprepared, elapsed_zero, trackedLedger]
      cases hsource : m.catalog.source? c with
      | none => rfl
      | some source => exact congrArg _ ((advance_idle hrest g c source).2 q c)
    · rw [get?_update hphase hprepared, reprice_of_source?_eq_none hc]

/-! ### The last refresh -/

omit [Scalar α] in
/-- A market serves every planet of the galaxy that its index was made from. -/
theorem exists_serves (hg : g.IsOrderly) (hindex : m.index = .ofGalaxy g)
    (hq : g.planets.contains q = true) : ∃ planet i, m.Serves g q planet i := by
  obtain ⟨planet, hplanet⟩ := Slots.contains_iff.mp hq
  have hsystem : g.systems.contains planet.system = true := hg.contains_system hplanet
  obtain ⟨i, hi⟩ := SystemIndex.exists_system?_ofGalaxy_iff.mpr (Slots.contains_iff.mp hsystem)
  refine ⟨planet, i, hplanet, hsystem, ?_⟩
  rw [hindex]
  exact SystemIndex.position?_ofGalaxy_eq_some_iff.mpr hi

/-- The answer of a solve that succeeds settles the prices of all planets that are served, whatever
they were before. -/
theorem get?_settle_of_trackers (m m' : Market α) (hg : g.IsOrderly)
    (hindex : m.index = .ofGalaxy g) (hindex' : m'.index = m.index) {potentials : List α}
    (hlength : potentials.length = m.index.keys.length)
    (hrows : ∀ q, m.ledger.contains q = g.planets.contains q)
    (htrackers : (m'.ledger.get? q c).map Quote.trackers = (m.ledger.get? q c).map Quote.trackers)
    (basePrice : Int) : (m'.settle g c basePrice (.ok potentials)).1.ledger.get? q c =
      (m.settle g c basePrice (.ok potentials)).1.ledger.get? q c := by
  cases hquote : m.ledger.get? q c with
  | none =>
    -- Without a quote there is no price to write.
    have hsettle := m.trackers_settle g c basePrice (.ok potentials) q
    have hsettle' := m'.trackers_settle g c basePrice (.ok potentials) q
    rw [htrackers] at hsettle'
    rw [hquote, Option.map_none, Option.map_eq_none_iff] at hsettle hsettle'
    rw [hsettle, hsettle']
  | some quote =>
    rw [hquote, Option.map_some] at htrackers
    obtain ⟨quote', hquote', heq⟩ := Option.map_eq_some_iff.mp htrackers
    have hcontains : m.ledger.contains q = true := by
      obtain ⟨row, hrow, -⟩ := Option.bind_eq_some_iff.mp hquote
      exact Option.isSome_iff_exists.mpr ⟨row, hrow⟩
    obtain ⟨planet, i, hserves⟩ := exists_serves hg hindex (hrows q ▸ hcontains)
    obtain ⟨multipliers, hmultipliers, hvalues⟩ :=
      exists_multipliers_of_length (hserves.keys_ne_nil hindex) hlength
    -- Both prices are the multiplier of the planet's own system times the base price.
    obtain ⟨x, hx, hwritten⟩ :=
      get?_writePrices_of_serves hg hindex hserves hvalues hquote basePrice
    obtain ⟨y, hy, hwritten'⟩ :=
      get?_writePrices_of_serves hg hindex hserves hvalues hquote' basePrice
    obtain rfl : x = y := Option.some.inj (hx.symm.trans hy)
    rw [settle_of_some hmultipliers, settle_of_some hmultipliers, hindex']
    refine hwritten'.trans (Eq.trans ?_ hwritten.symm)
    obtain ⟨hsupply, hdemand⟩ := Prod.mk.inj heq
    rw [hsupply, hdemand]

/-- **Repricing when no time passes**, in two markets that are akin and were brought in line with
the galaxy of their network: the events are the same, and unless the solve fails so are the quotes.
-/
theorem Akin.reprice_idle (h : m.Akin m') (hg : g.IsOrderly) (hindex : m.index = .ofGalaxy g)
    (hindex' : m'.index = m.index) (hrest : m.ledger.AtRest m.config)
    (hrest' : m'.ledger.AtRest m'.config)
    (hrows : ∀ q, m.ledger.contains q = g.planets.contains q) :
    (m'.reprice g 0 prepared c).2 = (m.reprice g 0 prepared c).2 ∧
      ((∀ reason, .solveFailed c reason ∉ (m.reprice g 0 prepared c).2) → ∀ q,
        (m'.reprice g 0 prepared c).1.ledger.get? q c =
          (m.reprice g 0 prepared c).1.ledger.get? q c) := by
  rcases m.source?_cases c with hsource | ⟨good, source, hlisting⟩
  · rw [reprice_of_source?_eq_none hsource,
      reprice_of_source?_eq_none ((h.unsourced_iff c).mpr hsource)]
    exact ⟨rfl, fun _ => h.ledger.column hsource⟩
  · have hsource : m.catalog.source? c = some source := Catalog.source?_of_listing hlisting
    obtain ⟨source', hsource'⟩ : ∃ source', m'.catalog.source? c = some source' := by
      refine Option.ne_none_iff_exists'.mp fun hnone => ?_
      cases hsource.symm.trans ((h.unsourced_iff c).mp hnone)
    have hprice : m'.catalog.basePrices[c]? = some good.basePrice := by
      rw [h.basePrices]
      exact Catalog.basePrices_of_listing hlisting
    obtain ⟨good', hlisting', heq⟩ := Catalog.exists_listing hprice hsource'
    -- The intensities are read off trackers that are the same.
    have hintensities : m'.ledger.intensities m'.config g c m'.index.keys =
        m.ledger.intensities m.config g c m.index.keys := by
      rw [h.config, hindex']
      exact Ledger.intensities_congr _ _ _ fun q => h.ledger.trackers q c
    rw [reprice_of_atRest hrest hlisting, reprice_of_atRest hrest' hlisting', heq, hintensities]
    refine ⟨settle_snd .., fun hsolved q => ?_⟩
    cases hanswer : prepared.solve (m.ledger.intensities m.config g c m.index.keys) with
    | error reason =>
      rw [hanswer] at hsolved
      exact absurd (List.mem_singleton_self _) (hsolved reason)
    | ok potentials =>
      have hlength : potentials.length = m.index.keys.length :=
        (Prepared.length_of_solve hanswer).trans (List.length_map _)
      have hrows' : ∀ q, (m.advance g 0 c source).2.ledger.contains q = g.planets.contains q :=
        fun q => (sameShape_advance source).contains_eq.trans (hrows q)
      have htrackers :
          ((m'.advance g 0 c source').2.ledger.get? q c).map Quote.trackers =
            ((m.advance g 0 c source).2.ledger.get? q c).map Quote.trackers := by
        rw [(advance_idle hrest g c source).2, (advance_idle hrest' g c source').2,
          h.ledger.trackers]
      exact get?_settle_of_trackers (m.advance g 0 c source).2 (m'.advance g 0 c source').2 hg
        hindex hindex' hlength hrows' htrackers good.basePrice

/-- **An update in which no time passes**, in two such markets with the network of the galaxy. -/
theorem Akin.update_idle (h : m.Akin m') (hg : g.IsOrderly) (hphase : m.phase = .ready)
    (hphase' : m'.phase = .ready) (hprepared : m.prepared? = some prepared)
    (hprepared' : m'.prepared? = some prepared) (hindex : m.index = .ofGalaxy g)
    (hindex' : m'.index = m.index) (hrest : m.ledger.AtRest m.config)
    (hrest' : m'.ledger.AtRest m'.config)
    (hrows : ∀ q, m.ledger.contains q = g.planets.contains q) :
    (m.update g 0).1.Akin (m'.update g 0).1 ∧ (m'.update g 0).2 = (m.update g 0).2 ∧
      ∀ c, (∀ reason, .solveFailed c reason ∉ (m.update g 0).2) → ∀ q,
        (m'.update g 0).1.ledger.get? q c = (m.update g 0).1.ledger.get? q c := by
  have hreprice : ∀ c, (m'.reprice g 0 prepared c).2 = (m.reprice g 0 prepared c).2 ∧
      ((∀ reason, .solveFailed c reason ∉ (m.reprice g 0 prepared c).2) → ∀ q,
        (m'.reprice g 0 prepared c).1.ledger.get? q c =
          (m.reprice g 0 prepared c).1.ledger.get? q c) :=
    fun c => h.reprice_idle hg hindex hindex' hrest hrest' hrows
  refine ⟨?_, ?_, fun c hsolved q => ?_⟩
  · -- Back from the one update, over to the other market, and forward to its update.
    exact (akin_update_idle hphase hprepared hrest g).symm.trans
      (h.trans (akin_update_idle hphase' hprepared' hrest' g))
  · rw [update_snd hphase hprepared, update_snd hphase' hprepared', elapsed_zero, Catalog.size_eq,
      h.basePrices, ← Catalog.size_eq]
    exact List.flatMap_congr fun c _ => (hreprice c).1
  · rw [get?_update hphase hprepared, get?_update hphase' hprepared', elapsed_zero]
    refine (hreprice c).2 (fun reason hfailed => hsolved reason ?_) q
    -- A solve that fails is reported in the round.
    rcases m.source?_cases c with hsource | ⟨good, source, hlisting⟩
    · rw [reprice_of_source?_eq_none hsource] at hfailed
      cases hfailed
    · refine mem_update_snd hphase hprepared hlisting ?_
      rwa [elapsed_zero]

/-- What two ways of refreshing a market have in common in the end, and in their last answers. -/
structure SameOutcome (first second : Market α × Answer α) : Prop where
  ready : first.1.phase = .ready
  phase : second.1.phase = first.1.phase
  index : second.1.index = first.1.index
  matrix : second.1.matrix = first.1.matrix
  prepared? : second.1.prepared? = first.1.prepared?
  lastUpdate? : second.1.lastUpdate? = first.1.lastUpdate?
  refreshQueued : second.1.refreshQueued = first.1.refreshQueued
  answer : second.2 = first.2
  contains : ∀ q, second.1.ledger.contains q = first.1.ledger.contains q
  trackers : ∀ q c, (second.1.ledger.get? q c).map Quote.trackers =
    (first.1.ledger.get? q c).map Quote.trackers
  /-- Only where the last solve fails, prices are as they happened to be. -/
  quotes : ∀ c, (∀ events reason, first.2 = .ok events → .solveFailed c reason ∉ events) →
    ∀ q, second.1.ledger.get? q c = first.1.ledger.get? q c

/-- **Refreshing two markets** that are akin once they have taken over the network. -/
theorem sameOutcome_refresh (hg : g.IsOrderly) (hphase : m.phase ≠ .uninitialized)
    (hphase' : m'.phase ≠ .uninitialized) {matrix : SparseMatrix α}
    (hnetwork : g.network m.config = .ok (.ofGalaxy g, matrix))
    (hakin : (m.rebuilt g (.ofGalaxy g) matrix).Akin (m'.rebuilt g (.ofGalaxy g) matrix))
    (hrest : (m.ledger.sync g).AtRest m.config) (hrest' : (m'.ledger.sync g).AtRest m'.config) :
    SameOutcome (m.refresh g) (m'.refresh g) := by
  have hconfig : m'.config = m.config := hakin.config
  rw [refresh_of_ok hphase hnetwork, refresh_of_ok hphase' (hconfig.symm ▸ hnetwork)]
  have hprepared' : (m'.rebuilt g (.ofGalaxy g) matrix).prepared? =
      some (m.solver.prepare matrix) :=
    congrArg (fun solver => some (Solver.prepare solver matrix)) hakin.solver
  obtain ⟨hupdate, hevents, hquotes⟩ := hakin.update_idle hg rfl rfl rfl hprepared' rfl rfl hrest
    hrest' (m.ledger.contains_sync · g)
  obtain ⟨catalog, ledger, hfirst⟩ := (m.rebuilt g (.ofGalaxy g) matrix).exists_update_fst g 0
  obtain ⟨catalog', ledger', hsecond⟩ := (m'.rebuilt g (.ofGalaxy g) matrix).exists_update_fst g 0
  -- Both updates write to catalog and ledger only, so that all the rest is as it was rebuilt.
  constructor
  case ready => rw [hfirst]; rfl
  case phase => rw [hfirst, hsecond]; rfl
  case index => rw [hfirst, hsecond]; rfl
  case matrix => rw [hfirst, hsecond]; rfl
  case prepared? =>
    rw [hfirst, hsecond]
    exact hprepared'
  case lastUpdate? => exact hupdate.lastUpdate?
  case refreshQueued => rw [hfirst, hsecond]; rfl
  case answer => rw [hevents]
  case contains => exact hupdate.ledger.contains
  case trackers => exact hupdate.ledger.trackers
  case quotes =>
    refine fun c hsolved => hquotes c fun reason hfailed => ?_
    exact hsolved _ reason rfl (List.mem_cons_of_mem _ hfailed)

/-! ### All refreshes but the last -/

/-- A market `m`, on the way from a galaxy `g₀` to a galaxy `g`, is akin to what `m₀` was in the
beginning, once that is brought in line with `g`. -/
structure LeadsTo (g₀ : Galaxy α) (m₀ : Market α) (g : Galaxy α) (m : Market α) : Prop where
  evolves : g₀.Evolves g
  ready : m.phase = .ready
  akin : { m₀ with ledger := m₀.ledger.sync g }.Akin m

variable {g₀ h : Galaxy α} {m₀ : Market α}

theorem LeadsTo.phase_ne (hm : m₀.LeadsTo g₀ g m) : m.phase ≠ .uninitialized := by
  rw [hm.ready]
  decide

section

variable (hrows : ∀ q, m₀.ledger.contains q = g₀.planets.contains q)

include hrows

/-- The way begins where the market is in line already. -/
theorem leadsTo_self (hready : m₀.phase = .ready) : m₀.LeadsTo g₀ g₀ m₀ where
  evolves := ⟨[], rfl⟩
  ready := hready
  akin := {
    config := rfl
    solver := rfl
    lastUpdate? := rfl
    basePrices := rfl
    unsourced_iff := fun _ => .rfl
    ledger := .of_get? (Ledger.basePrices_sync m₀.ledger g₀).symm
      (fun q => by rw [Ledger.contains_sync, hrows])
      fun q c => (Ledger.get?_sync_of_contains hrows q c).symm }

/-- The rows that were there on the way make no difference to those that come next. -/
theorem LeadsTo.akin_rebuilt (hg₀ : g₀.IsOrderly) (hm : m₀.LeadsTo g₀ g m) (hgh : g.Evolves h)
    (index : SystemIndex) (matrix : SparseMatrix α) :
    (m₀.rebuilt h index matrix).Akin (m.rebuilt h index matrix) := by
  have hdirect : (m₀.ledger.sync h).SameButPrices (fun c => m₀.catalog.source? c = none)
      ((m₀.ledger.sync g).sync h) :=
    .of_get? (by simp only [Ledger.basePrices_sync])
      (fun q => by rw [Ledger.contains_sync, Ledger.contains_sync])
      (Ledger.get?_sync_sync hg₀ hrows hm.evolves hgh)
  exact { hm.akin with ledger := hdirect.trans (hm.akin.ledger.sync h) }

end

end Market

namespace Market

variable {g₀ g h : Galaxy ℝ} {m₀ m : Market ℝ}
  (hrows : ∀ q, m₀.ledger.contains q = g₀.planets.contains q) (hg₀ : g₀.IsOrderly)
  (htracks : m₀.ledger.Tracks (0 ≤ ·))

include hrows hg₀ htracks

/-- On the way all trackers are at rest. -/
theorem LeadsTo.atRest_sync (hm : m₀.LeadsTo g₀ g m) (hgh : g.Evolves h) :
    (m.ledger.sync h).AtRest m.config := by
  have hakin := hm.akin_rebuilt hrows hg₀ hgh {} {}
  exact (hakin.ledger.tracks (htracks.sync le_rfl h)).atRest m.config

variable (hself : 0 < m₀.config.selfResistance)

include hself

/-- **One refresh on the way.** -/
theorem LeadsTo.refresh (hm : m₀.LeadsTo g₀ g m) (hgh : g.Evolves h) :
    m₀.LeadsTo g₀ h (m.refresh h).1 := by
  have hself' : 0 < m.config.selfResistance := hm.akin.config.symm ▸ hself
  obtain ⟨matrix, hnetwork, hrefresh⟩ := exists_refresh_eq hself' hm.phase_ne h
  have hakin := hm.akin_rebuilt hrows hg₀ hgh (.ofGalaxy h) matrix
  have hrest : (m.rebuilt h (.ofGalaxy h) matrix).ledger.AtRest m.config :=
    hm.atRest_sync hrows hg₀ htracks hgh
  have hidle : (m.rebuilt h (.ofGalaxy h) matrix).Akin
      ((m.rebuilt h (.ofGalaxy h) matrix).update h 0).1 := akin_update_idle rfl rfl hrest h
  refine ⟨hm.evolves.trans hgh, phase_refresh_of_ok hm.phase_ne hnetwork, ?_⟩
  rw [hrefresh]
  exact (hakin.trans hidle).of_rebuilt

/-- **All refreshes on the way**, and what is left of it. -/
theorem LeadsTo.refreshes {galaxies : List (Galaxy ℝ)}
    (hchain : (g :: (galaxies ++ [h])).IsChain Galaxy.Evolves) (hm : m₀.LeadsTo g₀ g m) :
    ∃ k, k.Evolves h ∧ m₀.LeadsTo g₀ k (m.after (galaxies.map .refresh)) := by
  -- Each refresh moves the way's end one galaxy on, and leaves the market akin as before.
  induction galaxies generalizing g m with
  | nil => exact ⟨g, (List.isChain_cons_cons.mp hchain).1, hm⟩
  | cons next galaxies ih =>
    obtain ⟨hnext, hchain⟩ := List.isChain_cons_cons.mp hchain
    exact ih hchain (hm.refresh hrows hg₀ htracks hself hnext)

end Market

/-- However often a refresh is asked for, it is asked for. -/
theorem Market.after_queueRefresh [Scalar α] (m : Market α) (n : ℕ) :
    m.after (List.replicate (n + 1) .queueRefresh) = { m with refreshQueued := true } := by
  induction n generalizing m with
  | zero => rfl
  | succ n ih => exact ih { m with refreshQueued := true }

/-- **Batching is invisible.** From a market that is ready, and was last refreshed with `g₀`, the
galaxy goes through any edits, by way of some galaxies, to `g`. To ask for refreshes and carry them
out in the end makes of the market what a refresh with each of these galaxies does: the phase, the
network, the rows and the trackers are the same, the last refresh answers the same, and all quotes
of a commodity are the same unless that answer reports that its solve failed. -/
theorem refreshes_batched {catalog : Catalog ℝ} {config : Config ℝ} {solver : Solver ℝ}
    {m : Market ℝ} (hm : Market.ofConfig catalog config solver = .ok m) {calls : List (Call ℝ)}
    (hready : (m.after calls).phase = .ready) {edits : List (Edit ℝ)}
    (hlast : m.lastRefreshed? calls = some (.ofEdits edits)) {galaxies : List (Galaxy ℝ)}
    {g : Galaxy ℝ} (hchain : (.ofEdits edits :: (galaxies ++ [g])).IsChain Galaxy.Evolves) (n : ℕ) :
    Market.SameOutcome
      (((m.after calls).after (List.replicate (n + 1) .queueRefresh)).perform (.execQueued g))
      (((m.after calls).after (galaxies.map .refresh)).perform (.refresh g)) := by
  have hlife := (Market.living_ofConfig hm).after calls
  have hself : 0 < (m.after calls).config.selfResistance := by
    rw [hlife.config_eq]
    exact (Config.validate_eq_ok_iff.mp (Market.ofConfig_eq_ok_iff.mp hm).1).2.1
  have htracks := Market.tracks_nonneg hm calls
  have hg₀ := Galaxy.isOrderly_ofEdits edits
  -- To begin with, the rows are those of the galaxy that the edits start from.
  obtain ⟨g₀, hg₀', hrows⟩ := Market.contains_after hm hready
  obtain rfl : g₀ = .ofEdits edits := Option.some.inj (hg₀'.symm.trans hlast)
  generalize m.after calls = m₀ at hready hself htracks hrows ⊢
  have hstart := Market.leadsTo_self hrows hready
  obtain ⟨k, hkg, hk⟩ := hstart.refreshes hrows hg₀ htracks hself hchain
  -- Both markets now take over the network of the same galaxy.
  have hqueued : Market.perform { m₀ with refreshQueued := true } (.execQueued g) =
      Market.refresh { m₀ with refreshQueued := true } g := Market.execQueued_of_queued rfl
  obtain ⟨matrix, hnetwork⟩ := Galaxy.exists_network_of_pos g hself
  rw [Market.after_queueRefresh, hqueued]
  refine Market.sameOutcome_refresh (hk.evolves.trans hkg |>.isOrderly hg₀) hstart.phase_ne
    hk.phase_ne hnetwork (hk.akin_rebuilt hrows hg₀ hkg _ matrix) ?_
    (hk.atRest_sync hrows hg₀ htracks hkg)
  exact (htracks.sync le_rfl g).atRest _

/-- The hamlet once its planet is gone. -/
def abandoned : Galaxy ℝ := hamlet.edit (.removePlanet ⟨0, 1⟩)

/-- The hamlet with another planet in the place of the old one. -/
def resettled : Galaxy ℝ :=
  abandoned.edit (.addPlanet ⟨0, 1⟩ { name := "Planet 1", population := 2 })

theorem lastRefreshed?_hamlet : hamletMarket.lastRefreshed? (hamletRun 0) = some hamlet := by
  obtain ⟨matrix, hnetwork⟩ := exists_network_hamlet
  show (if Answer.isRefreshed (hamletMarket.init hamlet).2 then some hamlet else none) = some hamlet
  rw [Market.init_of_ok rfl hnetwork]
  rfl

/-- A planet of the hamlet is replaced, and its slot is used again. Whether the market sees the
hamlet in between, while it is abandoned, makes no difference. -/
theorem refreshes_batched_hamlet :
    (hamletMarket.after (hamletRun 0)).phase = .ready ∧
    hamletMarket.lastRefreshed? (hamletRun 0) = some hamlet ∧
    hamlet.planets.keys = [⟨0, 1⟩] ∧ abandoned.planets.keys = [] ∧
    resettled.planets.keys = [⟨0, 3⟩] ∧
    [hamlet, abandoned, resettled].IsChain Galaxy.Evolves ∧
    Market.SameOutcome
      (((hamletMarket.after (hamletRun 0)).after [.queueRefresh, .queueRefresh]).perform
        (.execQueued resettled))
      (((hamletMarket.after (hamletRun 0)).after [.refresh abandoned]).perform
        (.refresh resettled)) := by
  have hready : (hamletMarket.after (hamletRun 0)).phase = .ready := Market.inHamlet_opened.phase
  have hchain : [hamlet, abandoned, resettled].IsChain Galaxy.Evolves :=
    .cons_cons ⟨[_], rfl⟩ (.cons_cons ⟨[_], rfl⟩ (.singleton _))
  have hbatched := refreshes_batched hamletMarket_eq hready lastRefreshed?_hamlet
    (show (hamlet :: ([abandoned] ++ [resettled])).IsChain Galaxy.Evolves from hchain) 1
  exact ⟨hready, lastRefreshed?_hamlet, rfl, rfl, rfl, hchain, hbatched⟩

end GalaxyMarket
