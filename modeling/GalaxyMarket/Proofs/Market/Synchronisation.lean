import GalaxyMarket.Proofs.Market.Batching

/-!
# Ledger and galaxy after a synchronisation

A ledger is opened for a galaxy. From then on the galaxy is edited, quotes are written and the
ledger is brought in line with the galaxy, in any order (`Deed`, `Accounts`). Slots of planets that
are removed are used again in the meantime, and the row of the old planet is there until the next
synchronisation. What every deed preserves (`Accounts.InOrder`) is that the rows are those of the
galaxy of the last synchronisation, which has become the present one by edits only. It follows what
the next pass over them does (`Ledger.Settles`): a planet of both galaxies was there all the time
and keeps its row, every other planet of the present one gets a fresh row, also where the slot still
holds the row of a planet that is gone, and the report counts the rows that come and go.

A market is refreshed in the same way, so that afterwards it has prices for the planets of the
galaxy that it was shown and for no others. That holds of calls that do refresh it. To initialize a
market twice, or to refresh one that was never initialized, is accepted as well, but does nothing
(`Market.perform_of_not_isDue`).
-/

namespace GalaxyMarket

/-! ### Edits, writes and synchronisations -/

/-- What can happen to a galaxy and the ledger that was opened for it. -/
inductive Deed (α : Type) where
  | edit (e : Edit α)
  /-- A quote is written, if there is one. -/
  | write (planet : PlanetKey) (commodity : Nat) (f : Quote α → Quote α)
  | sync

/-- A galaxy with its ledger, and the galaxy that the ledger was last brought in line with. -/
structure Accounts (α : Type) where
  galaxy : Galaxy α
  ledger : Ledger α
  synced : Galaxy α

variable {α : Type} [Scalar α]

/-- **What the next synchronisation does** with a ledger that was opened for a catalog and was last
brought in line with `synced`, when the galaxy is now `g`. -/
structure Ledger.Settles (catalog : Catalog α) (synced g : Galaxy α) (ledger : Ledger α) :
    Prop where
  /-- There is one row for each planet, and no other. -/
  planets : (ledger.sync g).planets = g.planets.keys
  width : ∀ {q row}, (ledger.sync g).row? q = some row → row.length = catalog.size
  /-- A planet of both galaxies was never gone, and its row stays. -/
  kept : ∀ {q}, synced.planets.contains q = true → g.planets.contains q = true →
    (∀ h, synced.Evolves h → h.Evolves g → h.planets.contains q = true) ∧
      ∃ row, ledger.row? q = some row ∧ (ledger.sync g).row? q = some row
  /-- All other planets are new to the ledger. -/
  fresh : ∀ {q}, synced.planets.contains q = false → g.planets.contains q = true →
    (ledger.sync g).row? q =
      some (catalog.basePrices.map fun price => { supply := 0, demand := 0, price })
  /-- The rows that are new and those that are gone are reported. -/
  report : (ledger.reconcile g).2 = {
    added := ((ledger.sync g).planets.filter fun q => !ledger.contains q).length
    removed := (ledger.planets.filter fun q => !(ledger.sync g).contains q).length }
  /-- Nothing is left for another one. -/
  again : (ledger.sync g).reconcile g = (ledger.sync g, { added := 0, removed := 0 })

namespace Accounts

/-- A ledger is opened for a galaxy. -/
def launch (g : Galaxy α) (catalog : Catalog α) : Accounts α := ⟨g, .ofGalaxy g catalog, g⟩

def perform (a : Accounts α) : Deed α → Accounts α
  | .edit e => { a with galaxy := a.galaxy.edit e }
  | .write q c f => { a with ledger := a.ledger.modify q c f }
  | .sync => { a with ledger := a.ledger.sync a.galaxy, synced := a.galaxy }

def after (a : Accounts α) (deeds : List (Deed α)) : Accounts α := deeds.foldl perform a

/-- **The invariant**: the rows are those of the galaxy of the last synchronisation, from which
edits have led to the present one. -/
structure InOrder (catalog : Catalog α) (a : Accounts α) : Prop where
  fits : a.ledger.Fits catalog.basePrices
  rows : ∀ q, a.ledger.contains q = a.synced.planets.contains q
  orderly : a.synced.IsOrderly
  evolves : a.synced.Evolves a.galaxy

variable {catalog : Catalog α} {a : Accounts α}

theorem inOrder_launch (edits : List (Edit α)) (catalog : Catalog α) :
    (launch (.ofEdits edits) catalog).InOrder catalog where
  fits := Ledger.fits_ofGalaxy ..
  rows _ := Ledger.contains_sync ..
  orderly := Galaxy.isOrderly_ofEdits edits
  evolves := ⟨[], rfl⟩

/-- **Every deed** preserves it. -/
theorem InOrder.perform (h : a.InOrder catalog) (deed : Deed α) :
    (a.perform deed).InOrder catalog := by
  cases deed with
  | edit e => exact { h with evolves := h.evolves.trans ⟨[e], rfl⟩ }
  | write q c f =>
    -- Writing adds no row and drops none.
    have hshape := a.ledger.sameShape_modify q c f
    exact { h with
      fits := h.fits.sameShape hshape
      rows := fun p => hshape.contains_eq.trans (h.rows p) }
  | sync =>
    exact {
      fits := h.fits.sync a.galaxy
      rows := fun _ => Ledger.contains_sync ..
      orderly := h.evolves.isOrderly h.orderly
      evolves := ⟨[], rfl⟩ }

theorem InOrder.after (h : a.InOrder catalog) (deeds : List (Deed α)) :
    (a.after deeds).InOrder catalog := by
  induction deeds generalizing a with
  | nil => exact h
  | cons deed deeds ih => exact ih (h.perform deed)

theorem InOrder.settles (h : a.InOrder catalog) :
    a.ledger.Settles catalog a.synced a.galaxy where
  planets := Ledger.planets_sync ..
  width hrow := ((h.fits.sync a.galaxy).length_eq hrow).trans (List.length_map _)
  kept {q} hbefore hnow := by
    refine ⟨fun k hk hk' => hk.contains_of_contains h.orderly hk' hbefore hnow, ?_⟩
    obtain ⟨row, hrow⟩ := Option.isSome_iff_exists.mp ((h.rows q).trans hbefore)
    refine ⟨row, hrow, ?_⟩
    rw [Ledger.row?_sync, if_pos hnow, hrow, Option.getD_some]
  fresh {q} hbefore hnow := by
    have hnone : a.ledger.row? q = none := by
      have habsent := (h.rows q).trans hbefore
      rwa [Ledger.contains, Option.isSome_eq_false_iff, Option.isNone_iff_eq_none] at habsent
    rw [Ledger.row?_sync, if_pos hnow, hnone, Option.getD_none, Ledger.freshRow,
      h.fits.basePrices_eq]
  report := by
    rw [← Ledger.added_reconcile, ← Ledger.removed_reconcile]
  again := Ledger.reconcile_of_contains_eq fun _ => Ledger.contains_sync ..

end Accounts

/-! ### Refreshing a market -/

namespace Market

variable {m next : Market α} {g : Galaxy α} {call : Call α} {answer : Answer α}
  {catalog : Catalog α}

/-- Whether a call brings the ledger in line with its galaxy: it opens a market that is not
initialized, or refreshes one that is. -/
def isDue (m : Market α) : Call α → Bool
  | .init _ => m.phase == .uninitialized
  | .refresh _ => m.phase != .uninitialized
  | .execQueued _ => m.refreshQueued && m.phase != .uninitialized
  | _ => false

theorem isRefreshed_refresh (hphase : m.phase ≠ .uninitialized) {events : List (Event α)}
    (hok : (m.refresh g).2 = .ok events) : Answer.isRefreshed (m.refresh g).2 = true := by
  cases hnetwork : g.network m.config with
  | error e =>
    rw [refresh_of_error hphase hnetwork] at hok
    cases hok
  | ok network =>
    obtain ⟨index, matrix⟩ := network
    rw [refresh_of_ok hphase hnetwork]
    rfl

/-- **A call that is due** and succeeds reports a new matrix. -/
theorem isRefreshed_of_isDue (hdue : m.isDue call = true) {events : List (Event α)}
    (hok : (m.perform call).2 = .ok events) : Answer.isRefreshed (m.perform call).2 = true := by
  cases call with
  | init g =>
    -- To initialize a market is to refresh it, once its prices are opened.
    change (m.init g).2 = .ok events at hok
    show Answer.isRefreshed (m.init g).2 = true
    rw [init_of_uninitialized (by simpa [isDue] using hdue)] at hok ⊢
    exact isRefreshed_refresh (fun hphase => nomatch hphase) hok
  | refresh g => exact isRefreshed_refresh (by simpa [isDue] using hdue) hok
  | execQueued g =>
    obtain ⟨hqueued, hphase⟩ : m.refreshQueued = true ∧ m.phase ≠ .uninitialized := by
      simpa [isDue] using hdue
    change (m.execQueued g).2 = .ok events at hok
    show Answer.isRefreshed (m.execQueued g).2 = true
    rw [execQueued_of_queued hqueued] at hok ⊢
    exact isRefreshed_refresh hphase hok
  | update | updateAt | queueRefresh | destroy | detach => cases hdue

/-- **A call that is not due** succeeds and does nothing. -/
theorem perform_of_not_isDue (hdue : m.isDue call = false) (hcall : call.rebuilds? = some g) :
    m.perform call = (m, .ok []) := by
  cases call with
  | init g => exact init_of_ne (by simpa [isDue] using hdue)
  | refresh g => exact refresh_of_uninitialized (by simpa [isDue] using hdue)
  | execQueued g =>
    show m.execQueued g = (m, .ok [])
    cases hqueued : m.refreshQueued with
    | false => exact execQueued_of_not_queued hqueued
    | true =>
      rw [execQueued_of_queued hqueued]
      exact refresh_of_uninitialized (by simpa [isDue, hqueued] using hdue)
  | update | updateAt | queueRefresh | destroy | detach => cases hcall

/-- **A step that reports a new matrix** leaves the rows of its galaxy. -/
theorem contains_of_isRefreshed (hstep : m.Step call next answer)
    (hanswer : answer.isRefreshed = true) (hcall : call.rebuilds? = some g) :
    next.phase = .ready ∧ ∀ q, next.ledger.contains q = g.planets.contains q := by
  cases hstep with
  | idle | queued | detached | destroyed | refused => cases hanswer
  | @passed _ g dt clock prepared hpasses hphase hprepared round hround =>
    -- A plain pass reports prices, but no matrix.
    subst hround
    rw [isRefreshed_repriceAll] at hanswer
    cases hanswer
  | @rebuilt _ g' index matrix hcall' hnetwork round hround =>
    obtain rfl : g = g' := Option.some.inj (hcall.symm.trans hcall')
    -- The rows are brought in line before the pass, which writes to them but neither adds nor drops
    -- any.
    subst hround
    obtain ⟨catalog, ledger, hfirst⟩ :=
      ((m.opened g).rebuilt g index matrix).exists_repriceAll_fst g (elapsed 0)
        (m.solver.prepare matrix) (List.range m.catalog.size)
    refine ⟨by rw [hfirst]; rfl, fun q => ?_⟩
    exact sameShape_repriceAll.contains_eq.trans (Ledger.contains_sync ..)

omit [Scalar α] in
/-- A market has prices for the planets that have a row, and for the commodities of its catalog. -/
theorem Bookkeeping.isSome_price? (h : m.Bookkeeping catalog.basePrices)
    (hphase : m.phase ≠ .uninitialized) (q : PlanetKey) (c : Nat) :
    (m.price? q c).isSome = (m.ledger.contains q && decide (c < catalog.size)) := by
  have hsize : catalog.basePrices.length = catalog.size := List.length_map _
  have hlistings : m.catalog.listings.length = catalog.size := by
    have hlength := congrArg List.length h.catalog
    rwa [hsize, Catalog.basePrices, List.length_map] at hlength
  have hprice : (m.price? q c).isSome =
      ((m.catalog.commodity? c).isSome && (m.ledger.get? q c).isSome) := by
    unfold price?
    cases m.catalog.commodity? c <;> cases m.ledger.get? q c <;> rfl
  rw [hprice, Catalog.commodity?, Option.isSome_map, Ledger.get?_eq, Ledger.contains]
  cases hrow : m.ledger.row? q with
  | none => simp
  | some row =>
    have hrow : row.length = catalog.size := ((h.ledger hphase).length_eq hrow).trans hsize
    -- Both the row and the catalog reach as far as the catalog did when the market was made.
    refine Bool.eq_iff_iff.mpr ?_
    simp [hrow, hlistings]

end Market

open Market in
/-- **Ledger and galaxy agree** after a synchronisation, whatever edits, writes and synchronisations
went before. So after every call that opens a market or refreshes one that is open, and succeeds,
the market has a price for each planet of the galaxy and each commodity of the catalog, and no
others. A call that is not due succeeds as well, and leaves the market as it is. -/
theorem ledger_settles (catalog : Catalog α) (edits : List (Edit α)) (deeds : List (Deed α)) :
    ((Accounts.launch (.ofEdits edits) catalog).after deeds).ledger.Settles catalog
      ((Accounts.launch (.ofEdits edits) catalog).after deeds).synced
      ((Accounts.launch (.ofEdits edits) catalog).after deeds).galaxy ∧
    ∀ {config : Config α} {solver : Solver α} {m : Market α},
      ofConfig catalog config solver = .ok m → ∀ (calls : List (Call α)) {call : Call α}
      {g : Galaxy α} {events : List (Event α)}, call.rebuilds? = some g →
      ((m.after calls).perform call).2 = .ok events →
      ((m.after calls).isDue call = true → ∀ q c,
        (((m.after calls).perform call).1.price? q c).isSome =
          (g.planets.contains q && decide (c < catalog.size))) ∧
      ((m.after calls).isDue call = false →
        ((m.after calls).perform call).1 = m.after calls ∧ events = []) := by
  refine ⟨((Accounts.inOrder_launch edits catalog).after deeds).settles, ?_⟩
  intro config solver m hm calls call g events hcall hok
  constructor
  · intro hdue q c
    -- The rows are those of `g`; that they are wide enough is what every run preserves.
    have hstep := ((living_ofConfig hm).after calls).step_perform call
    obtain ⟨hready, hcontains⟩ :=
      contains_of_isRefreshed hstep (isRefreshed_of_isDue hdue hok) hcall
    have hbooks : ((m.after calls).perform call).1.Bookkeeping catalog.basePrices :=
      .step hstep
        ((living_ofConfig hm).after_induction Bookkeeping.step (bookkeeping_ofConfig hm) calls)
    have hphase : ((m.after calls).perform call).1.phase ≠ .uninitialized := by
      rw [hready]
      decide
    rw [hbooks.isSome_price? hphase, hcontains]
  · intro hdue
    rw [perform_of_not_isDue hdue hcall] at hok ⊢
    exact ⟨rfl, (Except.ok.inj hok).symm⟩

/-- The planet of the hamlet is replaced by another one in the same slot. -/
def resettlement : List (Deed ℝ) :=
  [.edit (.removePlanet ⟨0, 1⟩),
    .edit (.addPlanet ⟨0, 1⟩ { name := "Planet 1", population := 2 })]

/-- When the planet of the hamlet is replaced, the ledger goes over to the new one. A market that is
opened for the hamlet has a price for the planet that is there. -/
theorem ledger_settles_hamlet :
    ((Accounts.launch hamlet idleGood).after resettlement).ledger.Settles idleGood hamlet
      resettled ∧
    resettled.planets.keys = [⟨0, 3⟩] ∧
    (((Accounts.launch hamlet idleGood).after resettlement).ledger.reconcile resettled).2 =
      { added := 1, removed := 1 } ∧
    hamletMarket.isDue (.init hamlet) = true ∧
    ((hamletMarket.perform (.init hamlet)).1.price? ⟨0, 1⟩ 0).isSome = true := by
  obtain ⟨hsettles, hprices⟩ := ledger_settles idleGood
    [.addSystem { name := "System 0", nebula := ⟨0, 0⟩ },
      .addPlanet ⟨0, 1⟩ { name := "Planet 0", population := 1 }] resettlement
  obtain ⟨matrix, hnetwork⟩ := exists_network_hamlet
  have hok := congrArg Prod.snd (Market.init_of_ok (m := hamletMarket) rfl hnetwork)
  have hdue : hamletMarket.isDue (.init hamlet) = true := rfl
  refine ⟨hsettles, rfl, rfl, hdue, ?_⟩
  have hcall : (Call.init hamlet).rebuilds? = some hamlet := rfl
  exact (hprices hamletMarket_eq [] hcall hok).1 hdue ⟨0, 1⟩ 0

/-- **Calls that succeed and do nothing**: a market that is initialized a second time, when its
planet is gone, still has the price of that planet, and one that is refreshed before it was ever
initialized has no price for the planet that is there. -/
theorem not_prices_after_every_success :
    (¬ ∀ (catalog : Catalog ℝ) (config : Config ℝ) (solver : Solver ℝ) (m : Market ℝ)
      (calls : List (Call ℝ)) (g : Galaxy ℝ) (events : List (Event ℝ)) (q : PlanetKey) (c : ℕ),
      Market.ofConfig catalog config solver = .ok m → ((m.after calls).init g).2 = .ok events →
      (((m.after calls).init g).1.price? q c).isSome =
        (g.planets.contains q && decide (c < catalog.size))) ∧
    ¬ ∀ (catalog : Catalog ℝ) (config : Config ℝ) (solver : Solver ℝ) (m : Market ℝ)
      (calls : List (Call ℝ)) (g : Galaxy ℝ) (events : List (Event ℝ)) (q : PlanetKey) (c : ℕ),
      Market.ofConfig catalog config solver = .ok m → ((m.after calls).refresh g).2 = .ok events →
      (((m.after calls).refresh g).1.price? q c).isSome =
        (g.planets.contains q && decide (c < catalog.size)) := by
  constructor
  · -- The market is opened for the hamlet and then initialized again, without its planet.
    intro hall
    have hopened : (hamletMarket.after [.init hamlet]).InHamlet 0 := Market.inHamlet_opened
    have hinit : (hamletMarket.after [.init hamlet]).init abandoned =
        (hamletMarket.after [.init hamlet], .ok []) :=
      Market.init_of_ne (by rw [hopened.phase]; decide)
    have hprice := hall idleGood restless .cholesky hamletMarket [.init hamlet] abandoned []
      ⟨0, 1⟩ 0 hamletMarket_eq (congrArg Prod.snd hinit)
    obtain ⟨quote, hquote, -⟩ := hopened.quote
    have hsome : ((hamletMarket.after [.init hamlet]).price? ⟨0, 1⟩ 0).isSome = true := by
      rw [Market.price?, hopened.catalog, hquote]
      rfl
    rw [hinit, hsome] at hprice
    exact absurd hprice (by decide)
  · intro hall
    have hprice := hall idleGood restless .cholesky hamletMarket [] hamlet [] ⟨0, 1⟩ 0
      hamletMarket_eq rfl
    exact absurd hprice (by decide)

end GalaxyMarket
