import GalaxyMarket.Proofs.Market.Batching

/-!
# A market at its opening

`Market.launched` is a market that was just opened for a galaxy, before its first round of prices:
`Market.init_eq` says that opening a market is that round and nothing else. Its books are new. There
is a row for each planet and a quote in it for each commodity (`get?_launched`), every tracker is
zero (`tracks_launched`), and every planet is served (`exists_serves`).
-/

namespace GalaxyMarket.Market

section

variable {α : Type} [Scalar α] {catalog : Catalog α} {config : Config α} {solver : Solver α}
  {market : Market α} {g : Galaxy α} {index : SystemIndex} {matrix : SparseMatrix α}

/-- A new market that took over the network of a galaxy and has not priced anything yet. -/
def launched (catalog : Catalog α) (config : Config α) (solver : Solver α) (g : Galaxy α)
    (matrix : SparseMatrix α) : Market α :=
  { catalog, config, solver
    phase := .ready
    ledger := (Ledger.ofGalaxy g catalog).sync g
    index := .ofGalaxy g
    matrix
    prepared? := some (solver.prepare matrix) }

/-- **Opening a market** is its first round of prices. -/
theorem init_eq (hmarket : ofConfig catalog config solver = .ok market)
    (hnetwork : g.network config = .ok (index, matrix)) :
    (market.init g).1 = ((launched catalog config solver g matrix).update g 0).1 := by
  obtain ⟨-, rfl⟩ := ofConfig_eq_ok_iff.mp hmarket
  obtain ⟨rfl, -⟩ := Galaxy.dim_network hnetwork
  rw [init_of_ok rfl hnetwork, opened_of_uninitialized rfl]
  rfl

/-- Its rows are as wide as the catalog, -/
theorem fits_launched :
    (launched catalog config solver g matrix).ledger.Fits catalog.basePrices :=
  (Ledger.fits_ofGalaxy g catalog).sync g

/-- and they are those of the planets in the galaxy. -/
theorem contains_launched (q : PlanetKey) :
    (launched catalog config solver g matrix).ledger.contains q = g.planets.contains q :=
  Ledger.contains_sync ..

/-- Each planet has a quote of each commodity, at base price. -/
theorem get?_launched {q : PlanetKey} (hq : g.planets.contains q = true) (c : ℕ) :
    (launched catalog config solver g matrix).ledger.get? q c =
      catalog.basePrices[c]?.map fun price => { supply := 0, demand := 0, price } := by
  -- The books are synchronised twice, once when they are opened and once by the refresh. The first
  -- time every row is fresh, and the second time every row is kept.
  have hempty : ¬({ basePrices := catalog.basePrices } : Ledger α).contains q = true := by
    rw [Ledger.contains, Ledger.row?_empty]
    exact Bool.false_ne_true
  have hcontains : (Ledger.ofGalaxy g catalog).contains q = true :=
    (Ledger.contains_sync ..).trans hq
  show ((Ledger.ofGalaxy g catalog).sync g).get? q c = _
  rw [Ledger.get?_sync, if_pos hq, if_pos hcontains, Ledger.ofGalaxy, Ledger.get?_sync, if_pos hq,
    if_neg hempty]

/-- No quote of a planet is missing. -/
theorem exists_get?_launched {q : PlanetKey} (hq : g.planets.contains q = true) {c : ℕ}
    (hc : c < catalog.size) :
    ∃ quote, (launched catalog config solver g matrix).ledger.get? q c = some quote := by
  have hlt : c < catalog.basePrices.length := catalog.size_eq ▸ hc
  rw [get?_launched hq, List.getElem?_eq_getElem hlt]
  exact ⟨_, rfl⟩

/-- Nothing is tracked yet. -/
theorem tracks_launched :
    (launched catalog config solver g matrix).ledger.Tracks (0 = ·) :=
  (Ledger.tracks_ofGalaxy rfl g catalog).sync rfl g

end

/-- So the books are at rest. -/
theorem atRest_launched {catalog : Catalog ℝ} {config : Config ℝ} {solver : Solver ℝ}
    {g : Galaxy ℝ} {matrix : SparseMatrix ℝ} :
    (launched catalog config solver g matrix).ledger.AtRest config := by
  have hnonneg : (launched catalog config solver g matrix).ledger.Tracks (0 ≤ ·) :=
    fun q c quote hquote =>
      ⟨(tracks_launched q c quote hquote).1.le, (tracks_launched q c quote hquote).2.le⟩
  exact hnonneg.atRest config

end GalaxyMarket.Market
