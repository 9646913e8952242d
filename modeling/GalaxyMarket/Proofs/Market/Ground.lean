import GalaxyMarket.Proofs.Market.Opening
import GalaxyMarket.Proofs.Market.Potentials
import GalaxyMarket.Proofs.Market.Rescaling

/-!
# All current leaves through the ground

What flows along the routes of a network cancels, whatever their resistances, so that each row and
each column of its matrix sums to the conductance of the ground (`Galaxy.sum_row_network`,
`Galaxy.sum_col_network`). For potentials this says two things: they sum to the self resistance
times the sum of the intensities, and level intensities have level potentials.

A market that is opened finds level intensities. Its trackers are all zero and no time has passed,
so that every system with an inhabited planet has intensity one (`Ledger.intensities_of_fresh`).
With level potentials every multiplier is one half, and so `Market.price_init` needs to know nothing
of jumps, nebulae and factions.
-/

namespace GalaxyMarket

open Matrix

namespace Galaxy

variable {g : Galaxy ℝ} {config : Config ℝ} {index : SystemIndex} {m : SparseMatrix ℝ}

/-! ### Sums -/

/-- **Each row** of the matrix sums to the conductance of the ground, -/
theorem sum_row_network (h : g.network config = .ok (index, m)) {i : ℕ} (hi : i < m.dim) :
    ∑ j ∈ Finset.range m.dim, m.get i j = config.selfResistance⁻¹ := by
  rw [Finset.sum_range]
  show ∑ j, m.toMatrix ⟨i, hi⟩ j = config.selfResistance⁻¹
  rw [toMatrix_network h]
  exact groundedLaplacian.sum_row _

/-- and so does **each column**. -/
theorem sum_col_network (h : g.network config = .ok (index, m)) {j : ℕ} (hj : j < m.dim) :
    ∑ i ∈ Finset.range m.dim, m.get i j = config.selfResistance⁻¹ := by
  rw [Finset.sum_range]
  show ∑ i, m.toMatrix i ⟨j, hj⟩ = config.selfResistance⁻¹
  rw [toMatrix_network h]
  exact groundedLaplacian.sum_col (isSymm_conductance m.dim) _

/-- **Potentials sum** to the self resistance times the sum of the intensities. -/
theorem sum_of_mulVec (h : g.network config = .ok (index, m)) {x : List ℝ}
    (hx : x.length = m.dim) : x.sum = config.selfResistance * (m.mulVec x).sum := by
  have hflow : (m.mulVec x).sum = config.selfResistance⁻¹ * x.sum := by
    calc (m.mulVec x).sum
        = ∑ i, (m.toMatrix *ᵥ Vector.coords m.dim x) i := by
          rw [← SparseMatrix.coords_mulVec (wellFormed_network h) hx,
            Vector.sum_coords (m.length_mulVec x)]
      _ = config.selfResistance⁻¹ * ∑ i, Vector.coords m.dim x i := by
          rw [toMatrix_network h]
          exact groundedLaplacian.sum_mulVec (isSymm_conductance m.dim) _
      _ = config.selfResistance⁻¹ * x.sum := by rw [Vector.sum_coords hx]
  rw [hflow, mul_inv_cancel_left₀ (selfResistance_pos h).ne']

/-! ### Level intensities -/

/-- **Level intensities have level potentials**, and no others if the matrix is invertible. -/
theorem eq_replicate_of_mulVec (h : g.network config = .ok (index, m))
    (hunit : IsUnit m.toMatrix) {x : List ℝ} (hx : x.length = m.dim) {level : ℝ}
    (hmul : m.mulVec x = .replicate m.dim level) :
    x = .replicate m.dim (config.selfResistance * level) := by
  have hlevel := mulVec_replicate (selfResistance_pos h) h level
  -- Both have the same product, which tells vectors apart.
  exact (wellFormed_network h).mulVec_inj hunit hx List.length_replicate (hmul.trans hlevel.symm)

end Galaxy

/-- A method that takes a point with nothing left of the right-hand side for a solution: a search
with a negative tolerance would not. -/
def Solver.StopsAtZero : Solver ℝ → Prop
  | cholesky => True
  | conjugateGradient settings => 0 ≤ settings.tolerance

/-- **Every method finds level potentials**; conjugate gradients need one step. -/
theorem Galaxy.solve_replicate {g : Galaxy ℝ} {config : Config ℝ} {index : SystemIndex}
    {m : SparseMatrix ℝ} (h : g.network config = .ok (index, m)) (hpos : m.toMatrix.PosDef)
    {solver : Solver ℝ} (hsolver : solver.StopsAtZero) (level : ℝ) :
    (solver.prepare m).solve (.replicate m.dim level) =
      .ok (.replicate m.dim (config.selfResistance * level)) := by
  have hself := selfResistance_pos h
  -- Factors give the one solution there is. A search stretches the level right-hand side, and gets
  -- to the end of it in its first step.
  cases solver with
  | cholesky =>
    have hm : m.IsSolvable := ⟨wellFormed_network h, isSymm_network h, hpos⟩
    have hexact : (Solver.cholesky : Solver ℝ).IsExact := trivial
    have hlevel : (List.replicate m.dim level).length = m.dim := List.length_replicate
    obtain ⟨x, hx, hlength, hmul⟩ := Solver.exists_solve hm hexact hlevel
    rw [hx, eq_replicate_of_mulVec h hpos.isUnit hlength hmul]
  | conjugateGradient settings =>
    have hstretch : m.mulVec (.replicate m.dim level) =
        (List.replicate m.dim level).map (config.selfResistance⁻¹ * ·) := by
      have hlevel := mulVec_replicate hself h (config.selfResistance⁻¹ * level)
      rwa [mul_inv_cancel_left₀ hself.ne', ← List.map_replicate] at hlevel
    have hsearch : ConjugateGradient.solve settings m (.replicate m.dim level) =
        .ok (.replicate m.dim (config.selfResistance * level)) := by
      rw [ConjugateGradient.solve_of_mulVec_eq hsolver (inv_pos.mpr hself) hstretch,
        List.map_replicate, inv_inv]
    rw [Prepared.solve, Solver.dim_prepare]
    simp [Solver.prepare, Prepared.candidate, hsearch, Except.mapError]

/-! ### The first pass of a market -/

/-- Quotes whose trackers are all zero amount to intensity one, however many there are. -/
theorem intensityOf_of_fresh {config : Config ℝ} {quotes : List (ℕ × Quote ℝ)} (hne : quotes ≠ [])
    (hfresh : ∀ entry ∈ quotes, entry.2.supply = 0 ∧ entry.2.demand = 0) :
    intensityOf config quotes = 1 := by
  have hlast := hfresh _ (List.getLast_mem hne)
  -- Weighted or not, nothing is in excess.
  have hexcess : totalExcess quotes = 0 := by
    have hdemand : ∀ x ∈ quotes.map fun entry =>
        entry.2.demand * Scalar.sqrt (Scalar.ofInt entry.1), x = 0 := by
      intro x hx
      obtain ⟨entry, hentry, rfl⟩ := List.mem_map.mp hx
      rw [(hfresh entry hentry).2, zero_mul]
    have hsupply : ∀ x ∈ quotes.map fun entry =>
        entry.2.supply * Scalar.sqrt (Scalar.ofInt entry.1), x = 0 := by
      intro x hx
      obtain ⟨entry, hentry, rfl⟩ := List.mem_map.mp hx
      rw [(hfresh entry hentry).1, zero_mul]
    show Scalar.sum _ - Scalar.sum _ = 0
    rw [Scalar.sum_eq, Scalar.sum_eq]
    exact sub_eq_zero.mpr ((List.sum_eq_zero hdemand).trans (List.sum_eq_zero hsupply).symm)
  rw [intensityOf_of_getLast? (List.getLast?_eq_some_getLast hne)]
  cases config.aggregation with
  | systemTotal =>
    show config.powerBase ^ (totalExcess quotes / config.productionModifier) = 1
    rw [hexcess, zero_div, Real.rpow_zero]
  | lastPlanet =>
    show config.powerBase ^ ((_ - _) / config.productionModifier) = 1
    rw [hlast.1, hlast.2, sub_zero, zero_div, Real.rpow_zero]

/-- **A ledger in which nothing is tracked yet** has level intensities, as long as every system has
an inhabited planet in it. -/
theorem Ledger.intensities_of_fresh {ledger : Ledger ℝ} (config : Config ℝ) {g : Galaxy ℝ} {c : ℕ}
    (htracks : ledger.Tracks (0 = ·)) {keys : List SystemKey}
    (hinhabited : ∀ key ∈ keys, ∃ q planet quote, (q, planet) ∈ g.planetsIn key ∧
      planet.inhabited = true ∧ ledger.get? q c = some quote) :
    ledger.intensities config g c keys = .replicate keys.length 1 := by
  refine List.eq_replicate_iff.mpr ⟨List.length_map _, ?_⟩
  intro intensity hintensity
  obtain ⟨key, hkey, rfl⟩ := List.mem_map.mp hintensity
  -- That the list is not empty takes an inhabited planet; that it is fresh, a look at its entries.
  apply intensityOf_of_fresh
  · obtain ⟨q, planet, quote, hmem, hplanet, hquote⟩ := hinhabited key hkey
    have hlisted : (planet.population, quote) ∈ ledger.quotes c (g.planetsIn key) := by
      refine List.mem_filterMap.mpr ⟨(q, planet), hmem, ?_⟩
      rw [if_pos hplanet, hquote, Option.map_some]
    exact List.ne_nil_of_mem hlisted
  · intro entry hentry
    obtain ⟨⟨q, planet⟩, -, hfound⟩ := List.mem_filterMap.mp hentry
    obtain ⟨-, hfound⟩ := Option.ite_none_right_eq_some.mp hfound
    obtain ⟨quote, hquote, rfl⟩ := Option.map_eq_some_iff.mp hfound
    exact ⟨(htracks q c quote hquote).1.symm, (htracks q c quote hquote).2.symm⟩

namespace Market

variable {catalog : Catalog ℝ} {config : Config ℝ} {solver : Solver ℝ} {market : Market ℝ}
  {g : Galaxy ℝ} {index : SystemIndex} {m : SparseMatrix ℝ}

/-- The price on a planet is that of its quote. -/
theorem price?_of_get? {c : ℕ} (hc : c < market.catalog.size) {q : PlanetKey} {quote : Quote ℝ}
    (hquote : market.ledger.get? q c = some quote) : market.price? q c = some quote.price := by
  rw [price?, Catalog.commodity?, List.getElem?_eq_getElem hc, hquote]
  rfl

/-- **At the opening all intensities are one**, wherever each system has an inhabited planet: it has
a quote, and nothing is tracked yet. -/
theorem advance_launched (hg : g.IsOrderly)
    (hinhabited : ∀ key system, g.system? key = some system →
      ∃ q planet, g.planet? q = some planet ∧ planet.system = key ∧ planet.inhabited = true)
    {c : ℕ} (hc : c < catalog.size) {source : Source ℝ} :
    ((launched catalog config solver g m).advance g 0 c source).1 =
      .replicate (SystemIndex.ofGalaxy g).size 1 := by
  rw [(advance_idle atRest_launched g c source).1]
  apply Ledger.intensities_of_fresh config tracks_launched
  intro key hkey
  obtain ⟨system, hsystem⟩ := SystemIndex.mem_keys_ofGalaxy_iff.mp hkey
  obtain ⟨p, planet, hp, rfl, hlives⟩ := hinhabited key system hsystem
  obtain ⟨quote, hquote⟩ := exists_get?_launched (Slots.contains_iff.mpr ⟨planet, hp⟩) hc
  exact ⟨p, planet, quote, hg.mem_planetsIn_iff.mpr ⟨hp, rfl⟩, hlives, hquote⟩

/-- **A market that is opened prices everything at one half**, wherever each system has an inhabited
planet and the matrix is positive definite. -/
theorem price_init (hmarket : ofConfig catalog config solver = .ok market) (hg : g.IsOrderly)
    (hnetwork : g.network config = .ok (index, m)) (hpos : m.toMatrix.PosDef)
    (hsolver : solver.StopsAtZero)
    (hinhabited : ∀ key system, g.system? key = some system →
      ∃ q planet, g.planet? q = some planet ∧ planet.system = key ∧ planet.inhabited = true)
    {q : PlanetKey} {planet : Planet} (hq : g.planet? q = some planet) {c : ℕ} {good : Commodity}
    {source : Source ℝ} (hlisting : catalog.listings[c]? = some ⟨good, some source⟩) :
    (market.init g).1.price? q c = some (scaledPrice good.basePrice (0.5 : ℝ)) := by
  obtain ⟨rfl, hdim⟩ := Galaxy.dim_network hnetwork
  have hc : c < catalog.size := (List.getElem?_eq_some_iff.mp hlisting).1
  have hsolve : (solver.prepare m).solve
      ((launched catalog config solver g m).advance g (elapsed 0) c source).1 =
      .ok (.replicate m.dim (config.selfResistance * 1)) := by
    rw [elapsed_zero, advance_launched hg hinhabited hc, ← hdim]
    exact Galaxy.solve_replicate hnetwork hpos hsolver 1
  -- The planet is served, so that there are potentials to rescale.
  have hpresent : g.planets.contains q = true := Slots.contains_iff.mpr ⟨planet, hq⟩
  obtain ⟨planet, i, hserves⟩ :=
    exists_serves (m := launched catalog config solver g m) hg rfl hpresent
  have hsize : 0 < m.dim := by
    rw [hdim]
    exact List.length_pos_of_ne_nil (hserves.keys_ne_nil rfl)
  have hflat : normalize? (.replicate m.dim (config.selfResistance * 1)) =
      some (.flat (.replicate m.dim (config.selfResistance * 1))) := by
    apply normalize?_of_level
    · exact List.ne_nil_of_length_pos (by rwa [List.length_replicate])
    · exact fun x hx => List.eq_of_mem_replicate hx
  have hlength :
      (Multipliers.flat (List.replicate m.dim (config.selfResistance * 1))).values.length =
        (SystemIndex.ofGalaxy g).keys.length := by
    rw [Multipliers.flat, List.length_map, List.length_replicate]
    exact hdim
  obtain ⟨quote, x, hquote, hx, hprice⟩ := exists_price_update rfl rfl rfl fits_launched hg
    hlisting hsolve hflat hlength hserves ((contains_launched q).trans hpresent)
  obtain ⟨_, -, rfl⟩ := List.mem_map.mp (List.mem_of_getElem? hx)
  -- The commodity is still in the catalog.
  have hkept : c < ((launched catalog config solver g m).update g 0).1.catalog.size := by
    rw [size_update]
    exact hc
  rw [init_eq hmarket hnetwork, price?_of_get? hkept hquote, hprice]

end Market

/-- **The ground law.** In every network with a matrix, whatever the resistances of its routes, rows
and columns sum to the conductance of the ground. So potentials sum to the self resistance times the
sum of the intensities, and level intensities have level potentials if the matrix is invertible. A
market that is opened where every system has an inhabited planet and the matrix is positive definite
therefore prices every commodity that has a source at half its base price, on every planet. -/
theorem ground_law (edits : List (Edit ℝ)) {config : Config ℝ} {index : SystemIndex}
    {m : SparseMatrix ℝ} (h : (Galaxy.ofEdits edits).network config = .ok (index, m)) :
    (∀ i < m.dim, ∑ j ∈ Finset.range m.dim, m.get i j = config.selfResistance⁻¹) ∧
    (∀ j < m.dim, ∑ i ∈ Finset.range m.dim, m.get i j = config.selfResistance⁻¹) ∧
    (∀ x I : List ℝ, x.length = m.dim → m.mulVec x = I →
      x.sum = config.selfResistance * I.sum) ∧
    (IsUnit m.toMatrix → ∀ (x : List ℝ) (level : ℝ), x.length = m.dim →
      m.mulVec x = .replicate m.dim level →
        x = .replicate m.dim (config.selfResistance * level)) ∧
    (m.toMatrix.PosDef →
      (∀ key system, (Galaxy.ofEdits edits).system? key = some system →
        ∃ q planet, (Galaxy.ofEdits edits).planet? q = some planet ∧ planet.system = key ∧
          planet.inhabited = true) →
      ∀ (catalog : Catalog ℝ) (solver : Solver ℝ) (market : Market ℝ), solver.StopsAtZero →
        Market.ofConfig catalog config solver = .ok market →
        ∀ q planet c good source, (Galaxy.ofEdits edits).planet? q = some planet →
          catalog.listings[c]? = some ⟨good, some source⟩ →
            (market.init (Galaxy.ofEdits edits)).1.price? q c =
              some (scaledPrice good.basePrice (0.5 : ℝ))) := by
  refine ⟨fun i hi => Galaxy.sum_row_network h hi, fun j hj => Galaxy.sum_col_network h hj,
    ?_, ?_, ?_⟩
  · rintro x I hx rfl
    exact Galaxy.sum_of_mulVec h hx
  · intro hunit x level hx hmul
    exact Galaxy.eq_replicate_of_mulVec h hunit hx hmul
  · intro hpos hinhabited catalog solver market hsolver hmarket q planet c good source hq hlisting
    exact Market.price_init hmarket (Galaxy.isOrderly_ofEdits edits) h hpos hsolver hinhabited hq
      hlisting

/-- Two systems with an inhabited planet each, of which one lies in a nebula and is held by a
faction, and a jump from it to the other. -/
def neighbours : List (Edit ℝ) :=
  [.addSystem { name := "System 0", nebula := ⟨0, 0⟩ },
    .addSystem { name := "System 1", nebula := ⟨500, 20⟩, faction? := some 1 },
    .addPlanet ⟨0, 1⟩ { name := "Planet 0", population := 4 },
    .addPlanet ⟨1, 1⟩ { name := "Planet 1", population := 9 },
    .addJump ⟨1, 1⟩ { target := ⟨0, 1⟩ }]

/-- The neighbours once more. What was added first is added second, and the jump leads the other
way. -/
def neighboursReversed : List (Edit ℝ) :=
  [.addSystem { name := "System 1", nebula := ⟨500, 20⟩, faction? := some 1 },
    .addSystem { name := "System 0", nebula := ⟨0, 0⟩ },
    .addPlanet ⟨0, 1⟩ { name := "Planet 1", population := 9 },
    .addPlanet ⟨1, 1⟩ { name := "Planet 0", population := 4 },
    .addJump ⟨1, 1⟩ { target := ⟨0, 1⟩ }]

/-- Of the two systems, the second lies in a nebula. -/
theorem system?_neighbours {key : SystemKey} {system : System ℝ}
    (h : (Galaxy.ofEdits neighbours).system? key = some system) :
    (key = ⟨0, 1⟩ ∧ system.nebula = ⟨0, 0⟩) ∨ (key = ⟨1, 1⟩ ∧ system.nebula = ⟨500, 20⟩) := by
  have hmem : (key, system) ∈ (Galaxy.ofEdits neighbours).systems.toList :=
    Slots.mem_toList_iff.mpr h
  change (key, system) ∈ [(⟨0, 1⟩, ⟨_, ⟨0, 0⟩, _, _, _⟩), (⟨1, 1⟩, ⟨_, ⟨500, 20⟩, _, _, _⟩)] at hmem
  simp only [List.mem_cons, List.not_mem_nil, or_false, Prod.mk.injEq] at hmem
  rcases hmem with ⟨rfl, rfl⟩ | ⟨rfl, rfl⟩
  · exact Or.inl ⟨rfl, rfl⟩
  · exact Or.inr ⟨rfl, rfl⟩

/-- A nebula only adds to a resistance. -/
theorem routesPositive_neighbours : (Galaxy.ofEdits neighbours).RoutesPositive Config.standard := by
  apply Galaxy.routesPositive_of_config
  · norm_num [Config.standard]
  · norm_num [Config.standard]
  · norm_num [Config.standard]
  · intro key system h
    rcases system?_neighbours h with ⟨-, hnebula⟩ | ⟨-, hnebula⟩
    · rw [hnebula]
      norm_num
    · rw [hnebula]
      norm_num

/-- Somebody lives in either system. -/
theorem inhabited_neighbours {key : SystemKey} {system : System ℝ}
    (h : (Galaxy.ofEdits neighbours).system? key = some system) :
    ∃ q planet, (Galaxy.ofEdits neighbours).planet? q = some planet ∧ planet.system = key ∧
      planet.inhabited = true := by
  rcases system?_neighbours h with ⟨rfl, -⟩ | ⟨rfl, -⟩
  · exact ⟨⟨0, 1⟩, _, rfl, rfl, rfl⟩
  · exact ⟨⟨1, 1⟩, _, rfl, rfl, rfl⟩

/-- Half of a hundred credits. -/
theorem scaledPrice_hundred : scaledPrice 100 (0.5 : ℝ) = 50 := by
  have hproduct : ((100 : ℤ) : ℝ) * 0.5 = 50 := by norm_num
  have hwhole : nearestWhole (((100 : ℤ) : ℝ) * 0.5) = 50 := by
    rw [hproduct, nearestWhole, if_pos (by norm_num)]
    apply Int.floor_eq_iff.mpr
    norm_num
  show Credits.ofInt (nearestWhole (((100 : ℤ) : ℝ) * 0.5)) = 50
  rw [hwhole]
  decide

/-- The standard tuning is valid. -/
theorem validate_standard : (Config.standard : Config ℝ).validate = .ok () := by
  rw [Config.validate_eq_ok_iff]
  norm_num [Config.standard]

/-- Among the neighbours food, with a base price of 100, is sold at 50 when a market is opened. -/
theorem ground_law_neighbours : ∃ index m market,
    (Galaxy.ofEdits neighbours).network Config.standard = .ok (index, m) ∧
      Market.ofConfig .standard .standard .cholesky = .ok market ∧
      (∀ i < m.dim, ∑ j ∈ Finset.range m.dim, m.get i j = 3⁻¹) ∧
      (market.init (Galaxy.ofEdits neighbours)).1.price? ⟨1, 1⟩ 0 = some 50 := by
  have hself : 0 < (Config.standard : Config ℝ).selfResistance := by norm_num [Config.standard]
  obtain ⟨m, hm⟩ := Galaxy.exists_network_of_pos (Galaxy.ofEdits neighbours) hself
  have hpos : m.toMatrix.PosDef :=
    (Galaxy.isSolvable_network hself routesPositive_neighbours hm).posDef
  let market : Market ℝ := { catalog := .standard, config := .standard, solver := .cholesky }
  have hmarket : Market.ofConfig .standard .standard .cholesky = .ok market :=
    Market.ofConfig_eq_ok_iff.mpr ⟨validate_standard, rfl⟩
  obtain ⟨hrows, -, -, -, hprices⟩ := ground_law neighbours hm
  refine ⟨_, m, market, hm, hmarket, ?_, ?_⟩
  · intro i hi
    rw [hrows i hi]
    norm_num [Config.standard]
  · have hprice := hprices hpos (fun _ _ => inhabited_neighbours) .standard .cholesky market trivial
      hmarket ⟨1, 1⟩ _ 0 _ _ rfl rfl
    exact hprice.trans (congrArg some scaledPrice_hundred)

end GalaxyMarket
