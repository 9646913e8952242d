import GalaxyMarket.Proofs.Market.Ground
import GalaxyMarket.Proofs.Market.Isomorphism
import GalaxyMarket.Proofs.Market.TrackerRange

/-!
# Prices do not depend on keys

Two markets that are opened for isomorphic galaxies, and from then on see the same time pass, have
the same quotes on corresponding planets (`quotes_isomorphic`). In the one galaxy a planet may be
the first to be visited and in the other the last, so this needs sources that always say the same.

The markets mirror each other (`Market.Mirrors`): all that they were made with is the same, each has
the network of its own galaxy, and their ledgers agree on corresponding planets. One round keeps
this, commodity by commodity (`Mirrors.exists_get?_reprice`):

* every inhabited planet moves by the one sample there is (`Mirrors.exists_get?_trackedLedger`),
* so that corresponding systems have the same intensity (`Mirrors.advance_eq_select`),
* and the same potential, or no potentials are found in either galaxy (`Mirrors.solve_eq_map`);
* rescaling only looks at which potentials there are (`exists_rescaling`).

From there it goes on to all calls that let time pass (`Mirrors.perform`).
-/

namespace GalaxyMarket

/-- A passage of time, by its length or up to a point of time. -/
inductive Tick (α : Type) where
  | lasting (dt : α)
  | upTo (now : α)

/-- The call that lets the time pass in a galaxy. -/
def Tick.call {α : Type} (g : Galaxy α) : Tick α → Call α
  | lasting dt => .update g dt
  | upTo now => .updateAt g now

/-- The calls to a market that is opened for a galaxy and then sees time pass in it. -/
def Tick.calls {α : Type} (g : Galaxy α) (ticks : List (Tick α)) : List (Call α) :=
  .init g :: ticks.map (Tick.call g)

/-- A quote of a planet after the time `dt`, by a source that says what it always says. -/
noncomputable def Quote.moved (config : Config ℝ) (dt : ℝ) (planet : Planet)
    (source? : Option (Source ℝ)) (quote : Quote ℝ) : Quote ℝ :=
  if planet.inhabited then
    source?.elim quote fun source => quote.track config dt source.draw.1
  else quote

namespace Market

variable {σ : SystemKey → SystemKey} {π : PlanetKey → PlanetKey} {g h : Galaxy ℝ}
  {m m' : Market ℝ} {c i : ℕ} {q : PlanetKey} {planet : Planet}

/-! ### Markets that mirror each other -/

/-- A market that is ready, with the network of a galaxy. -/
structure IsReadyFor (m : Market ℝ) (g : Galaxy ℝ) : Prop where
  phase : m.phase = .ready
  network : g.network m.config = .ok (m.index, m.matrix)
  prepared : m.prepared? = some (m.solver.prepare m.matrix)

/-- Its index is that of the galaxy. -/
theorem IsReadyFor.index_eq (hm : m.IsReadyFor g) : m.index = .ofGalaxy g :=
  (Galaxy.dim_network hm.network).1

/-- **Two markets mirror each other**, each in its own galaxy: they were made alike, of sources that
always say the same, the same time has passed, and on corresponding planets they have the same
quotes. -/
structure Mirrors (π : PlanetKey → PlanetKey) (g h : Galaxy ℝ) (m m' : Market ℝ) : Prop where
  ready : m.IsReadyFor g
  ready' : m'.IsReadyFor h
  constant : m.catalog.IsConstant
  total : m.config.aggregation = .systemTotal
  catalog : m'.catalog = m.catalog
  config : m'.config = m.config
  solver : m'.solver = m.solver
  clock : m'.lastUpdate? = m.lastUpdate?
  quotes : ∀ q, g.planets.contains q = true → ∀ c < m.catalog.size,
    ∃ quote, m.ledger.get? q c = some quote ∧ m'.ledger.get? (π q) c = some quote

/-! ### One commodity -/

/-- What a constant source makes of a quote. -/
theorem get?_trackedLedger_of_constant (hconstant : m.catalog.IsConstant) (hg : g.IsOrderly)
    (hindex : m.index = .ofGalaxy g) (hserves : m.Serves g q planet i) {quote : Quote ℝ}
    (hquote : m.ledger.get? q c = some quote) (dt : ℝ) : (m.trackedLedger g dt c).get? q c =
      some (quote.moved m.config dt planet (m.catalog.source? c)) := by
  unfold Quote.moved
  by_cases hlives : planet.inhabited = true
  · rw [if_pos hlives]
    cases hsource : m.catalog.source? c with
    | none =>
      rw [trackedLedger, hsource]
      exact hquote
    | some source =>
      obtain ⟨sample, rfl⟩ := hconstant c source hsource
      -- A source that always says the same is not used up by draws.
      have hdraw : ∀ source : Source ℝ, source = .constant sample → source.draw.2 =
          .constant sample := by
        rintro source rfl
        rfl
      obtain ⟨source, rfl, htracked⟩ :=
        trackedLedger_of_serves hg hindex hdraw hsource rfl hserves hlives hquote dt
      exact htracked
  · rw [if_neg hlives, trackedLedger_of_not_serves hg hindex _ dt]
    · exact hquote
    · -- It is the same planet that is met, under whatever number.
      intro planet' i' _ hserves'
      cases hserves.planet?.symm.trans hserves'.planet?
      exact Bool.eq_false_of_not_eq_true hlives

section

variable (hmirror : m.Mirrors π g h m') (hiso : Galaxy.IsIsomorphic σ π g h) (hg : g.IsOrderly)
  (hh : h.IsOrderly)

include hmirror hiso hg hh

/-- **Trackers move alike**, as there is only one sample to move by. -/
theorem Mirrors.exists_get?_trackedLedger (dt : ℝ) (hc : c < m.catalog.size)
    (hq : g.planets.contains q = true) :
    ∃ quote, (m.trackedLedger g dt c).get? q c = some quote ∧
      (m'.trackedLedger h dt c).get? (π q) c = some quote := by
  obtain ⟨quote, hquote, hquote'⟩ := hmirror.quotes q hq c hc
  obtain ⟨planet, i, hserves⟩ := exists_serves hg hmirror.ready.index_eq hq
  obtain ⟨planet', i', hserves'⟩ :=
    exists_serves hh hmirror.ready'.index_eq (hiso.planets.mapsTo hq)
  have hinhabited := (hiso.planet hserves.planet? hserves'.planet?).2.2
  have hconstant' : m'.catalog.IsConstant := hmirror.catalog ▸ hmirror.constant
  -- Both are moved by the same sample, or by none if nobody lives there.
  refine ⟨_, get?_trackedLedger_of_constant hmirror.constant hg hmirror.ready.index_eq hserves
    hquote dt, ?_⟩
  rw [get?_trackedLedger_of_constant hconstant' hh hmirror.ready'.index_eq hserves' hquote' dt,
    Quote.moved, Quote.moved, hinhabited, hmirror.catalog, hmirror.config]

/-- The quotes for which the intensities are asked. -/
theorem Mirrors.exists_get?_advance (dt : ℝ) {source : Source ℝ}
    (hsource : m.catalog.source? c = some source) (hc : c < m.catalog.size)
    (hq : g.planets.contains q = true) :
    ∃ quote, (m.advance g dt c source).2.ledger.get? q c = some quote ∧
      (m'.advance h dt c source).2.ledger.get? (π q) c = some quote := by
  have htracked := hmirror.exists_get?_trackedLedger hiso hg hh dt hc hq
  rwa [trackedLedger, trackedLedger, hmirror.catalog, hsource] at htracked

/-- **Intensities are the same**, but for the numbering of the systems. -/
theorem Mirrors.advance_eq_select (dt : ℝ) {source : Source ℝ}
    (hsource : m.catalog.source? c = some source) (hc : c < m.catalog.size)
    {e : Fin m.matrix.dim → Fin m'.matrix.dim}
    (hplaces : SystemIndex.Places σ m.index m'.index e) :
    (m.advance g dt c source).1 = Vector.select e (m'.advance h dt c source).1 := by
  have hindex := hmirror.ready.index_eq
  have hindex' := hmirror.ready'.index_eq
  have hdim' := (Galaxy.dim_network hmirror.ready'.network).2
  -- Intensities are read off the quotes after the trackers moved.
  have hquotes : ∀ q, g.planets.contains q = true →
      (m'.advance h dt c source).2.ledger.get? (π q) c =
        (m.advance g dt c source).2.ledger.get? q c := by
    intro q hq
    obtain ⟨quote, hquote, hquote'⟩ :=
      hmirror.exists_get?_advance hiso hg hh dt hsource hc hq
    exact hquote'.trans hquote.symm
  rw [advance_fst (nodup_visits hg hindex), advance_fst (nodup_visits hh hindex'), hmirror.config,
    hindex, hindex']
  rw [hindex'] at hdim'
  rw [hindex, hindex'] at hplaces
  exact hiso.intensities_eq_select hg hh hmirror.total hquotes hplaces hdim'.symm

/-- **The solves come out alike**: the same potentials are found for corresponding systems, or none
in either galaxy. -/
theorem Mirrors.solve_eq_map (dt : ℝ) {source : Source ℝ}
    (hsource : m.catalog.source? c = some source) (hc : c < m.catalog.size)
    {e : Fin m.matrix.dim → Fin m'.matrix.dim}
    (hplaces : SystemIndex.Places σ m.index m'.index e) (he : m.matrix.IsRenumbered m'.matrix e) :
    (m.solver.prepare m.matrix).solve (m.advance g dt c source).1 =
      ((m'.solver.prepare m'.matrix).solve (m'.advance h dt c source).1).map (Vector.select e) := by
  have hlength : (m'.advance h dt c source).1.length = m'.matrix.dim :=
    (Pass.length_systems ..).trans (Galaxy.dim_network hmirror.ready'.network).2.symm
  rw [hmirror.advance_eq_select hiso hg hh dt hsource hc hplaces, hmirror.solver,
    Solver.solve_select m.solver he hlength]

omit hg hh in
/-- What one market reads for a planet is what the other reads for the corresponding one. -/
theorem Mirrors.getElem?_select {e : Fin m.matrix.dim → Fin m'.matrix.dim}
    (hplaces : SystemIndex.Places σ m.index m'.index e) {potentials : List ℝ}
    (hlength : potentials.length = m'.matrix.dim) {planet' : Planet} {i' : ℕ}
    (hserves : m.Serves g q planet i) (hserves' : m'.Serves h (π q) planet' i') :
    (Vector.select e potentials)[i]? = potentials[i']? := by
  have hi := hserves.position?
  have hi' := hserves'.position?
  rw [(hiso.planet hserves.planet? hserves'.planet?).1] at hi'
  rw [hmirror.ready.index_eq] at hi
  rw [hmirror.ready'.index_eq] at hi'
  rw [hmirror.ready.index_eq, hmirror.ready'.index_eq] at hplaces
  exact hplaces.getElem?_select hlength hi hi'

/-- Where potentials were found, corresponding planets are given the same prices. -/
theorem Mirrors.exists_get?_reprice_of_ok (dt : ℝ) (hc : c < m.catalog.size)
    (hq : g.planets.contains q = true) {good : Commodity} {source : Source ℝ}
    (hlisting : m.catalog.listings[c]? = some ⟨good, some source⟩)
    {e : Fin m.matrix.dim → Fin m'.matrix.dim}
    (hplaces : SystemIndex.Places σ m.index m'.index e) (he : m.matrix.IsRenumbered m'.matrix e)
    {potentials : List ℝ} (hanswer : (m'.solver.prepare m'.matrix).solve
      (m'.advance h dt c source).1 = .ok potentials) :
    ∃ quote, (m.reprice g dt (m.solver.prepare m.matrix) c).1.ledger.get? q c = some quote ∧
      (m'.reprice h dt (m'.solver.prepare m'.matrix) c).1.ledger.get? (π q) c = some quote := by
  have hindex := hmirror.ready.index_eq
  have hindex' := hmirror.ready'.index_eq
  have hdim := (Galaxy.dim_network hmirror.ready.network).2
  have hdim' := (Galaxy.dim_network hmirror.ready'.network).2
  have hlisting' : m'.catalog.listings[c]? = some ⟨good, some source⟩ := by
    rw [hmirror.catalog, hlisting]
  have hsource : m.catalog.source? c = some source := Catalog.source?_of_listing hlisting
  have hsolve := hmirror.solve_eq_map hiso hg hh dt hsource hc hplaces he
  rw [hanswer] at hsolve
  have hpotentials : potentials.length = m'.matrix.dim :=
    ((Prepared.length_of_solve hanswer).trans (Pass.length_systems ..)).trans hdim'.symm
  obtain ⟨planet, i, hserves⟩ := exists_serves hg hindex hq
  obtain ⟨planet', i', hserves'⟩ := exists_serves hh hindex' (hiso.planets.mapsTo hq)
  have hne : potentials ≠ [] := by
    rintro rfl
    exact hserves'.keys_ne_nil hindex' (List.length_eq_zero_iff.mp
      (hdim'.symm.trans hpotentials.symm))
  -- The same potentials are there, so that they are rescaled alike.
  obtain ⟨least, greatest, f, hrescale⟩ := exists_rescaling hne
  have hmultipliers := hrescale (Vector.select e potentials) fun x =>
    Vector.mem_select_iff he.bijective.surjective hpotentials
  have hmultipliers' := hrescale potentials fun _ => Iff.rfl
  rw [reprice_of_ok hlisting hsolve hmultipliers, reprice_of_ok hlisting' hanswer hmultipliers']
  have hvalues : ((Vector.select e potentials).map f).length = m.index.keys.length := by
    rw [List.length_map, Vector.length_select]
    exact hdim
  have hvalues' : (potentials.map f).length = m'.index.keys.length := by
    rw [List.length_map, hpotentials]
    exact hdim'
  obtain ⟨quote, hquote, hquote'⟩ := hmirror.exists_get?_advance hiso hg hh dt hsource hc hq
  obtain ⟨x, hx, hprice⟩ :=
    get?_writePrices_of_serves hg hindex hserves hvalues hquote good.basePrice
  obtain ⟨x', hx', hprice'⟩ :=
    get?_writePrices_of_serves hh hindex' hserves' hvalues' hquote' good.basePrice
  -- Corresponding systems have the same potential, and thus the same multiplier.
  have hsame : x = x' := by
    rw [List.getElem?_map, hmirror.getElem?_select hiso hplaces hpotentials hserves hserves',
      ← List.getElem?_map] at hx
    exact Option.some.inj (hx.symm.trans hx')
  exact ⟨_, hprice, hsame ▸ hprice'⟩

/-- **Repricing keeps the quotes alike.** -/
theorem Mirrors.exists_get?_reprice (dt : ℝ) (hc : c < m.catalog.size)
    (hq : g.planets.contains q = true) :
    ∃ quote, (m.reprice g dt (m.solver.prepare m.matrix) c).1.ledger.get? q c = some quote ∧
      (m'.reprice h dt (m'.solver.prepare m'.matrix) c).1.ledger.get? (π q) c = some quote := by
  rcases m.source?_cases c with hsource | ⟨good, source, hlisting⟩
  · have hsource' : m'.catalog.source? c = none := by rw [hmirror.catalog, hsource]
    rw [reprice_of_source?_eq_none hsource, reprice_of_source?_eq_none hsource']
    exact hmirror.quotes q hq c hc
  · have hlisting' : m'.catalog.listings[c]? = some ⟨good, some source⟩ := by
      rw [hmirror.catalog, hlisting]
    have hsource : m.catalog.source? c = some source := Catalog.source?_of_listing hlisting
    obtain ⟨e, hplaces, he⟩ :=
      hiso.exists_places hmirror.ready.network (hmirror.config ▸ hmirror.ready'.network)
    have hsolve := hmirror.solve_eq_map hiso hg hh dt hsource hc hplaces he
    -- The answer over here is that over there with its entries moved, so that both are errors or
    -- neither is.
    cases hanswer : (m'.solver.prepare m'.matrix).solve (m'.advance h dt c source).1 with
    | error reason =>
      rw [hanswer] at hsolve
      rw [reprice_of_error hlisting hsolve, reprice_of_error hlisting' hanswer]
      exact hmirror.exists_get?_advance hiso hg hh dt hsource hc hq
    | ok potentials =>
      exact hmirror.exists_get?_reprice_of_ok hiso hg hh dt hc hq hlisting hplaces he hanswer

/-! ### Whole runs -/

/-- **A round keeps two markets mirrored.** -/
theorem Mirrors.update (dt : ℝ) :
    Mirrors π g h (m.update g dt).1 (m'.update h dt).1 := by
  have hready := hmirror.ready
  have hready' := hmirror.ready'
  have hconstant' : m'.catalog.IsConstant := hmirror.catalog ▸ hmirror.constant
  have hquotes : ∀ q, g.planets.contains q = true → ∀ c < m.catalog.size, ∃ quote,
      (m.update g dt).1.ledger.get? q c = some quote ∧
        (m'.update h dt).1.ledger.get? (π q) c = some quote := by
    intro q hq c hc
    rw [get?_update hready.phase hready.prepared, get?_update hready'.phase hready'.prepared]
    exact hmirror.exists_get?_reprice hiso hg hh (elapsed dt) hc hq
  -- Nothing but the ledgers has changed.
  obtain ⟨ledger, hledger⟩ :=
    exists_update_fst_of_constant hmirror.constant hready.phase hready.prepared g dt
  obtain ⟨ledger', hledger'⟩ :=
    exists_update_fst_of_constant hconstant' hready'.phase hready'.prepared h dt
  rw [hledger, hledger'] at hquotes ⊢
  exact { hmirror with
    ready := ⟨hready.phase, hready.network, hready.prepared⟩
    ready' := ⟨hready'.phase, hready'.network, hready'.prepared⟩
    quotes := hquotes }

/-- So does any passage of time. -/
theorem Mirrors.perform (tick : Tick ℝ) :
    Mirrors π g h (m.perform (tick.call g)).1 (m'.perform (tick.call h)).1 := by
  cases tick with
  | lasting dt => exact hmirror.update hiso hg hh dt
  | upTo now =>
    show Mirrors π g h (m.updateAt g now).1 (m'.updateAt h now).1
    rw [updateAt_of_ready hmirror.ready.phase, updateAt_of_ready hmirror.ready'.phase,
      hmirror.clock]
    have hstarted : Mirrors π g h { m with lastUpdate? := some now }
        { m' with lastUpdate? := some now } :=
      { hmirror with
        ready := ⟨hmirror.ready.phase, hmirror.ready.network, hmirror.ready.prepared⟩
        ready' := ⟨hmirror.ready'.phase, hmirror.ready'.network, hmirror.ready'.prepared⟩
        clock := rfl }
    exact hstarted.update hiso hg hh _

/-- **Markets that mirror each other stay so**, as long as the same time passes. -/
theorem Mirrors.after (ticks : List (Tick ℝ)) :
    Mirrors π g h (m.after (ticks.map (Tick.call g))) (m'.after (ticks.map (Tick.call h))) := by
  -- Mirrored markets let each tick pass alike, and are mirrored after it.
  induction ticks generalizing m m' with
  | nil => exact hmirror
  | cons tick ticks ih => exact ih (hmirror.perform hiso hg hh tick)

end

/-- Time does not change how many commodities there are. -/
theorem size_after (m : Market ℝ) (g : Galaxy ℝ) (ticks : List (Tick ℝ)) :
    (m.after (ticks.map (Tick.call g))).catalog.size = m.catalog.size := by
  apply after_induction (P := fun m' => m'.catalog.size = m.catalog.size) _ rfl
  intro m' call hcall hm'
  obtain ⟨tick, -, rfl⟩ := List.mem_map.mp hcall
  -- Neither way of letting time pass touches the catalog, whether or not the market is ready.
  cases tick with
  | lasting dt => exact (size_update m' g dt).trans hm'
  | upTo now =>
    show (m'.updateAt g now).1.catalog.size = m.catalog.size
    by_cases hphase : m'.phase = .ready
    · rw [updateAt_of_ready hphase, size_update]
      exact hm'
    · rw [updateAt_of_phase_ne hphase]
      exact hm'

/-- At their opening, nothing is tracked and all prices are base prices. -/
theorem mirrors_launched {catalog : Catalog ℝ} {config : Config ℝ} (solver : Solver ℝ)
    (hconstant : catalog.IsConstant) (htotal : config.aggregation = .systemTotal)
    (hiso : Galaxy.IsIsomorphic σ π g h) {index index' : SystemIndex}
    {matrix matrix' : SparseMatrix ℝ} (hg : g.network config = .ok (index, matrix))
    (hh : h.network config = .ok (index', matrix')) :
    Mirrors π g h (launched catalog config solver g matrix)
      (launched catalog config solver h matrix') := by
  obtain ⟨rfl, -⟩ := Galaxy.dim_network hg
  obtain ⟨rfl, -⟩ := Galaxy.dim_network hh
  constructor
  case ready => exact ⟨rfl, hg, rfl⟩
  case ready' => exact ⟨rfl, hh, rfl⟩
  case constant => exact hconstant
  case total => exact htotal
  case catalog => rfl
  case config => rfl
  case solver => rfl
  case clock => rfl
  -- Fresh rows are made of base prices alone, and both markets have one catalog.
  case quotes =>
    intro q hq c hc
    have hc' : c < catalog.size := hc
    obtain ⟨quote, hquote⟩ := exists_get?_launched hq hc'
    have hbase := (get?_launched hq c).symm.trans hquote
    exact ⟨quote, hquote, (get?_launched (hiso.planets.mapsTo hq) c).trans hbase⟩

end Market

/-- **Prices do not depend on keys.** Two galaxies that edits have made may differ in the keys of
their systems and planets, in the order in which these are listed and in the direction of jumps. A
market that is opened for the one and a market that is opened for the other, from one catalog of
constant sources, one tuning that adds up the planets of a system and one method, then have the same
quotes on corresponding planets, for every commodity and whatever time passes. -/
theorem quotes_isomorphic (edits edits' : List (Edit ℝ)) {σ : SystemKey → SystemKey}
    {π : PlanetKey → PlanetKey}
    (hiso : Galaxy.IsIsomorphic σ π (Galaxy.ofEdits edits) (Galaxy.ofEdits edits'))
    {catalog : Catalog ℝ} {config : Config ℝ} {solver : Solver ℝ} {market : Market ℝ}
    (hmarket : Market.ofConfig catalog config solver = .ok market)
    (hconstant : catalog.IsConstant) (htotal : config.aggregation = .systemTotal)
    (ticks : List (Tick ℝ)) {q : PlanetKey} {planet : Planet}
    (hq : (Galaxy.ofEdits edits).planet? q = some planet) {c : ℕ} (hc : c < catalog.size) :
    ∃ quote,
      (market.after (Tick.calls (.ofEdits edits) ticks)).ledger.get? q c = some quote ∧
      (market.after (Tick.calls (.ofEdits edits') ticks)).ledger.get? (π q) c = some quote := by
  obtain ⟨hvalid, -⟩ := Market.ofConfig_eq_ok_iff.mp hmarket
  obtain ⟨-, hself, -⟩ := Config.validate_eq_ok_iff.mp hvalid
  obtain ⟨matrix, hnetwork⟩ := Galaxy.exists_network_of_pos (.ofEdits edits) hself
  obtain ⟨matrix', hnetwork'⟩ := Galaxy.exists_network_of_pos (.ofEdits edits') hself
  -- The two markets mirror each other when they are opened, and ever since.
  have hg := Galaxy.isOrderly_ofEdits edits
  have hh := Galaxy.isOrderly_ofEdits edits'
  have hopened := (Market.mirrors_launched solver hconstant htotal hiso hnetwork hnetwork').update
    hiso hg hh 0
  rw [← Market.init_eq hmarket hnetwork, ← Market.init_eq hmarket hnetwork'] at hopened
  have hmirror := hopened.after hiso hg hh ticks
  have hsize : ((market.init (.ofEdits edits)).1.after
      (ticks.map (Tick.call (.ofEdits edits)))).catalog.size = catalog.size := by
    rw [Market.size_after, Market.init_eq hmarket hnetwork, Market.size_update]
    rfl
  exact hmirror.quotes q (Slots.contains_iff.mpr ⟨planet, hq⟩) c (hsize.symm ▸ hc)

/-- Two neighbours are isomorphic to the same two in reverse order. -/
theorem isIsomorphic_neighbours :
    Galaxy.IsIsomorphic (Equiv.swap ⟨0, 1⟩ ⟨1, 1⟩) (Equiv.swap ⟨0, 1⟩ ⟨1, 1⟩)
      (Galaxy.ofEdits neighbours) (Galaxy.ofEdits neighboursReversed) := by
  have hsystem : ∀ {key}, (∃ s, (Galaxy.ofEdits neighbours).system? key = some s) →
      key = ⟨0, 1⟩ ∨ key = ⟨1, 1⟩ := by
    intro key hkey
    have hmem : key ∈ [⟨0, 1⟩, ⟨1, 1⟩] := Slots.mem_keys_iff.mpr hkey
    exact List.mem_pair.mp hmem
  have hplanet : ∀ {key}, (∃ p, (Galaxy.ofEdits neighbours).planet? key = some p) →
      key = ⟨0, 1⟩ ∨ key = ⟨1, 1⟩ := by
    intro key hkey
    have hmem : key ∈ [⟨0, 1⟩, ⟨1, 1⟩] := Slots.mem_keys_iff.mpr hkey
    exact List.mem_pair.mp hmem
  -- There are but two keys of either kind, and both maps swap them.
  constructor
  case systems =>
    rw [Slots.setOf_contains, Slots.setOf_contains]
    apply Equiv.swap_bijOn_self
    exact iff_of_true List.mem_cons_self (List.mem_cons_of_mem _ List.mem_cons_self)
  case planets =>
    rw [Slots.setOf_contains, Slots.setOf_contains]
    apply Equiv.swap_bijOn_self
    exact iff_of_true List.mem_cons_self (List.mem_cons_of_mem _ List.mem_cons_self)
  case site =>
    intro a s t hs ht
    rcases hsystem ⟨s, hs⟩ with rfl | rfl
    · rw [Equiv.swap_apply_left] at ht
      cases hs
      cases ht
      exact ⟨rfl, rfl⟩
    · rw [Equiv.swap_apply_right] at ht
      cases hs
      cases ht
      exact ⟨rfl, rfl⟩
  case joined_iff =>
    intro a b ha hb hne
    rcases hsystem (Slots.contains_iff.mp ha) with rfl | rfl <;>
      rcases hsystem (Slots.contains_iff.mp hb) with rfl | rfl
    · exact absurd rfl hne
    · rw [Equiv.swap_apply_left, Equiv.swap_apply_right]
      exact iff_of_true ⟨_, _, rfl, rfl, Or.inl rfl⟩ ⟨_, _, rfl, rfl, Or.inr rfl⟩
    · rw [Equiv.swap_apply_left, Equiv.swap_apply_right]
      exact iff_of_true ⟨_, _, rfl, rfl, Or.inr rfl⟩ ⟨_, _, rfl, rfl, Or.inl rfl⟩
    · exact absurd rfl hne
  case planet =>
    intro q p p' hp hp'
    rcases hplanet ⟨p, hp⟩ with rfl | rfl
    · rw [Equiv.swap_apply_left] at hp'
      cases hp
      cases hp'
      exact ⟨rfl, rfl, rfl⟩
    · rw [Equiv.swap_apply_right] at hp'
      cases hp
      cases hp'
      exact ⟨rfl, rfl, rfl⟩
  case allies => exact fun _ _ => rfl
  case enemies => exact fun _ _ => rfl

/-- The standard goods are made and used at constant rates. -/
theorem isConstant_standard : (Catalog.standard : Catalog ℝ).IsConstant := by
  intro c source hsource
  match c with
  | 0 | 1 | 2 =>
    cases hsource
    exact ⟨_, rfl⟩
  | _ + 3 => cases hsource

/-- Food has the same quote on the first planet of the neighbours and on the second one when they
are reversed. -/
theorem quotes_isomorphic_neighbours : ∃ market quote,
    Market.ofConfig .standard .standard .cholesky = .ok market ∧
      (market.after (Tick.calls (.ofEdits neighbours) [.lasting 2, .upTo 5, .upTo 6])).ledger.get?
        ⟨0, 1⟩ 0 = some quote ∧
      (market.after (Tick.calls (.ofEdits neighboursReversed)
        [.lasting 2, .upTo 5, .upTo 6])).ledger.get? ⟨1, 1⟩ 0 = some quote := by
  let market : Market ℝ := { catalog := .standard, config := .standard, solver := .cholesky }
  have hmarket : Market.ofConfig .standard .standard .cholesky = .ok market :=
    Market.ofConfig_eq_ok_iff.mpr ⟨validate_standard, rfl⟩
  obtain ⟨planet, hplanet⟩ : ∃ planet, (Galaxy.ofEdits neighbours).planet? ⟨0, 1⟩ = some planet :=
    ⟨_, rfl⟩
  obtain ⟨quote, hquote, hquote'⟩ := quotes_isomorphic neighbours neighboursReversed
    isIsomorphic_neighbours hmarket isConstant_standard rfl [.lasting 2, .upTo 5, .upTo 6] hplanet
    (show 0 < Catalog.standard.size by decide)
  rw [Equiv.swap_apply_left] at hquote'
  exact ⟨market, quote, hmarket, hquote, hquote'⟩

end GalaxyMarket
