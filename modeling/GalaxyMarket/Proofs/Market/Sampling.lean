import GalaxyMarket.Proofs.Galaxy.Register
import GalaxyMarket.Proofs.Market.PriceOrder
import GalaxyMarket.Proofs.Market.Trackers

/-!
# When samples are drawn

A source may be random, and then each price depends on how many samples were drawn before and for
whom. An update draws them by a schedule that can be read off the history of the galaxy
(`Market.schedule`): system by system in the order of the index, and in each system the planets that
are inhabited and have a row, in the order in which they were added. The first sample of a commodity
is for the first planet of the schedule, the second for the second, and no other tracker moves
(`Market.Schedules`).

A pass does this wherever it is led (`Pass.source_visitAll_eq`, `Pass.get?_visitAll_stops`); it is
led through the systems of the index, and each of these lists its planets as they were added
(`Galaxy.map_planetsIn_ofEdits`). What comes of the samples has no say in how many are drawn.
`samples_follow_schedule` says besides that no call draws any samples but those of an update.
-/

namespace GalaxyMarket

variable {α : Type}

/-- The galaxy that a call is shown. -/
def Call.galaxy? : Call α → Option (Galaxy α)
  | .init g | .refresh g | .execQueued g | .update g _ | .updateAt g _ => some g
  | .queueRefresh | .destroy | .detach _ => none

theorem Call.galaxy?_of_rebuilds? {call : Call α} {g : Galaxy α}
    (h : call.rebuilds? = some g) : call.galaxy? = some g := by
  cases call with
  | init | refresh | execQueued => exact h
  | _ => cases h

namespace Market

/-- Whether an update stops at a planet when it looks through a system: the planet orbits the
system, is inhabited and has a row. -/
def stopsAt (m : Market α) (g : Galaxy α) (key : SystemKey) (q : PlanetKey) : Bool :=
  (g.planet? q).any (fun planet => planet.system == key && planet.inhabited) && m.ledger.contains q

/-- The planets for which an update draws samples: system by system in the order of the index, and
those of one system in the order in which edits added them. -/
def schedule (m : Market α) (edits : List (Edit α)) : List PlanetKey :=
  m.index.keys.flatMap fun key =>
    (({} : Galaxy α).given edits).filter (m.stopsAt (.ofEdits edits) key)

variable [Scalar α]

/-- An update that draws one sample for each planet of a list, in order. -/
structure Schedules (m : Market α) (g : Galaxy α) (dt : α) (schedule : List PlanetKey) : Prop where
  /-- No planet has two samples. -/
  nodup : schedule.Nodup
  /-- Those that have one are inhabited, have a row and orbit a system that is there and has a
  number. -/
  mem_iff : ∀ q, q ∈ schedule ↔ m.ledger.contains q = true ∧
    ∃ planet i, m.Serves g q planet i ∧ planet.inhabited = true
  /-- Every source is asked once for each of them, -/
  source : ∀ {c source}, m.catalog.source? c = some source →
    (m.update g dt).1.catalog.source? c = some (source.drawMany schedule.length).2
  /-- which a source that counts its samples confirms. -/
  counted : ∀ {c samples drawn}, m.catalog.source? c = some (.feed samples drawn) →
    (m.update g dt).1.catalog.source? c = some (.feed samples (drawn + schedule.length))
  /-- The planet of some number is moved by the sample of that number. -/
  sampled : ∀ {c source}, m.catalog.source? c = some source → ∀ {k : Nat} {q : PlanetKey},
    schedule[k]? = some q → ∃ quote sample, m.ledger.get? q c = some quote ∧
      (source.drawMany schedule.length).1[k]? = some sample ∧
      ((m.update g dt).1.ledger.get? q c).map Quote.trackers =
        some (quote.track m.config (elapsed dt) sample).trackers
  /-- All other trackers stay. -/
  kept : ∀ {q}, q ∉ schedule → ∀ c, ((m.update g dt).1.ledger.get? q c).map Quote.trackers =
    (m.ledger.get? q c).map Quote.trackers
  /-- As many samples are drawn in any galaxy with the same planets in the same order, whatever its
  jumps, nebulae, factions and standings, and with any tuning, solver and matrix, so that it is all
  one whether a solve succeeds. -/
  independent : ∀ (config : Config α) (solver : Solver α) (matrix : SparseMatrix α)
    (prepared : Prepared α) (h : Galaxy α) (time : α), (∀ key, h.listed? key = g.listed? key) →
    (∀ q, h.planet? q = g.planet? q) → ∀ {c source}, m.catalog.source? c = some source →
    (update { m with config, solver, matrix, prepared? := some prepared } h
      time).1.catalog.source? c = some (source.drawMany schedule.length).2

/-- What a call does about the sources of a market `m`, in a run that started from `origin`:
nothing, it takes one away, or it draws from them in an update of a market that is ready. -/
inductive SourceStep (origin m : Market α) (call : Call α) (next : Market α) : Prop
  | kept (hcatalog : next.catalog = m.catalog)
  | detached (commodity : Nat) (hcall : call = .detach commodity)
      (hcatalog : next.catalog = m.catalog.setSource commodity none)
  | updated {start : Market α} {g : Galaxy α} (dt : α) (hstart : origin.Updates start)
      (hready : start.phase = .ready) (hcatalog : start.catalog = m.catalog)
      (hcall : call.galaxy? = some g) (hnext : next = (start.update g dt).1)

variable {m : Market α} {g g₀ : Galaxy α} {prepared : Prepared α} {c : Nat} {source : Source α}
  {edits : List (Edit α)} {dt : α}

/-! ### Counting samples -/

/-- **The source that an update leaves** has been asked at every stop. -/
theorem source?_update (hphase : m.phase = .ready) (hprepared : m.prepared? = some prepared)
    (hsource : m.catalog.source? c = some source) (g : Galaxy α) (dt : α) :
    (m.update g dt).1.catalog.source? c = some (source.drawMany
      (Pass.stops c m.ledger (m.index.keys.flatMap g.planetsIn)).length).2 := by
  obtain ⟨⟨good, _⟩, hlisting, rfl⟩ := Option.bind_eq_some_iff.mp hsource
  -- The other commodities of the round and the prices leave the source alone.
  obtain ⟨ledger, hsettle⟩ := (m.advance g (elapsed dt) c source).2.exists_settle_fst g c
    good.basePrice (prepared.solve (m.advance g (elapsed dt) c source).1)
  rw [update_of_ready hphase hprepared, (alike_round m g (elapsed dt) prepared c).source,
    reprice_eq hlisting, hsettle]
  show (m.catalog.setSource c (some _)).source? c = _
  rw [Catalog.source?_setSource_self, Catalog.basePrices_of_listing hlisting, Option.bind_some,
    Pass.systems_snd, Pass.source_visitAll_eq]

/-- A source that goes through a sequence counts its samples. -/
theorem drawMany_feed (samples : Nat → Sample α) (drawn n : Nat) :
    ((Source.feed samples drawn).drawMany n).2 = .feed samples (drawn + n) := by
  induction n generalizing drawn with
  | zero => rfl
  | succ n ih =>
    refine (ih (drawn + 1)).trans ?_
    rw [Nat.add_right_comm, Nat.add_assoc]

/-! ### The schedule -/

omit [Scalar α] in
/-- **The schedule of an update** is what it meets of inhabited planets with a row. -/
theorem schedule_eq (m : Market α) (edits : List (Edit α)) : m.schedule edits =
    ((m.index.keys.flatMap (Galaxy.ofEdits edits).planetsIn).filter fun visit =>
      visit.2.inhabited && m.ledger.contains visit.1).map Prod.fst := by
  have hg : (Galaxy.ofEdits edits).IsOrderly := Galaxy.isOrderly_ofEdits edits
  unfold schedule
  rw [List.filter_flatMap, List.map_flatMap]
  apply List.flatMap_congr
  intro key _
  have hstop : ∀ visit ∈ (Galaxy.ofEdits edits).planetsIn key,
      (visit.2.inhabited && m.ledger.contains visit.1) =
        m.stopsAt (.ofEdits edits) key visit.1 := by
    rintro ⟨q, planet⟩ hvisit
    obtain ⟨hplanet, hsystem⟩ := hg.mem_planetsIn_iff.mp hvisit
    rw [stopsAt, hplanet, Option.any_some, beq_iff_eq.mpr hsystem, Bool.true_and]
  -- A planet at which it stops orbits the system.
  have hhome : ∀ q ∈ ({} : Galaxy α).given edits, m.stopsAt (.ofEdits edits) key q =
      (m.stopsAt (.ofEdits edits) key q && decide ((Galaxy.ofEdits edits).home? q = some key)) := by
    intro q _
    symm
    rw [Bool.and_eq_left_iff_imp]
    intro hstops
    obtain ⟨planet, hplanet, hstops⟩ :=
      (Option.any_eq_true ..).mp (Bool.and_eq_true_iff.mp hstops).1
    rw [Galaxy.home?_of_planet? hplanet, beq_iff_eq.mp (Bool.and_eq_true_iff.mp hstops).1]
    exact decide_eq_true rfl
  calc (({} : Galaxy α).given edits).filter (m.stopsAt (.ofEdits edits) key)
      = (((Galaxy.ofEdits edits).planetsIn key).map Prod.fst).filter
          (m.stopsAt (.ofEdits edits) key) := by
        rw [Galaxy.map_planetsIn_ofEdits, List.filter_filter, List.filter_congr hhome]
    _ = (((Galaxy.ofEdits edits).planetsIn key).filter fun visit =>
          visit.2.inhabited && m.ledger.contains visit.1).map Prod.fst := by
        rw [List.filter_congr hstop, List.filter_map]
        rfl

omit [Scalar α] in
/-- A pass stops at the planets of the schedule, for every commodity. -/
theorem map_stops (hledger : m.ledger.Fits m.catalog.basePrices)
    (hsource : m.catalog.source? c = some source) (edits : List (Edit α)) :
    (Pass.stops c m.ledger (m.index.keys.flatMap (Galaxy.ofEdits edits).planetsIn)).map Prod.fst =
      m.schedule edits := by
  obtain ⟨⟨good, _⟩, hlisting, -⟩ := Option.bind_eq_some_iff.mp hsource
  have hc : c < m.catalog.basePrices.length :=
    (List.getElem?_eq_some_iff.mp (Catalog.basePrices_of_listing hlisting)).1
  rw [schedule_eq]
  unfold Pass.stops
  simp only [hledger.isSome_get? hc]

omit [Scalar α] in
theorem nodup_schedule (hindex : m.index = .ofGalaxy g₀) (edits : List (Edit α)) :
    (m.schedule edits).Nodup := by
  rw [schedule_eq]
  exact (nodup_visits (Galaxy.isOrderly_ofEdits edits) hindex).sublist
    (List.filter_sublist.map Prod.fst)

omit [Scalar α] in
theorem mem_schedule_iff (hindex : m.index = .ofGalaxy g₀) {q : PlanetKey} :
    q ∈ m.schedule edits ↔ m.ledger.contains q = true ∧
      ∃ planet i, m.Serves (.ofEdits edits) q planet i ∧ planet.inhabited = true := by
  have hvisits : ∀ planet, (q, planet) ∈ m.index.keys.flatMap (Galaxy.ofEdits edits).planetsIn ↔
      ∃ i, m.Serves (.ofEdits edits) q planet i :=
    fun planet => mem_visits_iff (Galaxy.isOrderly_ofEdits edits) hindex
  rw [schedule_eq, List.mem_map]
  constructor
  · rintro ⟨⟨_, planet⟩, hmem, rfl⟩
    obtain ⟨hvisit, hstop⟩ := List.mem_filter.mp hmem
    obtain ⟨hinhabited, hrow⟩ := Bool.and_eq_true_iff.mp hstop
    obtain ⟨i, hserves⟩ := (hvisits planet).mp hvisit
    exact ⟨hrow, planet, i, hserves, hinhabited⟩
  · rintro ⟨hrow, planet, i, hserves, hinhabited⟩
    have hvisit := (hvisits planet).mpr ⟨i, hserves⟩
    exact ⟨(q, planet), List.mem_filter.mpr ⟨hvisit, Bool.and_eq_true_iff.mpr ⟨hinhabited, hrow⟩⟩,
      rfl⟩

/-! ### An update -/

omit [Scalar α] in
/-- What an update meets in a galaxy depends on its planets and their order alone. -/
theorem planetsIn_congr {h : Galaxy α} (hlisted : ∀ key, h.listed? key = g.listed? key)
    (hplanets : ∀ q, h.planet? q = g.planet? q) : h.planetsIn = g.planetsIn := by
  funext key
  rw [Galaxy.planetsIn_eq, Galaxy.planetsIn_eq, hlisted]
  simp only [hplanets]

/-- **An update draws its samples by the schedule.** -/
theorem schedules_of_ready (hphase : m.phase = .ready) (hprepared : m.prepared? = some prepared)
    (hindex : m.index = .ofGalaxy g₀) (hledger : m.ledger.Fits m.catalog.basePrices)
    (edits : List (Edit α)) (dt : α) : m.Schedules (.ofEdits edits) dt (m.schedule edits) := by
  have hvisits := nodup_visits (m := m) (Galaxy.isOrderly_ofEdits edits) hindex
  -- The rows have a quote of every commodity, so that all commodities have the same stops.
  have hlength : ∀ {c source}, m.catalog.source? c = some source →
      (Pass.stops c m.ledger (m.index.keys.flatMap (Galaxy.ofEdits edits).planetsIn)).length =
        (m.schedule edits).length := by
    intro c source hsource
    rw [← map_stops hledger hsource, List.length_map]
  have hsource : ∀ {c source}, m.catalog.source? c = some source →
      (m.update (.ofEdits edits) dt).1.catalog.source? c =
        some (source.drawMany (m.schedule edits).length).2 := by
    intro c source hsource
    rw [source?_update hphase hprepared hsource, hlength hsource]
  constructor
  case nodup => exact nodup_schedule hindex edits
  case mem_iff => exact fun q => mem_schedule_iff hindex
  case source => exact hsource
  case counted =>
    intro c samples drawn hfeed
    rw [hsource hfeed, drawMany_feed]
  case sampled =>
    intro c source hsource k q hq
    rw [← map_stops hledger hsource, List.getElem?_map] at hq
    obtain ⟨stop, hstop, rfl⟩ := Option.map_eq_some_iff.mp hq
    obtain ⟨quote, sample, hquote, hsample, hmoved⟩ :=
      Pass.get?_visitAll_stops m.config (elapsed dt) ⟨source, m.ledger⟩ hvisits hstop
    refine ⟨quote, sample, hquote, hlength hsource ▸ hsample, ?_⟩
    rw [trackers_update hphase hprepared, trackedLedger, hsource, Option.elim_some, advance_ledger,
      hmoved, Option.map_some]
  case kept =>
    intro q hq c
    rw [trackers_update hphase hprepared, trackedLedger]
    cases hsource : m.catalog.source? c with
    | none => rfl
    | some source =>
      rw [Option.elim_some, advance_ledger, Pass.get?_visitAll_of_notMem_stops]
      rwa [map_stops hledger hsource]
  case independent =>
    intro config solver matrix prepared' h time hlisted hplanets c source hsource
    have hother := source?_update
      (m := { m with config, solver, matrix, prepared? := some prepared' }) hphase rfl hsource h
      time
    rw [hother]
    show some
      (source.drawMany (Pass.stops c m.ledger (m.index.keys.flatMap h.planetsIn)).length).2 = _
    rw [planetsIn_congr hlisted hplanets, hlength hsource]

/-! ### Calls -/

theorem sourceStep_of_step {origin next : Market α} {calls : List (Call α)} {call : Call α}
    {answer : Answer α} (hstep : (origin.after calls).Step call next answer) :
    SourceStep origin (origin.after calls) call next := by
  cases hstep with
  | idle | queued | destroyed => exact .kept rfl
  | detached commodity => exact .detached commodity rfl rfl
  | @passed _ g dt clock prepared hcall hphase hprepared round hround =>
    -- The call has set the clock before it updates.
    refine .updated dt (.passed calls clock) hphase rfl ?_ ?_ (g := g)
    · cases hcall <;> rfl
    · rw [← hround]
      exact congrArg Prod.fst (update_of_ready
        (m := { origin.after calls with lastUpdate? := clock }) hphase hprepared).symm
  | @refused _ g e hcall hnetwork =>
    obtain ⟨phase, ledger, -, hopened⟩ := (origin.after calls).exists_opened g
    rw [hopened]
    exact .kept rfl
  | @rebuilt _ g index matrix hcall hnetwork round hround =>
    -- A market that is opened or rebuilt makes its first round, which is an update.
    obtain ⟨phase, ledger, -, hopened⟩ := (origin.after calls).exists_opened g
    have hupdate : (((origin.after calls).opened g).rebuilt g index matrix).update g 0 = round := by
      rw [← hround, update_of_ready rfl rfl, hopened]
      rfl
    refine .updated 0 (.rebuilt calls hnetwork) rfl ?_ (Call.galaxy?_of_rebuilds? hcall) ?_
    · rw [hopened]
      rfl
    · rw [hupdate]

end Market

/-- **Samples are drawn by a schedule**, in every update of every run, in any galaxy that edits can
make, and nowhere else. -/
theorem samples_follow_schedule [Scalar α] {catalog : Catalog α} {config : Config α}
    {solver : Solver α} {m : Market α} (h : Market.ofConfig catalog config solver = .ok m) :
    (∀ {start : Market α}, m.Updates start → start.phase = .ready →
      ∀ (edits : List (Edit α)) (dt : α),
        start.Schedules (.ofEdits edits) dt (start.schedule edits)) ∧
    ∀ (calls : List (Call α)) (call : Call α),
      Market.SourceStep m (m.after calls) call ((m.after calls).perform call).1 := by
  constructor
  · intro start hstart hready edits dt
    obtain ⟨⟨prepared, hprepared⟩, ⟨g₀, hindex⟩, hledger⟩ := hstart.exists_network h hready
    exact Market.schedules_of_ready hready hprepared hindex hledger edits dt
  · intro calls call
    exact Market.sourceStep_of_step (((Market.living_ofConfig h).after calls).step_perform call)

/-! ### At the homestead -/

/-- Two systems with a planet each. The planet that is added first orbits the second system. -/
def homestead : List (Edit Float) :=
  [.addSystem { name := "System 0", nebula := ⟨0, 0⟩ },
    .addSystem { name := "System 1", nebula := ⟨0, 0⟩ },
    .addPlanet ⟨1, 1⟩ { name := "Planet 0", population := 3 },
    .addPlanet ⟨0, 1⟩ { name := "Planet 1", population := 4 }]

/-- Another planet of the first system, and a new system with one. -/
def newcomers : List (Edit Float) :=
  [.addPlanet ⟨0, 1⟩ { name := "Planet 2", population := 5 },
    .addSystem { name := "System 2", nebula := ⟨0, 0⟩ },
    .addPlanet ⟨2, 1⟩ { name := "Planet 3", population := 6 }]

/-- A market that is in line with the homestead looks through the first system first, and stops at
no newcomer. -/
theorem schedule_homestead {m : Market Float} (hindex : m.index = .ofGalaxy (.ofEdits homestead))
    (hrows : ∀ q, m.ledger.contains q = (Galaxy.ofEdits homestead).planets.contains q) :
    m.schedule homestead = [⟨1, 1⟩, ⟨0, 1⟩] ∧
      m.schedule (homestead ++ newcomers) = [⟨1, 1⟩, ⟨0, 1⟩] := by
  unfold Market.schedule Market.stopsAt
  rw [hindex]
  simp only [hrows]
  decide +kernel

/-- The market of wild samples is opened for the homestead by an update of a market that is in line
with it and has drawn nothing. -/
theorem exists_start_homestead : ∃ start : Market Float, wildMarket.Updates start ∧
    start.phase = .ready ∧ start.index = .ofGalaxy (.ofEdits homestead) ∧
    (∀ q, start.ledger.contains q = (Galaxy.ofEdits homestead).planets.contains q) ∧
    (∃ samples, start.catalog.source? 0 = some (.feed samples 0)) ∧
    wildMarket.after [.init (.ofEdits homestead)] = (start.update (.ofEdits homestead) 0).1 := by
  have hok : ((Galaxy.ofEdits homestead).network .standard).isOk = true := by decide +kernel
  generalize Galaxy.ofEdits homestead = g at hok ⊢
  obtain ⟨⟨index, matrix⟩, hnetwork⟩ := exists_eq_ok_of_isOk hok
  obtain rfl : index = .ofGalaxy g := (Galaxy.dim_network hnetwork).1
  have hinit : (wildMarket.init g).1 = _ :=
    congrArg Prod.fst (Market.init_of_ok (m := wildMarket) rfl hnetwork)
  exact ⟨(wildMarket.opened g).rebuilt g (.ofGalaxy g) matrix, .rebuilt [] hnetwork, rfl, rfl,
    fun q => Ledger.contains_sync .., ⟨_, rfl⟩, hinit⟩

/-- A market that counts its samples has drawn two when it was opened at the homestead, and four
after an update that finds newcomers. -/
theorem samples_follow_schedule_homestead :
    ∃ (opened : Market Float) (samples : Nat → Sample Float),
      Market.ofConfig wildGood .standard .cholesky = .ok wildMarket ∧
      wildMarket.after [.init (.ofEdits homestead)] = opened ∧ opened.phase = .ready ∧
      opened.catalog.source? 0 = some (.feed samples 2) ∧
      (opened.update (.ofEdits (homestead ++ newcomers)) 1).1.catalog.source? 0 =
        some (.feed samples 4) := by
  obtain ⟨start, hupdates, hready, hindex, hrows, ⟨samples, hsource⟩, hopened⟩ :=
    exists_start_homestead
  have hfirst := (samples_follow_schedule wildMarket_eq).1 hupdates hready homestead 0
  rw [(schedule_homestead hindex hrows).1] at hfirst
  have htwo := hfirst.counted hsource
  rw [← hopened] at htwo
  -- The update leaves the market in line with the homestead.
  obtain ⟨catalog, ledger, hupdate⟩ := start.exists_update_fst (.ofEdits homestead) 0
  have hready' : (wildMarket.after [.init (.ofEdits homestead)]).phase = .ready := by
    rw [hopened, hupdate]
    exact hready
  have hindex' : (wildMarket.after [.init (.ofEdits homestead)]).index =
      .ofGalaxy (.ofEdits homestead) := by
    rw [hopened, hupdate]
    exact hindex
  have hrows' : ∀ q, (wildMarket.after [.init (.ofEdits homestead)]).ledger.contains q =
      (Galaxy.ofEdits homestead).planets.contains q := by
    intro q
    rw [hopened, Market.sameShape_update.contains_eq, hrows]
  have hnext := (samples_follow_schedule wildMarket_eq).1
    (wildMarket.updates_after [.init (.ofEdits homestead)]) hready' (homestead ++ newcomers) 1
  rw [(schedule_homestead hindex' hrows').2] at hnext
  exact ⟨_, samples, wildMarket_eq, rfl, hready', htwo, hnext.counted htwo⟩

end GalaxyMarket
