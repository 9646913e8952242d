import GalaxyMarket.Proofs.Market.Order
import GalaxyMarket.Proofs.Market.Update

/-!
# Prices follow potentials

When an update reports that it wrote prices of a commodity, it has solved for one potential per
system, and each planet that it serves has the price that the potential of its own system makes
(`Market.Quoted`). The price depends on the potential alone, and a higher potential makes no lower
price (`Market.FollowsPotentials`).

Two things are put together here. Which multiplier prices which planet is what
`Market.exists_price_update` says: positions of potentials lead to systems, and systems to planets.
That the order is kept on the way from a potential to a price is `exists_rescales`, about numbers
alone.
-/

namespace GalaxyMarket

namespace Market

section

variable {α : Type} [Scalar α]

/-- A market as an update finds it in some run of `m`: the time of the last update may have been
written before, and a rebuild ends in an update of what it rebuilt. -/
inductive Updates (m : Market α) : Market α → Prop
  | passed (calls : List (Call α)) (clock : Option α) :
      Updates m { m.after calls with lastUpdate? := clock }
  | rebuilt (calls : List (Call α)) {g : Galaxy α} {index : SystemIndex} {matrix : SparseMatrix α}
      (hnetwork : g.network (m.after calls).config = .ok (index, matrix)) :
      Updates m (((m.after calls).opened g).rebuilt g index matrix)

variable {m start : Market α} {g g₀ : Galaxy α} {dt : α} {prepared : Prepared α} {c : Nat}
  {least greatest : α}

/-- An update may come behind any calls. -/
theorem updates_after (m : Market α) (calls : List (Call α)) : m.Updates (m.after calls) :=
  .passed calls (m.after calls).lastUpdate?

/-- An update finds the index of some galaxy, and a ledger that fits the catalog. -/
theorem Updates.exists_network {catalog : Catalog α} {config : Config α} {solver : Solver α}
    (h : m.Updates start) (hm : ofConfig catalog config solver = .ok m)
    (hready : start.phase = .ready) :
    (∃ prepared, start.prepared? = some prepared) ∧ (∃ g₀ : Galaxy α, start.index = .ofGalaxy g₀) ∧
      start.ledger.Fits start.catalog.basePrices := by
  have hbooks : ∀ calls, (m.after calls).Bookkeeping catalog.basePrices :=
    (living_ofConfig hm).after_induction Bookkeeping.step (bookkeeping_ofConfig hm)
  -- A market is ready behind some calls or just rebuilt; in both cases its index was read off a
  -- galaxy for which a network was made.
  cases h with
  | passed calls clock =>
    have hlife := (living_ofConfig hm).after calls
    obtain ⟨g₀, -, hnetwork⟩ := hlife.network hready
    refine ⟨⟨_, hlife.prepared_of_ready hready⟩, ⟨g₀, (Galaxy.dim_network hnetwork).1⟩, ?_⟩
    show (m.after calls).ledger.Fits (m.after calls).catalog.basePrices
    rw [(hbooks calls).catalog]
    refine (hbooks calls).ledger fun hphase => ?_
    cases hready.symm.trans hphase
  | @rebuilt calls g index matrix hnetwork =>
    have hopened := (hbooks calls).opened g
    refine ⟨⟨_, rfl⟩, ⟨g, (Galaxy.dim_network hnetwork).1⟩, ?_⟩
    show (((m.after calls).opened g).ledger.sync g).Fits
      ((m.after calls).opened g).catalog.basePrices
    rw [hopened.catalog]
    exact (hopened.ledger ((m.after calls).opened_phase_ne g)).sync g

/-- **Prices that are reported as written** were solved for. -/
theorem exists_of_pricesUpdated_mem (hphase : m.phase = .ready)
    (hprepared : m.prepared? = some prepared)
    (h : .pricesUpdated c least greatest ∈ (m.update g dt).2) :
    ∃ good source potentials multipliers,
      m.catalog.listings[c]? = some ⟨good, some source⟩ ∧
      prepared.solve (m.advance g (elapsed dt) c source).1 = .ok potentials ∧
      normalize? potentials = some multipliers := by
  rw [update_snd hphase hprepared] at h
  obtain ⟨d, -, h⟩ := List.mem_flatMap.mp h
  -- One commodity after the other: without a source, with a failed solve and with potentials that
  -- cannot be rescaled there is no such event.
  rcases m.source?_cases d with hsource | ⟨good, source, hlisting⟩
  · rw [reprice_of_source?_eq_none hsource] at h
    cases h
  · cases hsolve : prepared.solve (m.advance g (elapsed dt) d source).1 with
    | error reason =>
      rw [reprice_of_error hlisting hsolve] at h
      cases List.mem_singleton.mp h
    | ok potentials =>
      cases hmultipliers : normalize? potentials with
      | none =>
        rw [reprice_eq hlisting, hsolve, settle, hmultipliers] at h
        cases h
      | some multipliers =>
        rw [reprice_of_ok hlisting hsolve hmultipliers] at h
        cases List.mem_singleton.mp h
        exact ⟨good, source, potentials, multipliers, hlisting, hsolve, hmultipliers⟩

/-- A planet that an update priced: the market `m` serves it, `potential` is the potential of its
system, and `price` its price in the market `after`. -/
structure Quoted (m : Market α) (g : Galaxy α) (c : Nat) (potentials : List α) (after : Market α)
    (q : PlanetKey) (planet : Planet) (potential : α) (price : ℤ) : Prop where
  serves : ∃ i, m.Serves g q planet i ∧ potentials[i]? = some potential
  price_eq : (after.ledger.get? q c).map Quote.price = some price

end

/-- Prices of a commodity that follow the potentials which an update solved for. -/
structure FollowsPotentials (m : Market Float) (g : Galaxy Float) (c : Nat) (basePrice : ℤ)
    (potentials : List Float) (after : Market Float) : Prop where
  /-- Every planet that is served and has a row has a potential and a price. -/
  quoted : ∀ {q planet i}, m.Serves g q planet i → m.ledger.contains q = true →
    ∃ potential price, m.Quoted g c potentials after q planet potential price
  /-- Where the potential is not higher, neither is the price. -/
  mono : ∀ {q q' planet planet' potential potential' price price'},
    m.Quoted g c potentials after q planet potential price →
    m.Quoted g c potentials after q' planet' potential' price' →
    Scalar.le potential potential' = true → price ≤ price'
  /-- Planets of one system have one price. -/
  together : ∀ {q q' planet planet' potential potential' price price'},
    m.Quoted g c potentials after q planet potential price →
    m.Quoted g c potentials after q' planet' potential' price' →
    planet.system = planet'.system → price = price'
  /-- Unless the potentials are level, nothing is asked where they are lowest, -/
  lowest : ¬IsLevel potentials → ∀ {q planet potential price},
    m.Quoted g c potentials after q planet potential price →
    (∀ other ∈ potentials, Scalar.le potential other = true) → price = 0
  /-- and the whole base price where they are highest. -/
  highest : ¬IsLevel potentials → ∀ {q planet potential price},
    m.Quoted g c potentials after q planet potential price →
    (∀ other ∈ potentials, Scalar.le other potential = true) →
    price = scaledPrice basePrice (1 : Float)

variable {m : Market Float} {g g₀ : Galaxy Float} {dt : Float} {prepared : Prepared Float} {c : Nat}
  {basePrice : ℤ} {potentials : List Float} {after : Market Float} {q : PlanetKey} {planet : Planet}
  {potential : Float} {price : ℤ}

/-- The potential of a planet is among those that were solved for. -/
theorem Quoted.mem (h : m.Quoted g c potentials after q planet potential price) :
    potential ∈ potentials := by
  obtain ⟨i, -, hpotential⟩ := h.serves
  exact List.mem_of_getElem? hpotential

/-- Prices that are made of potentials by way of multipliers in their order follow them. -/
theorem followsPotentials_of_units {units : Float → ℕ} {multipliers : Multipliers Float}
    (hbase : 0 ≤ basePrice) (hunits : Rescales potentials multipliers units)
    (hquoted : ∀ {q planet i}, m.Serves g q planet i → m.ledger.contains q = true →
      ∃ potential price, m.Quoted g c potentials after q planet potential price)
    (hprice : ∀ {q planet potential price}, m.Quoted g c potentials after q planet potential price →
      price = unitsPrice basePrice (units potential)) :
    m.FollowsPotentials g c basePrice potentials after where
  quoted := hquoted
  mono h h' hle := by
    rw [hprice h, hprice h']
    exact unitsPrice_mono hbase (hunits.mono h.mem h'.mem hle)
  together h h' hsystem := by
    -- One system has one number, and so one potential.
    obtain ⟨i, hserves, hpotential⟩ := h.serves
    obtain ⟨j, hserves', hpotential'⟩ := h'.serves
    have hposition := hserves.position?
    rw [hsystem, hserves'.position?] at hposition
    obtain rfl := Option.some.inj hposition
    obtain rfl := Option.some.inj (hpotential.symm.trans hpotential')
    rw [hprice h, hprice h']
  lowest hlevel _ _ _ _ h hlowest := by
    rw [hprice h, (hunits.units_eq hlevel h.mem).1 hlowest, unitsPrice_zero]
  highest hlevel _ _ _ _ h hhighest := by
    rw [hprice h, (hunits.units_eq hlevel h.mem).2 hhighest, unitsPrice_one]

/-- **The prices of one commodity** follow the potentials that were solved for. -/
theorem followsPotentials_update (hphase : m.phase = .ready)
    (hprepared : m.prepared? = some prepared) (hindex : m.index = .ofGalaxy g₀)
    (hledger : m.ledger.Fits m.catalog.basePrices) (hg : g.IsOrderly) {good : Commodity}
    {source : Source Float} {multipliers : Multipliers Float}
    (hlisting : m.catalog.listings[c]? = some ⟨good, some source⟩)
    (hsolve : prepared.solve (m.advance g (elapsed dt) c source).1 = .ok potentials)
    (hmultipliers : normalize? potentials = some multipliers) (hbase : 0 ≤ good.basePrice) :
    m.FollowsPotentials g c good.basePrice potentials (m.update g dt).1 := by
  obtain ⟨-, -, -, hfinite⟩ := Prepared.solve_eq_ok_iff.mp hsolve
  obtain ⟨units, hunits⟩ := exists_rescales (List.all_eq_true.mp hfinite) hmultipliers
  have hpotentials : potentials.length = m.index.keys.length :=
    (Prepared.length_of_solve hsolve).trans (Pass.length_systems ..)
  have hvalues : multipliers.values.length = m.index.keys.length :=
    (values_normalize? hmultipliers).1.trans hpotentials
  -- What the update did to the row of a planet that is served.
  have hrow : ∀ {q planet i}, m.Serves g q planet i → m.ledger.contains q = true →
      ∃ quote x, (m.update g dt).1.ledger.get? q c = some quote ∧
        multipliers.values[i]? = some x ∧ quote.price = scaledPrice good.basePrice x :=
    fun hserves => exists_price_update hphase hprepared hindex hledger hg hlisting hsolve
      hmultipliers hvalues hserves
  refine followsPotentials_of_units hbase hunits ?_ ?_
  · intro q planet i hserves hcontains
    obtain ⟨quote, -, hquote, -, -⟩ := hrow hserves hcontains
    have hi : i < potentials.length :=
      hpotentials ▸ (List.getElem?_eq_some_iff.mp (hserves.getElem?_keys hindex)).1
    exact ⟨potentials[i], quote.price, ⟨i, hserves, List.getElem?_eq_getElem hi⟩,
      congrArg (Option.map Quote.price) hquote⟩
  · intro q planet potential price hquoted
    obtain ⟨i, hserves, hpotential⟩ := hquoted.serves
    -- What has a price has a row, and had it before.
    obtain ⟨quote, hquote, rfl⟩ := Option.map_eq_some_iff.mp hquoted.price_eq
    obtain ⟨quote, hbefore⟩ := (sameShape_update (m := m)).symm.exists_get? hquote
    obtain ⟨row, hrow', -⟩ := Option.bind_eq_some_iff.mp hbefore
    obtain ⟨quote, x, hquote', hx, hprice⟩ :=
      hrow hserves (Option.isSome_iff_exists.mpr ⟨row, hrow'⟩)
    obtain rfl := Option.some.inj (hquote.symm.trans hquote')
    rw [hprice, scaledPrice_of_hasValue (hunits.hasValue hpotential hx)]

end Market

/-- **Prices follow potentials.** Whenever an update reports that it wrote prices of a commodity
whose base price is not negative, at any point of any run and for any galaxy, it has solved for
potentials, and the prices that it wrote follow them. -/
theorem prices_follow_potentials {catalog : Catalog Float} {config : Config Float}
    {solver : Solver Float} {m start : Market Float}
    (h : Market.ofConfig catalog config solver = .ok m)
    (hstart : m.Updates start) (hready : start.phase = .ready) {edits : List (Edit Float)}
    {dt least greatest : Float} {c : Nat}
    (hevent : .pricesUpdated c least greatest ∈ (start.update (.ofEdits edits) dt).2) :
    ∃ prepared good source potentials, start.prepared? = some prepared ∧
      start.catalog.listings[c]? = some ⟨good, some source⟩ ∧
      prepared.solve (start.advance (.ofEdits edits) (Market.elapsed dt) c source).1 =
        .ok potentials ∧
      (0 ≤ good.basePrice → start.FollowsPotentials (.ofEdits edits) c good.basePrice potentials
        (start.update (.ofEdits edits) dt).1) := by
  obtain ⟨⟨prepared, hprepared⟩, ⟨g₀, hindex⟩, hledger⟩ := hstart.exists_network h hready
  obtain ⟨good, source, potentials, multipliers, hlisting, hsolve, hmultipliers⟩ :=
    Market.exists_of_pricesUpdated_mem hready hprepared hevent
  exact ⟨prepared, good, source, potentials, hprepared, hlisting, hsolve,
    Market.followsPotentials_update hready hprepared hindex hledger (Galaxy.isOrderly_ofEdits edits)
      hlisting hsolve hmultipliers⟩

/-- The market of the outpost when it has just been opened, before any price is written. -/
def outpostMarket : Market Float :=
  (crownMarket.opened outpost).rebuilt outpost (.ofGalaxy outpost) outpostMatrix

/-- The first update at the outpost writes prices. -/
theorem exists_pricesUpdated_outpost : ∃ least greatest,
    .pricesUpdated 0 least greatest ∈ (outpostMarket.update outpost 0).2 := by
  have hany : ((outpostMarket.update outpost 0).2.any fun
    | .pricesUpdated 0 _ _ => true
    | _ => false) = true := by decide +kernel
  obtain ⟨event, hevent, hmatch⟩ := List.any_eq_true.mp hany
  split at hmatch
  · exact ⟨_, _, hevent⟩
  · cases hmatch

/-- The first potentials at the outpost are not level, and the first of them is the highest: the
other system has no planet that draws anything in. -/
theorem potentials_outpost {potentials : List Float}
    (hsolve : (Solver.cholesky.prepare outpostMatrix).solve
      (outpostMarket.advance outpost (Market.elapsed 0) 0 (.constant ⟨0, 0⟩)).1 = .ok potentials) :
    ¬IsLevel potentials ∧ ∃ potential, potentials[0]? = some potential ∧
      ∀ other ∈ potentials, Scalar.le other potential = true := by
  have hcheck : ((Solver.cholesky.prepare outpostMatrix).solve
      (outpostMarket.advance outpost (Market.elapsed 0) 0 (.constant ⟨0, 0⟩)).1).toOption.any
      (fun potentials => potentials[0]?.any (fun x => potentials.all (Scalar.le · x)) &&
        (extent? potentials).any fun range => !isFlat range.1 range.2) = true := by decide +kernel
  obtain ⟨solved, hsolved, hcheck⟩ := (Option.any_eq_true ..).mp hcheck
  obtain rfl : potentials = solved :=
    Option.some.inj ((congrArg Except.toOption hsolve).symm.trans hsolved)
  obtain ⟨hhighest, hextent⟩ := Bool.and_eq_true_iff.mp hcheck
  obtain ⟨potential, hpotential, hhighest⟩ := (Option.any_eq_true ..).mp hhighest
  obtain ⟨⟨lo, hi⟩, hrange, hflat⟩ := (Option.any_eq_true ..).mp hextent
  refine ⟨fun hlevel => ?_, potential, hpotential, List.all_eq_true.mp hhighest⟩
  rw [hlevel lo hi hrange] at hflat
  cases hflat

/-- The first prices at the outpost follow the first potentials. The planet orbits the system where
these are highest, so that it is asked the whole base price, as a double. -/
theorem prices_follow_potentials_outpost :
    ∃ potentials planet potential,
      outpostMarket.Quoted outpost 0 potentials (outpostMarket.update outpost 0).1 ⟨0, 1⟩ planet
        potential (scaledPrice 9007199254740995 (1 : Float)) ∧
      ¬IsLevel potentials ∧ outpostMarket.FollowsPotentials outpost 0 9007199254740995 potentials
        (outpostMarket.update outpost 0).1 := by
  obtain ⟨least, greatest, hevent⟩ := exists_pricesUpdated_outpost
  obtain ⟨prepared, good, source, potentials, hprepared, hlisting, hsolve, hfollows⟩ :=
    prices_follow_potentials crownMarket_eq (.rebuilt [] network_outpost) rfl hevent
  -- There is but one matrix, one good and one source.
  obtain ⟨rfl, hsource⟩ := Listing.mk.inj (Option.some.inj hlisting)
  obtain rfl := Option.some.inj hsource
  obtain rfl := Option.some.inj hprepared
  replace hfollows : outpostMarket.FollowsPotentials outpost 0 9007199254740995 potentials
      (outpostMarket.update outpost 0).1 := hfollows (by decide)
  obtain ⟨hlevel, potential, hpotential, hhighest⟩ := potentials_outpost hsolve
  have hserves : outpostMarket.Serves outpost ⟨0, 1⟩
      { name := "Planet 0", population := 1, system := ⟨0, 1⟩ } 0 := ⟨rfl, rfl, rfl⟩
  obtain ⟨potential', price, hquoted⟩ := hfollows.quoted hserves (by decide +kernel)
  obtain ⟨i, hserves', hpotential'⟩ := hquoted.serves
  obtain rfl : 0 = i := Option.some.inj (hserves.position?.symm.trans hserves'.position?)
  obtain rfl := Option.some.inj (hpotential.symm.trans hpotential')
  have hprice := hfollows.highest hlevel hquoted hhighest
  rw [hprice] at hquoted
  exact ⟨potentials, _, potential, hquoted, hlevel, hfollows⟩

end GalaxyMarket
