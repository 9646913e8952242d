import GalaxyMarket.Proofs.Market.TrackerRange
import GalaxyMarket.Proofs.Market.Trackers

/-!
# When no time passes

With exact numbers a pass in which no time passes draws its samples in vain: no tracker moves
(`Ledger.Tracks.atRest`), and the intensities are read off the ledger as it stands
(`Ledger.intensities`, `Pass.systems_idle`). The intensities of any other pass are the same reading
of the ledger that it leaves, as long as it meets no planet twice (`Pass.systems_fst`).

So an update in which no time passes, straight after any other in the same galaxy, has the solver
answer the same questions once more. It writes the prices that are there and reports what was
reported, also where a solve fails and where the galaxy was edited since the matrix was made
(`update_settled`).
-/

namespace GalaxyMarket

variable {α : Type} [Scalar α]

/-! ### Quotes at rest -/

/-- A quote that no sample moves while no time passes. -/
def Quote.AtRest (config : Config α) (quote : Quote α) : Prop :=
  ∀ sample, quote.track config 0 sample = quote

namespace Ledger

/-- A ledger in which every quote is at rest. -/
def AtRest (config : Config α) (ledger : Ledger α) : Prop :=
  ∀ q c quote, ledger.get? q c = some quote → quote.AtRest config

/-- Being at rest is a matter of quotes alone. -/
theorem AtRest.congr {config : Config α} {ledger ledger' : Ledger α} (h : ledger.AtRest config)
    (heq : ∀ q c, ledger'.get? q c = ledger.get? q c) : ledger'.AtRest config :=
  fun q c quote hquote => h q c quote ((heq q c).symm.trans hquote)

/-- Trackers that are not negative stay where they are. -/
theorem Tracks.atRest {ledger : Ledger ℝ} (h : ledger.Tracks (0 ≤ ·)) (config : Config ℝ) :
    ledger.AtRest config := by
  intro q c quote hquote sample
  obtain ⟨hsupply, hdemand⟩ := h q c quote hquote
  unfold Quote.track
  rw [track_idle _ _ hsupply, track_idle _ _ hdemand]

/-! ### Reading intensities off a ledger -/

omit [Scalar α] in
/-- The quotes of the inhabited ones of some planets, each with the population behind it. -/
def quotes (ledger : Ledger α) (c : Nat) (visits : List (PlanetKey × Planet)) :
    List (Nat × Quote α) :=
  visits.filterMap fun visit =>
    if visit.2.inhabited then (ledger.get? visit.1 c).map (visit.2.population, ·) else none

section

omit [Scalar α]

variable {ledger ledger' : Ledger α} {c : Nat} {visit : PlanetKey × Planet}
  {visits : List (PlanetKey × Planet)}

/-- A planet without inhabitants or without a quote is left out. -/
theorem quotes_cons_of_none
    (h : visit.2.inhabited = true → ledger.get? visit.1 c = none) :
    ledger.quotes c (visit :: visits) = ledger.quotes c visits := by
  refine List.filterMap_cons_none ?_
  split
  · next hinhabited => rw [h hinhabited, Option.map_none]
  · rfl

/-- Any other is read with its population. -/
theorem quotes_cons_of_some {quote : Quote α} (hinhabited : visit.2.inhabited = true)
    (hquote : ledger.get? visit.1 c = some quote) :
    ledger.quotes c (visit :: visits) =
      (visit.2.population, quote) :: ledger.quotes c visits := by
  refine List.filterMap_cons_some ?_
  rw [if_pos hinhabited, hquote, Option.map_some]

/-- Only quotes of these planets are read. -/
theorem quotes_congr (h : ∀ visit ∈ visits, ledger'.get? visit.1 c = ledger.get? visit.1 c) :
    ledger'.quotes c visits = ledger.quotes c visits :=
  List.filterMap_congr fun visit hvisit => by rw [h visit hvisit]

/-- Of the quotes only the trackers are read. -/
theorem map_trackers_quotes
    (h : ∀ q, (ledger'.get? q c).map Quote.trackers = (ledger.get? q c).map Quote.trackers) :
    (ledger'.quotes c visits).map (Prod.map id Quote.trackers) =
      (ledger.quotes c visits).map (Prod.map id Quote.trackers) := by
  unfold quotes
  rw [List.map_filterMap, List.map_filterMap]
  refine List.filterMap_congr fun visit _ => ?_
  split
  · have htrackers := congrArg (Option.map (visit.2.population, ·)) (h visit.1)
    simpa [Function.comp_def] using htrackers
  · rfl

end

end Ledger

section

variable {config : Config α} {quotes quotes' : List (Nat × Quote α)}

/-- An intensity by the last planet, in case only that counts, and by all of them. -/
theorem intensityOf_of_getLast? {last : Nat × Quote α} (h : quotes.getLast? = some last) :
    intensityOf config quotes =
      Scalar.pow config.powerBase ((match config.aggregation with
        | .systemTotal => totalExcess quotes
        | .lastPlanet => last.2.demand - last.2.supply) / config.productionModifier) := by
  unfold intensityOf
  split
  · next hnone => cases h.symm.trans hnone
  · next hsome =>
    cases h.symm.trans hsome
    rfl

/-- The excess of demand depends on populations and trackers. -/
theorem totalExcess_congr
    (h : quotes'.map (Prod.map id Quote.trackers) = quotes.map (Prod.map id Quote.trackers)) :
    totalExcess quotes' = totalExcess quotes := by
  let weight (population : Nat) : α := Scalar.sqrt (Scalar.ofInt population)
  have hdemand := congrArg (List.map fun e => e.2.2 * weight e.1) h
  have hsupply := congrArg (List.map fun e => e.2.1 * weight e.1) h
  rw [List.map_map, List.map_map] at hdemand hsupply
  exact congrArg₂ (fun xs ys => Scalar.sum xs - Scalar.sum ys) hdemand hsupply

/-- An intensity depends on populations and trackers, not on prices. -/
theorem intensityOf_congr
    (h : quotes'.map (Prod.map id Quote.trackers) = quotes.map (Prod.map id Quote.trackers)) :
    intensityOf config quotes' = intensityOf config quotes := by
  have hlast := congrArg List.getLast? h
  rw [List.getLast?_map, List.getLast?_map] at hlast
  cases hquotes : quotes.getLast? with
  | none =>
    rw [hquotes, Option.map_none, Option.map_eq_none_iff] at hlast
    rw [intensityOf, intensityOf, hlast, hquotes]
  | some last =>
    rw [hquotes] at hlast
    obtain ⟨last', hquotes', heq⟩ := Option.map_eq_some_iff.mp hlast
    obtain ⟨hsupply, hdemand⟩ := Prod.mk.inj (Prod.mk.inj heq).2
    rw [intensityOf_of_getLast? hquotes', intensityOf_of_getLast? hquotes, totalExcess_congr h,
      hsupply, hdemand]

end

/-- The intensities that the quotes of a ledger amount to, system by system. -/
def Ledger.intensities (config : Config α) (g : Galaxy α) (c : Nat) (keys : List SystemKey)
    (ledger : Ledger α) : List α :=
  keys.map fun key => intensityOf config (ledger.quotes c (g.planetsIn key))

/-- So do the intensities of all systems. -/
theorem Ledger.intensities_congr (config : Config α) (g : Galaxy α) {c : Nat}
    (keys : List SystemKey) {ledger ledger' : Ledger α}
    (h : ∀ q, (ledger'.get? q c).map Quote.trackers = (ledger.get? q c).map Quote.trackers) :
    ledger'.intensities config g c keys = ledger.intensities config g c keys :=
  List.map_congr_left fun _ _ => intensityOf_congr (map_trackers_quotes h)

/-! ### Passes -/

namespace Pass

variable {config : Config α} {dt : α} {g : Galaxy α} {c : Nat} {pass : Pass α}

/-- **A pass in which no time passes** reads the quotes and leaves them. -/
theorem visitAll_idle (hrest : pass.ledger.AtRest config) (visits : List (PlanetKey × Planet)) :
    (pass.visitAll config 0 c visits).1 = pass.ledger.quotes c visits ∧
      ∀ q d, (pass.visitAll config 0 c visits).2.ledger.get? q d = pass.ledger.get? q d := by
  induction visits generalizing pass with
  | nil => exact ⟨rfl, fun _ _ => rfl⟩
  | cons visit visits ih =>
    rcases visit_cases config 0 c pass visit with
      ⟨hvisit, hnone⟩ | ⟨quote, hinhabited, hquote, hvisit⟩
    · rw [visitAll_of_none hvisit, Ledger.quotes_cons_of_none hnone]
      exact ih hrest
    · -- What is written is the quote that was there.
      have hidle : quote.track config 0 pass.source.draw.1 = quote := hrest _ _ _ hquote _
      have hsame : ∀ q d, (pass.moved config 0 c visit.1 quote).ledger.get? q d =
          pass.ledger.get? q d := by
        intro q d
        rw [get?_moved hquote, hidle]
        split
        · next heq => rw [heq.1, heq.2, hquote]
        · rfl
      obtain ⟨hfirst, hrest'⟩ := ih (hrest.congr hsame)
      rw [visitAll_of_some hvisit, Ledger.quotes_cons_of_some hinhabited hquote, hidle]
      refine ⟨congrArg (List.cons _) ?_, fun q d => (hrest' q d).trans (hsame q d)⟩
      exact hfirst.trans (Ledger.quotes_congr fun visit _ => hsame visit.1 c)

/-- A pass that meets no planet twice returns the quotes that it leaves. -/
theorem visitAll_fst {visits : List (PlanetKey × Planet)}
    (hnodup : (visits.map Prod.fst).Nodup) : (pass.visitAll config dt c visits).1 =
      (pass.visitAll config dt c visits).2.ledger.quotes c visits := by
  induction visits generalizing pass with
  | nil => rfl
  | cons visit visits ih =>
    obtain ⟨hfresh, hnodup⟩ := List.nodup_cons.mp hnodup
    -- The planet is not met again, so that its quote is the one that the first visit leaves.
    have hlater : ¬ (c = c ∧ ∃ planet, (visit.1, planet) ∈ visits ∧ planet.inhabited = true) :=
      fun ⟨_, _, hagain, _⟩ => hfresh (List.mem_map.mpr ⟨_, hagain, rfl⟩)
    rcases visit_cases config dt c pass visit with
      ⟨hvisit, hnone⟩ | ⟨quote, hinhabited, hquote, hvisit⟩
    · rw [visitAll_of_none hvisit, Ledger.quotes_cons_of_none]
      · exact ih hnodup
      · intro hinhabited
        rw [get?_visitAll_of_not hlater]
        exact hnone hinhabited
    · have hleft : (visitAll config dt c (pass.moved config dt c visit.1 quote)
          visits).2.ledger.get? visit.1 c = some (quote.track config dt pass.source.draw.1) := by
        rw [get?_visitAll_of_not hlater, get?_moved hquote, if_pos ⟨rfl, rfl⟩]
      rw [visitAll_of_some hvisit, Ledger.quotes_cons_of_some hinhabited hleft, ih hnodup]

/-- The same of system after system. -/
theorem systems_idle (pass : Pass α) (hrest : pass.ledger.AtRest config) (keys : List SystemKey) :
    (pass.systems config 0 g c keys).1 = pass.ledger.intensities config g c keys ∧
      ∀ q d, (pass.systems config 0 g c keys).2.ledger.get? q d = pass.ledger.get? q d := by
  induction keys generalizing pass with
  | nil => exact ⟨rfl, fun _ _ => rfl⟩
  | cons key keys ih =>
    obtain ⟨hquotes, hsame⟩ := visitAll_idle (c := c) hrest (g.planetsIn key)
    obtain ⟨hlater, hsame'⟩ := ih _ (hrest.congr hsame)
    refine ⟨congrArg₂ List.cons (congrArg (intensityOf config) hquotes) ?_,
      fun q d => (hsame' q d).trans (hsame q d)⟩
    exact hlater.trans (Ledger.intensities_congr config g keys fun q => by rw [hsame])

/-- **The intensities of a pass** are read off the ledger that it leaves. -/
theorem systems_fst {keys : List SystemKey}
    (hnodup : ((keys.flatMap g.planetsIn).map Prod.fst).Nodup) :
    (pass.systems config dt g c keys).1 =
      (pass.systems config dt g c keys).2.ledger.intensities config g c keys := by
  induction keys generalizing pass with
  | nil => rfl
  | cons key keys ih =>
    rw [List.flatMap_cons, List.map_append] at hnodup
    obtain ⟨hfirst, hrest, hapart⟩ := List.nodup_append.mp hnodup
    let next : Pass α := (pass.visitAll config dt c (g.planetsIn key)).2
    -- No planet of the first system is met in a later one.
    have hkept : (next.systems config dt g c keys).2.ledger.quotes c (g.planetsIn key) =
        next.ledger.quotes c (g.planetsIn key) := by
      refine Ledger.quotes_congr fun visit hvisit => ?_
      rw [systems_snd, get?_visitAll_of_not]
      rintro ⟨-, planet, hagain, -⟩
      exact hapart _ (List.mem_map_of_mem hvisit) _ (List.mem_map_of_mem hagain) rfl
    refine congrArg₂ List.cons (congrArg (intensityOf config) ?_) (ih hrest)
    exact (visitAll_fst hfirst).trans hkept.symm

end Pass

namespace Market

variable {m m' : Market α} {g : Galaxy α} {dt : α} {c : Nat} {source : Source α}

/-- With exact numbers this is what a commodity's turn begins with. -/
theorem advance_idle (hrest : m.ledger.AtRest m.config) (g : Galaxy α) (c : Nat)
    (source : Source α) :
    (m.advance g 0 c source).1 = m.ledger.intensities m.config g c m.index.keys ∧
      ∀ q d, (m.advance g 0 c source).2.ledger.get? q d = m.ledger.get? q d :=
  Pass.systems_idle { source, ledger := m.ledger } hrest m.index.keys

/-- **Repricing when no time passes** solves for the intensities as they stand. -/
theorem reprice_of_atRest {prepared : Prepared α} {good : Commodity}
    (hrest : m.ledger.AtRest m.config)
    (hlisting : m.catalog.listings[c]? = some ⟨good, some source⟩) :
    m.reprice g 0 prepared c = (m.advance g 0 c source).2.settle g c good.basePrice
      (prepared.solve (m.ledger.intensities m.config g c m.index.keys)) := by
  rw [reprice_eq hlisting, (advance_idle hrest g c source).1]

/-- The intensities that are solved for can be read off after the trackers have moved. -/
theorem advance_fst (hnodup : ((m.index.keys.flatMap g.planetsIn).map Prod.fst).Nodup) :
    (m.advance g dt c source).1 =
      (m.advance g dt c source).2.ledger.intensities m.config g c m.index.keys :=
  Pass.systems_fst hnodup

/-! ### The same again -/

/-- Without potentials nothing is written. -/
theorem settle_of_none {potentials : List α} (h : normalize? potentials = none) (m : Market α)
    (g : Galaxy α) (c : Nat) (basePrice : Int) :
    m.settle g c basePrice (.ok potentials) = (m, []) := by
  rw [settle, h]

/-- Otherwise prices are written by the multipliers, whose range is reported. -/
theorem settle_of_some {potentials : List α} {multipliers : Multipliers α}
    (h : normalize? potentials = some multipliers) (m : Market α) (g : Galaxy α) (c : Nat)
    (basePrice : Int) : m.settle g c basePrice (.ok potentials) =
      ({ m with ledger := m.ledger.writePrices g m.index c basePrice multipliers.values },
        [.pricesUpdated c multipliers.least multipliers.greatest]) := by
  rw [settle, h]

/-- What is reported of a commodity depends on the answer of the solve alone. -/
theorem settle_snd (m m' : Market α) (g : Galaxy α) (c : Nat) (basePrice : Int)
    (answer : Except SolveError (List α)) :
    (m'.settle g c basePrice answer).2 = (m.settle g c basePrice answer).2 := by
  cases answer with
  | error reason => rfl
  | ok potentials =>
    cases hmultipliers : normalize? potentials with
    | none => rw [settle_of_none hmultipliers, settle_of_none hmultipliers]
    | some multipliers => rw [settle_of_some hmultipliers, settle_of_some hmultipliers]

/-- Prices that were written once stay when they are written again. -/
theorem get?_settle_again (m m' : Market α) {answer : Except SolveError (List α)} {basePrice : Int}
    (hindex : m'.index = m.index)
    (h : ∀ q, m'.ledger.get? q c = (m.settle g c basePrice answer).1.ledger.get? q c)
    (q : PlanetKey) :
    (m'.settle g c basePrice answer).1.ledger.get? q c = m'.ledger.get? q c := by
  cases answer with
  | error reason => rfl
  | ok potentials =>
    cases hmultipliers : normalize? potentials with
    | none => rw [settle_of_none hmultipliers]
    | some multipliers =>
      rw [settle_of_some hmultipliers] at h ⊢
      have hfirst := (h q).trans (Ledger.get?_foldl_priceNext _)
      refine (Ledger.get?_foldl_priceNext _).trans ?_
      rw [hfirst, hindex, Option.map_map]
      refine congrArg (Option.map · _) (funext fun quote => ?_)
      -- The last system that lists the planet is the same one, or there is none both times.
      cases Ledger.pricedBy? g q (m.index.keys.zip multipliers.values) <;> rfl

/-- A commodity that has a source keeps one. -/
theorem exists_source?_advance {good : Commodity}
    (hlisting : m.catalog.listings[c]? = some ⟨good, some source⟩) :
    ∃ drawn, (m.advance g dt c source).2.catalog.source? c = some drawn := by
  rw [← Option.isSome_iff_exists]
  show ((m.catalog.setSource c _).source? c).isSome = true
  rw [Catalog.source?_setSource_self, Catalog.basePrices_of_listing hlisting]
  rfl

/-- **Repricing once more**, in a market whose quotes are at rest, when no time has passed. -/
theorem reprice_again {prepared : Prepared α}
    (hnodup : ((m.index.keys.flatMap g.planetsIn).map Prod.fst).Nodup)
    (halike : (m.reprice g dt prepared c).1.Alike c m') (hrest : m'.ledger.AtRest m'.config) :
    (m'.reprice g 0 prepared c).2 = (m.reprice g dt prepared c).2 ∧
      ∀ q, (m'.reprice g 0 prepared c).1.ledger.get? q c = m'.ledger.get? q c := by
  rcases m.source?_cases c with hsource | ⟨good, source, hlisting⟩
  · rw [reprice_of_source?_eq_none hsource] at halike
    have hsource' : m'.catalog.source? c = none := halike.source.trans hsource
    rw [reprice_of_source?_eq_none hsource, reprice_of_source?_eq_none hsource']
    exact ⟨rfl, fun _ => rfl⟩
  · rw [reprice_eq hlisting] at halike ⊢
    generalize hanswer : prepared.solve (m.advance g dt c source).1 = answer at halike ⊢
    let moved : Market α := (m.advance g dt c source).2
    obtain ⟨ledger, hsettle⟩ := moved.exists_settle_fst g c good.basePrice answer
    have hprice : m'.catalog.basePrices[c]? = some good.basePrice := by
      rw [halike.basePrice, hsettle]
      refine (congrArg (·[c]?) (Catalog.basePrices_setSource ..)).trans ?_
      exact Catalog.basePrices_of_listing hlisting
    -- The source is there, though perhaps not in the same state.
    obtain ⟨drawn, hdrawn⟩ : ∃ drawn, m'.catalog.source? c = some drawn := by
      rw [halike.source, hsettle]
      exact exists_source?_advance hlisting
    obtain ⟨good', hlisting', heq⟩ := Catalog.exists_listing hprice hdrawn
    have hsame := (advance_idle hrest g c drawn).2
    have hconfig : m'.config = m.config := by
      rw [halike.config, hsettle]
      rfl
    have hindex : m'.index = m.index := by
      rw [halike.index, hsettle]
      rfl
    -- Both times the intensities are those of the trackers that the first pass left.
    have hintensities : m'.ledger.intensities m'.config g c m'.index.keys =
        (m.advance g dt c source).1 := by
      rw [advance_fst hnodup, hconfig, hindex]
      refine Ledger.intensities_congr _ _ _ fun q => ?_
      rw [halike.column]
      exact trackers_settle ..
    rw [reprice_of_atRest hrest hlisting', heq, hintensities, hanswer]
    refine ⟨settle_snd .., fun q => ?_⟩
    have hwritten : ∀ q, (m'.advance g 0 c drawn).2.ledger.get? q c =
        (moved.settle g c good.basePrice answer).1.ledger.get? q c :=
      fun q => (hsame q c).trans (halike.column q)
    exact (get?_settle_again moved (m'.advance g 0 c drawn).2 hindex hwritten q).trans (hsame q c)

variable {g₀ : Galaxy α} {prepared : Prepared α}

/-- An update that leaves every row of the ledger as it is, and reports some events once more. -/
structure Repeats (m : Market α) (g : Galaxy α) (dt : α) (events : List (Event α)) : Prop where
  row?_eq : ∀ q, (m.update g dt).1.ledger.row? q = m.ledger.row? q
  events_eq : (m.update g dt).2 = events

/-- An update adds no commodity. -/
theorem size_update (m : Market α) (g : Galaxy α) (dt : α) :
    (m.update g dt).1.catalog.size = m.catalog.size := by
  rw [update]
  split
  · rw [Catalog.size_eq, basePrices_repriceAll, ← Catalog.size_eq]
  · rfl

/-- **Updating once more**, when no time has passed. -/
theorem repeats_update (hphase : m.phase = .ready) (hprepared : m.prepared? = some prepared)
    (hindex : m.index = .ofGalaxy g₀) (hg : g.IsOrderly)
    (hrest : (m.update g dt).1.ledger.AtRest m.config) :
    (m.update g dt).1.Repeats g 0 (m.update g dt).2 := by
  obtain ⟨catalog, ledger, hfirst⟩ := m.exists_update_fst g dt
  have hphase' : (m.update g dt).1.phase = .ready := by
    rw [hfirst]
    exact hphase
  have hprepared' : (m.update g dt).1.prepared? = some prepared := by
    rw [hfirst]
    exact hprepared
  have hconfig : (m.update g dt).1.config = m.config := by rw [hfirst]
  -- Each commodity is repriced in a market that is like the one it left.
  have hagain : ∀ c,
      ((m.update g dt).1.reprice g 0 prepared c).2 = (m.reprice g (elapsed dt) prepared c).2 ∧
        ∀ q, ((m.update g dt).1.reprice g 0 prepared c).1.ledger.get? q c =
          (m.update g dt).1.ledger.get? q c := by
    intro c
    refine reprice_again (nodup_visits hg hindex) ?_ (hconfig.symm ▸ hrest)
    rw [update_of_ready hphase hprepared]
    exact alike_round ..
  constructor
  case row?_eq =>
    intro q
    refine sameShape_update.row?_eq fun c => ?_
    rw [get?_update hphase' hprepared', elapsed_zero]
    exact (hagain c).2 q
  case events_eq =>
    rw [update_snd hphase' hprepared', update_snd hphase hprepared, elapsed_zero, size_update]
    exact List.flatMap_congr fun c _ => (hagain c).1

/-- A time that is not finite, or negative, passes for none. -/
theorem update_of_invalid (m : Market α) (g : Galaxy α)
    (h : Scalar.isFinite dt = false ∨ Scalar.le 0 dt = false) : m.update g dt = m.update g 0 := by
  have helapsed : elapsed dt = elapsed 0 := by
    rw [elapsed_zero]
    refine if_neg ?_
    rcases h with h | h <;> simp [h]
  rw [update, update, helapsed]

end Market

/-- **An update in which no time passes changes nothing** straight after another one in the same
galaxy, whatever time passed in that one and whatever the sources say: every supply, demand and
price stays, and each commodity has the same outcome once more. A negative time passes for none; so
does, in every arithmetic that has such, one that is not finite. -/
theorem update_settled {catalog : Catalog ℝ} {config : Config ℝ} {solver : Solver ℝ} {m : Market ℝ}
    (h : Market.ofConfig catalog config solver = .ok m) (calls : List (Call ℝ))
    (hready : (m.after calls).phase = .ready) (edits : List (Edit ℝ)) (dt : ℝ) :
    (∀ dt' ≤ 0, ((m.after calls).update (.ofEdits edits) dt).1.Repeats (.ofEdits edits) dt'
      ((m.after calls).update (.ofEdits edits) dt).2) ∧
    ∀ {α : Type} [Scalar α] (m : Market α) (g : Galaxy α) (dt : α),
      Scalar.isFinite dt = false ∨ Scalar.le 0 dt = false → m.update g dt = m.update g 0 := by
  refine ⟨fun dt' hdt' => ?_, fun m g dt hdt => m.update_of_invalid g hdt⟩
  have hlife := (Market.living_ofConfig h).after calls
  obtain ⟨g₀, -, hnetwork⟩ := hlife.network hready
  -- The first update is one more call of the run, at the end of which no tracker is negative.
  have htracks := Market.tracks_nonneg h (calls ++ [.update (.ofEdits edits) dt])
  rw [Market.after, List.foldl_append] at htracks
  have hrepeats := Market.repeats_update hready (hlife.prepared_of_ready hready)
    (Galaxy.dim_network hnetwork).1 (Galaxy.isOrderly_ofEdits edits) (htracks.atRest _)
  have hzero : ∀ m : Market ℝ, m.update (.ofEdits edits) dt' = m.update (.ofEdits edits) 0 := by
    intro m
    rcases hdt'.lt_or_eq with hneg | rfl
    · exact m.update_of_invalid _ (Or.inr (decide_eq_false (not_le.mpr hneg)))
    · rfl
  constructor
  · rw [hzero]
    exact hrepeats.row?_eq
  · rw [hzero]
    exact hrepeats.events_eq

/-- At the hamlet production stands at two after one unit of time, and a step back in time neither
undoes that nor adds to it. -/
theorem update_settled_hamlet :
    (hamletMarket.after (hamletRun 0)).phase = .ready ∧
    (∃ quote, ((hamletMarket.after (hamletRun 0)).update hamlet 1).1.ledger.get? ⟨0, 1⟩ 0 =
      some quote ∧ quote.supply = 2) ∧
    ((hamletMarket.after (hamletRun 0)).update hamlet 1).1.Repeats hamlet (-1)
      ((hamletMarket.after (hamletRun 0)).update hamlet 1).2 := by
  have hready : (hamletMarket.after (hamletRun 0)).phase = .ready := Market.inHamlet_opened.phase
  obtain ⟨quote, hquote, hsupply⟩ := (Market.inHamlet_opened.update 1).quote
  refine ⟨hready, ⟨quote, hquote, ?_⟩, ?_⟩
  · rw [hsupply, Market.elapsed_one, track_one_zero le_rfl]
    norm_num
  · obtain ⟨hsettled, -⟩ := update_settled hamletMarket_eq (hamletRun 0) hready _ 1
    exact hsettled (-1) (by norm_num)

end GalaxyMarket
