import GalaxyMarket.Proofs.Market.Config
import GalaxyMarket.Proofs.Market.Energy
import GalaxyMarket.Proofs.Market.Reversion
import GalaxyMarket.Proofs.Market.Update

/-!
# The range of trackers

Since a step drives a tracker away from its sample, trackers are not held near the samples over a
run. As long as no more time passes at once than one drift takes, an update can double a tracker
that has drifted, and no more (`Market.within_round`); nothing else that a market does moves a
tracker, not even the round at the end of a refresh, in which no time passes
(`Market.within_round_zero`). So after `n` updates trackers are at most `2 ^ (n + 1) - 2`
(`trackers_repelled`).

That much is reached, with samples that are all zero, by a market of one planet
(`Market.inHamlet_run`).
-/

namespace GalaxyMarket

/-! ### Quotes, sources and ledgers -/

/-- Trackers between zero and a bound. -/
def Quote.Within (bound : ℝ) (quote : Quote ℝ) : Prop :=
  quote.supply ∈ Set.Icc 0 bound ∧ quote.demand ∈ Set.Icc 0 bound

/-- So little time that no tracker drifts by more than one. -/
structure Config.Drifts (config : Config ℝ) (dt : ℝ) : Prop where
  production : config.productionVariability * dt ∈ Set.Icc 0 1
  demand : config.demandVariability * dt ∈ Set.Icc 0 1

section

variable {bound : ℝ} {quote : Quote ℝ} {config : Config ℝ} {dt : ℝ}

/-- One move at most doubles a tracker that has drifted by one. -/
theorem track_mem_Icc {rate tracker : ℝ} (h : tracker ∈ Set.Icc 0 bound)
    (hmove : rate * dt ∈ Set.Icc 0 1) (x : ℝ) :
    track rate dt tracker (nonnegative x) ∈ Set.Icc 0 (2 * (bound + 1)) := by
  have hsample : 0 ≤ nonnegative x := by
    rw [nonnegative_eq]
    exact le_max_right _ _
  refine ⟨track_nonneg, ?_⟩
  calc track rate dt tracker (nonnegative x)
      ≤ 2 * (tracker + 1) := track_le h.1 hsample hmove.1 hmove.2
    _ ≤ 2 * (bound + 1) := by linarith [h.2]

/-- A sample at most doubles the trackers of a quote that have drifted by one. -/
theorem Quote.Within.track (h : quote.Within bound) (hdrift : config.Drifts dt)
    (sample : Sample ℝ) : (quote.track config dt sample).Within (2 * (bound + 1)) :=
  ⟨track_mem_Icc h.1 hdrift.production _, track_mem_Icc h.2 hdrift.demand _⟩

/-- A sample after no time at all leaves the trackers alone. -/
theorem Quote.Within.track_idle (h : quote.Within bound) (config : Config ℝ)
    (sample : Sample ℝ) : (quote.track config 0 sample).Within bound := by
  have hsupply := GalaxyMarket.track_idle config.productionVariability
    (nonnegative sample.supply) h.1.1
  have hdemand := GalaxyMarket.track_idle config.demandVariability
    (nonnegative sample.demand) h.2.1
  unfold Quote.track Quote.Within
  rw [hsupply, hdemand]
  exact h

theorem Quote.Within.mono {bound' : ℝ} (h : quote.Within bound) (hle : bound ≤ bound') :
    quote.Within bound' :=
  ⟨⟨h.1.1, h.1.2.trans hle⟩, h.2.1, h.2.2.trans hle⟩

end

/-- Putting back the source that is there changes nothing. -/
theorem Catalog.setSource_self {α : Type} {catalog : Catalog α} {c : Nat} {source : Source α}
    (h : catalog.source? c = some source) : catalog.setSource c (some source) = catalog := by
  -- Only the place of the commodity is written, and it holds the source already.
  refine congrArg Catalog.mk (List.ext_getElem? fun d => ?_)
  refine (Catalog.getElem?_setSource catalog c d (some source)).trans ?_
  split
  · next heq =>
    obtain ⟨listing, hlisting, hsource⟩ := Option.bind_eq_some_iff.mp h
    rw [heq, hlisting, Option.map_some, ← hsource]
  · rfl

/-- A source whose samples all lie between zero and a bound. -/
def Source.Within (bound : ℝ) (source : Source ℝ) : Prop :=
  ∀ n, ∀ sample ∈ (source.drawMany n).1,
    sample.supply ∈ Set.Icc 0 bound ∧ sample.demand ∈ Set.Icc 0 bound

/-- A source that always says the same is within the bound if the one sample is. -/
theorem Source.within_constant {bound : ℝ} {sample : Sample ℝ}
    (hsupply : sample.supply ∈ Set.Icc 0 bound) (hdemand : sample.demand ∈ Set.Icc 0 bound) :
    (constant sample).Within bound := by
  intro n
  induction n with
  | zero => exact fun _ h => nomatch h
  | succ n ih =>
    intro drawn hdrawn
    rcases List.mem_cons.mp hdrawn with rfl | hlater
    · exact ⟨hsupply, hdemand⟩
    · exact ih drawn hlater

/-- A catalog whose sources always say the same. -/
def Catalog.IsConstant (catalog : Catalog ℝ) : Prop :=
  ∀ c source, catalog.source? c = some source → ∃ sample, source = .constant sample

namespace Ledger

/-- A ledger whose trackers all lie between zero and a bound. -/
def Within (bound : ℝ) (ledger : Ledger ℝ) : Prop :=
  ∀ q c quote, ledger.get? q c = some quote → quote.Within bound

variable {bound : ℝ} {ledger : Ledger ℝ}

/-- A ledger without rows has no trackers. -/
theorem within_empty (prices : List Int) : ({ basePrices := prices } : Ledger ℝ).Within bound := by
  intro q c quote hquote
  rw [get?_eq, row?_empty] at hquote
  cases hquote

/-- New rows start at zero. -/
theorem Within.sync (h : ledger.Within bound) (hbound : 0 ≤ bound) (g : Galaxy ℝ) :
    (ledger.sync g).Within bound := by
  intro q c quote hquote
  rcases get?_sync_cases hquote with hold | ⟨price, -, rfl⟩
  · exact h q c quote hold
  · exact ⟨⟨le_rfl, hbound⟩, le_rfl, hbound⟩

theorem Within.mono {bound' : ℝ} (h : ledger.Within bound) (hle : bound ≤ bound') :
    ledger.Within bound' :=
  fun q c quote hquote => (h q c quote hquote).mono hle

end Ledger

/-! ### One round -/

/-- Whether a call lets time pass. -/
def Call.passes {α : Type} : Call α → Bool
  | update .. | updateAt .. => true
  | _ => false

namespace Market

variable {m next : Market ℝ} {g : Galaxy ℝ} {dt bound : ℝ} {prepared : Prepared ℝ}

/-- No time counts as no time, -/
theorem elapsed_zero {α : Type} [Scalar α] : elapsed (0 : α) = 0 := ite_self 0

/-- and a unit of time as such. -/
theorem elapsed_one : elapsed (1 : ℝ) = 1 := if_pos (by simp)

/-- A round keeps trackers within the bound that they keep when they move. -/
theorem within_repriceAll
    (h : ∀ q c quote, (m.trackedLedger g dt c).get? q c = some quote → quote.Within bound) :
    (m.repriceAll g dt prepared (List.range m.catalog.size)).1.ledger.Within bound := by
  intro q c quote hquote
  have htrackers := m.trackers_repriceAll g dt prepared q c
  rw [hquote, Option.map_some] at htrackers
  obtain ⟨moved, hmoved, heq⟩ := Option.map_eq_some_iff.mp htrackers.symm
  -- Settling prices does not touch the trackers, so that they are those after the pass.
  obtain ⟨hsupply, hdemand⟩ := Prod.mk.inj heq
  have hwithin := h q c moved hmoved
  unfold Quote.Within at hwithin
  rwa [hsupply, hdemand] at hwithin

/-- **A round** at most doubles trackers that have drifted by one. -/
theorem within_round {g₀ : Galaxy ℝ} (hg : g.IsOrderly) (hindex : m.index = .ofGalaxy g₀)
    (hdrift : m.config.Drifts dt) (hbound : 0 ≤ bound) (h : m.ledger.Within bound) :
    (m.repriceAll g dt prepared (List.range m.catalog.size)).1.ledger.Within (2 * (bound + 1)) := by
  refine within_repriceAll fun q c quote hquote => ?_
  -- A tracker moves once, or not at all.
  by_cases hserved : ∃ planet i, c ∈ m.catalog.sourced ∧ m.Serves g q planet i ∧
      planet.inhabited = true
  · obtain ⟨planet, i, hc, hserves, hinhabited⟩ := hserved
    obtain ⟨good, source, hlisting⟩ := mem_sourced_iff.mp hc
    have hsource : m.catalog.source? c = some source := Catalog.source?_of_listing hlisting
    -- There was a quote before, since a round adds none.
    have hshape : m.ledger.SameShape (m.trackedLedger g dt c) := by
      unfold trackedLedger
      rw [hsource]
      exact sameShape_advance source
    obtain ⟨before, hbefore⟩ := hshape.symm.exists_get? hquote
    obtain ⟨drawn, -, hdrawn⟩ := trackedLedger_of_serves hg hindex (P := fun _ => True)
      (fun _ _ => trivial) hsource trivial hserves hinhabited hbefore dt
    obtain rfl := Option.some.inj (hquote.symm.trans hdrawn)
    exact (h q c before hbefore).track hdrift _
  · have hkept := trackedLedger_of_not_serves hg hindex (m := m) (q := q) (c := c)
      (fun planet i hc hserves => Bool.eq_false_iff.mpr fun hinhabited =>
        hserved ⟨planet, i, hc, hserves, hinhabited⟩) dt
    rw [hkept] at hquote
    exact (h q c quote hquote).mono (by linarith)

/-- A round in which no time passes leaves the bound as it is, in whatever galaxy. -/
theorem within_round_zero (h : m.ledger.Within bound) :
    (m.repriceAll g 0 prepared (List.range m.catalog.size)).1.ledger.Within bound := by
  refine within_repriceAll fun q c quote hquote => ?_
  unfold trackedLedger at hquote
  cases hsource : m.catalog.source? c with
  | none =>
    rw [hsource] at hquote
    exact h q c quote hquote
  | some source =>
    rw [hsource, Option.elim_some, advance_ledger] at hquote
    exact Pass.forall_visitAll (P := Quote.Within bound)
      (fun quote sample hquote => hquote.track_idle m.config sample)
      (fun q quote hquote => h q c quote hquote) _ hquote

/-! ### Sources that always say the same -/

/-- A source that always says the same is after a commodity's turn what it was before. -/
theorem catalog_reprice_of_constant (h : m.catalog.IsConstant) (g : Galaxy ℝ) (dt : ℝ)
    (prepared : Prepared ℝ) (c : ℕ) : (m.reprice g dt prepared c).1.catalog = m.catalog := by
  rcases m.source?_cases c with hsource | ⟨good, source, hlisting⟩
  · rw [reprice_of_source?_eq_none hsource]
  · have hsource : m.catalog.source? c = some source := Catalog.source?_of_listing hlisting
    obtain ⟨sample, rfl⟩ := h c source hsource
    obtain ⟨ledger, hsettle⟩ := (m.advance g dt c (.constant sample)).2.exists_settle_fst g c
      good.basePrice (prepared.solve (m.advance g dt c (.constant sample)).1)
    rw [reprice_eq hlisting, hsettle]
    -- The source that is put back is the one that was drawn from.
    show m.catalog.setSource c (some (Pass.systems m.config dt g c
      { source := .constant sample, ledger := m.ledger } m.index.keys).2.source) = m.catalog
    rw [Pass.systems_snd, Pass.source_visitAll (P := fun source => source = .constant sample)
      (fun source hdraw => by rw [hdraw]; rfl) rfl]
    exact Catalog.setSource_self hsource

/-- Whatever constant sources are asked, the catalog stays. -/
theorem catalog_repriceAll_of_constant (h : m.catalog.IsConstant) (g : Galaxy ℝ) (dt : ℝ)
    (prepared : Prepared ℝ) (cs : List ℕ) :
    (m.repriceAll g dt prepared cs).1.catalog = m.catalog := by
  induction cs generalizing m with
  | nil => rfl
  | cons c cs ih =>
    have hfirst := catalog_reprice_of_constant h g dt prepared c
    rw [repriceAll_cons]
    -- The next commodity finds the catalog that the first one found.
    exact (ih (hfirst.symm ▸ h)).trans hfirst

/-- With such sources an update changes nothing but the ledger. -/
theorem exists_update_fst_of_constant (h : m.catalog.IsConstant) (hphase : m.phase = .ready)
    (hprepared : m.prepared? = some prepared) (g : Galaxy ℝ) (dt : ℝ) :
    ∃ ledger, (m.update g dt).1 = { m with ledger } := by
  obtain ⟨catalog, ledger, hround⟩ :=
    m.exists_repriceAll_fst g (elapsed dt) prepared (List.range m.catalog.size)
  have hsame := catalog_repriceAll_of_constant h g (elapsed dt) prepared
    (List.range m.catalog.size)
  rw [hround] at hsame
  exact ⟨ledger, by rw [update_of_ready hphase hprepared, hround, ← hsame]⟩

/-- An update moves the trackers of an inhabited planet that is served by the one sample there is.
-/
theorem trackers_update_of_constant {g₀ : Galaxy ℝ} (hg : g.IsOrderly)
    (hindex : m.index = .ofGalaxy g₀) (hphase : m.phase = .ready)
    (hprepared : m.prepared? = some prepared) {c i : ℕ} {sample : Sample ℝ}
    (hsource : m.catalog.source? c = some (.constant sample)) {q : PlanetKey} {planet : Planet}
    (hserves : m.Serves g q planet i) (hinhabited : planet.inhabited = true) {quote : Quote ℝ}
    (hquote : m.ledger.get? q c = some quote) (dt : ℝ) :
    ((m.update g dt).1.ledger.get? q c).map Quote.trackers =
      some (quote.track m.config (elapsed dt) sample).trackers := by
  obtain ⟨source, rfl, htracked⟩ := trackedLedger_of_serves hg hindex
    (P := fun source => source = .constant sample) (fun source h => by rw [h]; rfl) hsource rfl
    hserves hinhabited hquote (elapsed dt)
  rw [update_of_ready hphase hprepared, trackers_repriceAll, htracked]
  rfl

/-! ### Runs -/

/-- A run that shows its updates galaxies in order, and lets so little time pass at once that no
tracker drifts by more than one. -/
def Gentle (m : Market ℝ) : List (Call ℝ) → Prop
  | [] => True
  | call :: calls =>
    (∀ g dt clock, m.Passes call g dt clock → g.IsOrderly ∧ m.config.Drifts (elapsed dt)) ∧
      (m.perform call).1.Gentle calls

/-- Opening a market and bringing its rows up to date starts trackers at zero, if it starts any. -/
theorem within_opened (h : m.ledger.Within bound) (hbound : 0 ≤ bound) (g : Galaxy ℝ) :
    ((m.opened g).ledger.sync g).Within bound := by
  by_cases hphase : m.phase = .uninitialized
  · rw [opened_of_uninitialized hphase]
    exact ((Ledger.within_empty m.catalog.basePrices).sync hbound g).sync hbound g
  · rw [opened_of_ne hphase]
    exact h.sync hbound g

/-- **A step** that lets time pass at most doubles trackers that have drifted by one; no other step
raises the bound. -/
theorem within_step {config : Config ℝ} {solver : Solver ℝ} {last? : Option (Galaxy ℝ)}
    (hlife : m.Living config solver last?) {call : Call ℝ} {answer : Answer ℝ}
    (hstep : m.Step call next answer)
    (hgentle : ∀ g dt clock, m.Passes call g dt clock → g.IsOrderly ∧ m.config.Drifts (elapsed dt))
    (hbound : 0 ≤ bound) (h : m.ledger.Within bound) :
    next.ledger.Within (if call.passes then 2 * (bound + 1) else bound) := by
  have hle : bound ≤ if call.passes then 2 * (bound + 1) else bound := by
    split
    · linarith
    · exact le_rfl
  -- Only a call that lets time pass moves a tracker. All others keep the rows they find or begin
  -- new ones.
  cases hstep with
  | idle | queued | detached => exact h.mono hle
  | destroyed => exact Ledger.within_empty []
  | @passed _ g dt clock prepared hcall hphase hprepared round hround =>
    subst hround
    obtain ⟨g₀, -, hnetwork⟩ := hlife.network hphase
    obtain ⟨hg, hdrift⟩ := hgentle g dt clock hcall
    have hpasses : call.passes = true := by
      cases hcall <;> rfl
    rw [if_pos hpasses]
    exact within_round (m := { m with lastUpdate? := clock }) hg
      (Galaxy.dim_network hnetwork).1 hdrift hbound h
  | @refused _ g e hcall hnetwork => exact (within_opened h hbound g).mono hle
  | @rebuilt _ g index matrix hcall hnetwork round hround =>
    subst hround
    -- The round that ends a rebuild goes through all planets, but no time passes in it.
    rw [elapsed_zero]
    have hrebuilt : ((m.opened g).rebuilt g index matrix).ledger.Within bound :=
      within_opened h hbound g
    have hsize : ((m.opened g).rebuilt g index matrix).catalog.size = m.catalog.size := by
      obtain ⟨phase, ledger, -, hopened⟩ := m.exists_opened g
      rw [hopened]
      rfl
    rw [← hsize]
    exact (within_round_zero hrebuilt).mono hle

/-- **After a gentle run** of `n` updates, trackers up to `bound` are up to
`2 ^ n * (bound + 2) - 2`. -/
theorem within_after {config : Config ℝ} {solver : Solver ℝ} {last? : Option (Galaxy ℝ)}
    (hlife : m.Living config solver last?) {calls : List (Call ℝ)} (hgentle : m.Gentle calls)
    (hbound : 0 ≤ bound) (h : m.ledger.Within bound) :
    (m.after calls).ledger.Within (2 ^ calls.countP Call.passes * (bound + 2) - 2) := by
  -- The bound is that at the start of the rest of the run, and grows from call to call.
  induction calls generalizing m last? bound with
  | nil =>
    rw [after_nil]
    simpa using h
  | cons call calls ih =>
    obtain ⟨hfirst, hgentle⟩ := hgentle
    have hstep := hlife.step_perform call
    have hnext := within_step hlife hstep hfirst hbound h
    have hbound' : 0 ≤ if call.passes then 2 * (bound + 1) else bound := by
      split
      · linarith
      · exact hbound
    have hrest := ih (hlife.step hstep) hgentle hbound' hnext
    rw [List.countP_cons, after_cons]
    by_cases hpasses : call.passes = true
    · rw [if_pos hpasses] at hrest ⊢
      have hgrow : (2 : ℝ) ^ (calls.countP Call.passes + 1) * (bound + 2) - 2 =
          2 ^ calls.countP Call.passes * (2 * (bound + 1) + 2) - 2 := by ring
      rwa [hgrow]
    · rw [if_neg hpasses] at hrest ⊢
      exact hrest

end Market

/-- **Trackers are driven away from their samples.** A step never brings a tracker nearer to the
sample than it had drifted, and leaves it as near only if nothing moves or it was there already.
Over a gentle run of `n` updates trackers do not exceed `2 ^ (n + 1) - 2`, whatever the samples. -/
theorem trackers_repelled {catalog : Catalog ℝ} {config : Config ℝ} {solver : Solver ℝ}
    {m : Market ℝ} (h : Market.ofConfig catalog config solver = .ok m) {calls : List (Call ℝ)}
    (hgentle : m.Gentle calls) :
    (∀ rate dt tracker sample : ℝ, 0 ≤ tracker → 0 ≤ sample → 0 ≤ rate * dt →
      |tracker + rate * dt - sample| ≤ |track rate dt tracker sample - sample| ∧
        (|track rate dt tracker sample - sample| ≤ |tracker + rate * dt - sample| ↔
          rate * dt = 0 ∨ tracker + rate * dt = sample)) ∧
    ∀ q c quote, (m.after calls).ledger.get? q c = some quote →
      quote.supply ∈ Set.Icc 0 (2 ^ (calls.countP Call.passes + 1) - 2) ∧
        quote.demand ∈ Set.Icc 0 (2 ^ (calls.countP Call.passes + 1) - 2) := by
  constructor
  · intro rate dt tracker sample htracker hsample hmove
    exact ⟨abs_sub_le_abs_track_sub htracker hsample hmove,
      abs_track_sub_le_iff htracker hsample hmove⟩
  · have hstart : m.ledger.Within 0 := by
      rw [(Market.ofConfig_eq_ok_iff.mp h).2]
      exact Ledger.within_empty []
    have hend := Market.within_after (Market.living_ofConfig h) hgentle le_rfl hstart
    have hgrow : (2 : ℝ) ^ calls.countP Call.passes * (0 + 2) - 2 =
        2 ^ (calls.countP Call.passes + 1) - 2 := by ring
    rwa [hgrow] at hend

/-! ### A market that reaches the bound -/

/-- One system with an inhabited planet. -/
def hamlet : Galaxy ℝ := .ofEdits
  [.addSystem { name := "System 0", nebula := ⟨0, 0⟩ },
    .addPlanet ⟨0, 1⟩ { name := "Planet 0", population := 1 }]

/-- One good that nobody makes or wants. -/
def idleGood : Catalog ℝ :=
  ⟨[{ commodity := { name := "Food", description := "", basePrice := 100 }
      source? := some (.constant ⟨0, 0⟩) }]⟩

/-- The one good has the one source. -/
theorem source_idleGood {c : ℕ} {source : Source ℝ} (h : idleGood.source? c = some source) :
    source = .constant ⟨0, 0⟩ := by
  cases c with
  | zero => exact (Option.some.inj h).symm
  | succ c => cases h

/-- The standard tuning, but for production trackers that drift by one in a unit of time, and demand
trackers that do not. -/
noncomputable def restless : Config ℝ :=
  { Config.standard with productionVariability := 1, demandVariability := 0 }

noncomputable def hamletMarket : Market ℝ :=
  { catalog := idleGood, config := restless, solver := .cholesky }

/-- The tuning is valid, so that a market starts with it. -/
theorem hamletMarket_eq : Market.ofConfig idleGood restless .cholesky = .ok hamletMarket := by
  refine Market.ofConfig_eq_ok_iff.mpr ⟨Config.validate_eq_ok_iff.mpr ?_, rfl⟩
  norm_num [restless, Config.standard]

/-- A run that opens a market for the hamlet and then updates it, one unit of time after the other.
-/
def hamletRun (n : ℕ) : List (Call ℝ) := .init hamlet :: List.replicate n (.update hamlet 1)

theorem isOrderly_hamlet : hamlet.IsOrderly := Galaxy.isOrderly_ofEdits _

/-- The hamlet has a network, -/
theorem exists_network_hamlet :
    ∃ matrix, hamlet.network hamletMarket.config = .ok (.ofGalaxy hamlet, matrix) := by
  refine Galaxy.exists_network_of_pos hamlet ?_
  norm_num [hamletMarket, restless, Config.standard]

namespace Market

variable {m : Market ℝ} {supply : ℝ}

/-- A market that was opened for the hamlet, with its production tracker at `supply`. -/
structure InHamlet (supply : ℝ) (m : Market ℝ) : Prop where
  catalog : m.catalog = idleGood
  config : m.config = restless
  index : m.index = .ofGalaxy hamlet
  phase : m.phase = .ready
  prepared : ∃ prepared, m.prepared? = some prepared
  quote : ∃ quote, m.ledger.get? ⟨0, 1⟩ 0 = some quote ∧ quote.supply = supply

/-- An update moves the tracker away from zero. -/
theorem InHamlet.update (h : m.InHamlet supply) (dt : ℝ) :
    (m.update hamlet dt).1.InHamlet (track 1 (elapsed dt) supply 0) := by
  obtain ⟨prepared, hprepared⟩ := h.prepared
  obtain ⟨quote, hquote, rfl⟩ := h.quote
  have hsource : m.catalog.source? 0 = some (.constant ⟨0, 0⟩) := by
    rw [h.catalog]
    rfl
  have hconstant : m.catalog.IsConstant := by
    intro c source hc
    rw [h.catalog] at hc
    exact ⟨⟨0, 0⟩, source_idleGood hc⟩
  have hserves : m.Serves hamlet ⟨0, 1⟩
      { name := "Planet 0", population := 1, system := ⟨0, 1⟩ } 0 := by
    refine ⟨rfl, rfl, ?_⟩
    rw [h.index]
    rfl
  -- The source is constant, so that the one sample that moves the tracker is known.
  have htrackers := trackers_update_of_constant isOrderly_hamlet h.index h.phase hprepared hsource
    hserves rfl hquote dt
  obtain ⟨ledger, hledger⟩ := exists_update_fst_of_constant hconstant h.phase hprepared hamlet dt
  rw [hledger] at htrackers ⊢
  obtain ⟨moved, hmoved, heq⟩ := Option.map_eq_some_iff.mp htrackers
  refine ⟨h.catalog, h.config, h.index, h.phase, h.prepared, moved, hmoved, ?_⟩
  rw [(Prod.mk.inj heq).1, h.config]
  show track 1 (elapsed dt) quote.supply (nonnegative 0) = _
  rw [nonnegative_eq, max_self]

/-- so that `init` opens the market, with the tracker at zero. -/
theorem inHamlet_opened : (hamletMarket.perform (.init hamlet)).1.InHamlet 0 := by
  obtain ⟨matrix, hnetwork⟩ := exists_network_hamlet
  have hrebuilt : ((hamletMarket.opened hamlet).rebuilt hamlet (.ofGalaxy hamlet) matrix).InHamlet
      0 := by
    rw [opened_of_uninitialized rfl]
    exact ⟨rfl, rfl, rfl, rfl, ⟨_, rfl⟩, ⟨0, 0, 100⟩, rfl, rfl⟩
  -- What follows is the round of prices, in which no time passes.
  have hround := hrebuilt.update 0
  rw [elapsed_zero, track_idle 1 0 le_rfl] at hround
  show (hamletMarket.init hamlet).1.InHamlet 0
  rwa [init_of_ok rfl hnetwork]

/-- **The bound is reached**: every update doubles a tracker that has drifted by one. -/
theorem inHamlet_run (n : ℕ) : (hamletMarket.after (hamletRun n)).InHamlet (2 ^ (n + 1) - 2) := by
  induction n with
  | zero =>
    rw [zero_add, pow_one, sub_self]
    exact inHamlet_opened
  | succ n ih =>
    -- The run of `n + 1` updates is that of `n`, and one more.
    have hlast : hamletMarket.after (hamletRun (n + 1)) =
        ((hamletMarket.after (hamletRun n)).update hamlet 1).1 := by
      unfold hamletRun
      rw [List.replicate_succ', ← List.cons_append, after, List.foldl_append]
      rfl
    have hnonneg : (0 : ℝ) ≤ 2 ^ (n + 1) - 2 := by
      have hpow : (1 : ℝ) ≤ 2 ^ n := one_le_pow₀ one_le_two
      rw [pow_succ]
      linarith
    have hnext := ih.update 1
    rw [elapsed_one, track_one_zero hnonneg] at hnext
    have hgrow : (2 : ℝ) ^ (n + 1 + 1) - 2 = 2 * (2 ^ (n + 1) - 2 + 1) := by ring
    rwa [hlast, hgrow]

/-- In a unit of time the trackers drift by one, or not at all. -/
theorem drifts_restless : restless.Drifts (elapsed 1) := by
  rw [elapsed_one]
  constructor <;> norm_num [restless]

/-- So the run is gentle. -/
theorem gentle_hamletRun (n : ℕ) : hamletMarket.Gentle (hamletRun n) := by
  -- Of the market, only its tuning matters to how far trackers drift.
  have hupdates : ∀ m : Market ℝ, m.config = restless →
      m.Gentle (List.replicate n (.update hamlet 1)) := by
    induction n with
    | zero => exact fun _ _ => trivial
    | succ n ih =>
      intro m hconfig
      refine ⟨fun g dt clock hcall => ?_, ih _ ?_⟩
      · cases hcall
        exact ⟨isOrderly_hamlet, hconfig ▸ drifts_restless⟩
      · obtain ⟨catalog, ledger, hupdate⟩ := m.exists_update_fst hamlet 1
        exact (congrArg Market.config hupdate).trans hconfig
  exact ⟨fun g dt clock hcall => (nomatch hcall), hupdates _ inHamlet_opened.config⟩

end Market

/-- At the hamlet the bound on the trackers is met: after one update production stands at two. -/
theorem trackers_repelled_hamlet :
    ∃ quote, (hamletMarket.after (hamletRun 1)).ledger.get? ⟨0, 1⟩ 0 = some quote ∧
      quote.supply = 2 ∧ quote.supply ≤ 2 ^ (1 + 1) - 2 := by
  obtain ⟨quote, hquote, hsupply⟩ := (Market.inHamlet_run 1).quote
  obtain ⟨-, hbounds⟩ := trackers_repelled hamletMarket_eq (Market.gentle_hamletRun 1)
  exact ⟨quote, hquote, hsupply.trans (by norm_num), (hbounds _ _ quote hquote).1.2⟩

/-- **Trackers are not held near their samples**, neither in one step nor over a run: where a
tracker has drifted to one, a sample of zero drives it to two. -/
theorem not_trackers_near_samples :
    (¬ ∀ rate dt tracker sample : ℝ, 0 ≤ tracker → 0 ≤ sample → 0 ≤ rate * dt → rate * dt ≤ 1 →
      |track rate dt tracker sample - sample| ≤ |tracker + rate * dt - sample|) ∧
    ¬ ∀ (catalog : Catalog ℝ) (config : Config ℝ) (solver : Solver ℝ) (m : Market ℝ)
      (calls : List (Call ℝ)) (bound : ℝ) (q : PlanetKey) (c : ℕ) (quote : Quote ℝ),
      Market.ofConfig catalog config solver = .ok m → m.Gentle calls →
      (∀ c source, catalog.source? c = some source → source.Within bound) →
      (m.after calls).ledger.get? q c = some quote →
      quote.supply ≤ bound + 1 ∧ quote.demand ≤ bound + 1 := by
  constructor
  · intro hall
    have hstep := hall 1 1 0 0 le_rfl le_rfl (by norm_num) (by norm_num)
    rw [track_one_zero le_rfl] at hstep
    norm_num at hstep
  · intro hall
    obtain ⟨quote, hquote, hsupply⟩ := (Market.inHamlet_run 1).quote
    have hsources : ∀ c source, idleGood.source? c = some source → source.Within 0 := by
      intro c source hsource
      rw [source_idleGood hsource]
      exact Source.within_constant ⟨le_rfl, le_rfl⟩ ⟨le_rfl, le_rfl⟩
    have hbounds := hall idleGood restless .cholesky hamletMarket (hamletRun 1) 0 ⟨0, 1⟩ 0 quote
      hamletMarket_eq (Market.gentle_hamletRun 1) hsources hquote
    rw [hsupply] at hbounds
    norm_num at hbounds

end GalaxyMarket
