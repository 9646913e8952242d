import GalaxyMarket.Proofs.Market.Update

/-!
# Commodities do not interfere

All commodities of a market share one ledger, one index, one prepared matrix and one round. Still,
what happens to a commodity depends on its own base price and its own source alone. Two markets of
the same tuning whose catalogs agree on it, and on nothing else, go through the same calls in the
same phases, with the same network, the same column of the ledger and the same events of that
commodity (`commodities_independent`). They need not even be given the same calls: taking the source
of another commodity away makes no difference, whenever it is done.

What two such markets have in common is `Market.AgreesOn`, which every call preserves
(`Market.AgreesOn.perform`). A call that takes the source of another commodity away leaves it true
of the market before and after, so that a run is compared with what remains of it without such calls
(`Market.AgreesOn.after_filter`).
-/

namespace GalaxyMarket

variable {α : Type}

/-- Whether a call may matter to a commodity. All do but those that take the source of another one
away. -/
def Call.concerns (c : Nat) : Call α → Bool
  | .detach d => d == c
  | _ => true

/-- Whether an event is one that other commodities have no part in. -/
def Event.concerns (c : Nat) (event : Event α) : Bool := event.commodity?.all (· == c)

/-- An answer without the events of other commodities. -/
def Answer.about (c : Nat) (answer : Answer α) : Answer α :=
  answer.map (List.filter (Event.concerns c))

/-- An event about a commodity concerns that commodity only. -/
theorem Event.concerns_iff {c d : Nat} {event : Event α} (h : event.commodity? = some d) :
    event.concerns c = true ↔ d = c := by
  rw [concerns, h, Option.all_some, beq_iff_eq]

/-- Of the events of some commodities, one after the other, those of one of them. -/
theorem Event.filter_flatMap_concerns {events : Nat → List (Event α)}
    (hevents : ∀ d, ∀ event ∈ events d, event.commodity? = some d) {cs : List Nat}
    (hnodup : cs.Nodup) {c : Nat} (hc : c ∉ cs → events c = []) :
    (cs.flatMap events).filter (Event.concerns c) = events c := by
  have hself : (events c).filter (Event.concerns c) = events c :=
    List.filter_eq_self.mpr fun event hevent => (concerns_iff (hevents c event hevent)).mpr rfl
  have hothers : ∀ ds : List Nat, c ∉ ds → (ds.flatMap events).filter (Event.concerns c) = [] := by
    intro ds hds
    refine List.filter_eq_nil_iff.mpr fun event hevent hconcerns => hds ?_
    obtain ⟨d, hd, hevent⟩ := List.mem_flatMap.mp hevent
    rwa [← (concerns_iff (hevents d event hevent)).mp hconcerns]
  by_cases hmem : c ∈ cs
  · -- The commodity has its turn once.
    obtain ⟨before, later, rfl⟩ := List.append_of_mem hmem
    obtain ⟨-, hlater, hapart⟩ := List.nodup_append.mp hnodup
    have hbefore : c ∉ before := fun h => hapart c h c List.mem_cons_self rfl
    rw [List.flatMap_append, List.flatMap_cons, List.filter_append, List.filter_append,
      hothers before hbefore, hothers later (List.nodup_cons.mp hlater).1, hself, List.nil_append,
      List.append_nil]
  · rw [hothers cs hmem, hc hmem]

/-! ### Ledgers -/

namespace Ledger

/-- Two ledgers with rows for the same planets and one column in common. -/
structure AgreesOn (c : Nat) (ledger ledger' : Ledger α) : Prop where
  basePrice : ledger'.basePrices[c]? = ledger.basePrices[c]?
  contains : ∀ q, ledger'.contains q = ledger.contains q
  column : ∀ q, ledger'.get? q c = ledger.get? q c

variable {c : Nat} {ledger ledger' ledger'' after after' : Ledger α}

theorem AgreesOn.refl (c : Nat) (ledger : Ledger α) : ledger.AgreesOn c ledger :=
  ⟨rfl, fun _ => rfl, fun _ => rfl⟩

theorem AgreesOn.symm (h : ledger.AgreesOn c ledger') : ledger'.AgreesOn c ledger :=
  ⟨h.basePrice.symm, fun q => (h.contains q).symm, fun q => (h.column q).symm⟩

theorem AgreesOn.trans (h : ledger.AgreesOn c ledger') (h' : ledger'.AgreesOn c ledger'') :
    ledger.AgreesOn c ledger'' where
  basePrice := h'.basePrice.trans h.basePrice
  contains q := (h'.contains q).trans (h.contains q)
  column q := (h'.column q).trans (h.column q)

/-- Ledgers that are written in place, and the same in the one column. -/
theorem AgreesOn.of_sameShape (h : ledger.AgreesOn c ledger') (hshape : ledger.SameShape after)
    (hshape' : ledger'.SameShape after') (hcolumn : ∀ q, after'.get? q c = after.get? q c) :
    after.AgreesOn c after' where
  -- What is not a quote is as it was, and so the same as in the other ledger.
  basePrice := by rw [hshape.basePrices, hshape'.basePrices, h.basePrice]
  contains q := by rw [hshape.contains_eq, hshape'.contains_eq, h.contains]
  column := hcolumn

/-- New rows start at the base price, which both ledgers have in common. -/
theorem AgreesOn.sync [Scalar α] (h : ledger.AgreesOn c ledger') (g : Galaxy α) :
    (ledger.sync g).AgreesOn c (ledger'.sync g) where
  basePrice := by rw [basePrices_sync, basePrices_sync, h.basePrice]
  contains q := by rw [contains_sync, contains_sync]
  column q := by rw [get?_sync, get?_sync, h.contains, h.column, h.basePrice]

end Ledger

/-! ### Markets -/

namespace Market

/-- Two markets that agree on all that does not belong to other commodities. -/
structure AgreesOn (c : Nat) (m m' : Market α) : Prop where
  basePrice : m'.catalog.basePrices[c]? = m.catalog.basePrices[c]?
  source : m'.catalog.source? c = m.catalog.source? c
  config : m'.config = m.config
  solver : m'.solver = m.solver
  phase : m'.phase = m.phase
  ledger : m.ledger.AgreesOn c m'.ledger
  index : m'.index = m.index
  matrix : m'.matrix = m.matrix
  prepared? : m'.prepared? = m.prepared?
  lastUpdate? : m'.lastUpdate? = m.lastUpdate?
  refreshQueued : m'.refreshQueued = m.refreshQueued

variable {m m' m'' : Market α} {c d : Nat}

theorem AgreesOn.refl (c : Nat) (m : Market α) : m.AgreesOn c m :=
  ⟨rfl, rfl, rfl, rfl, rfl, .refl c m.ledger, rfl, rfl, rfl, rfl, rfl⟩

theorem AgreesOn.symm (h : m.AgreesOn c m') : m'.AgreesOn c m where
  basePrice := h.basePrice.symm
  source := h.source.symm
  config := h.config.symm
  solver := h.solver.symm
  phase := h.phase.symm
  ledger := h.ledger.symm
  index := h.index.symm
  matrix := h.matrix.symm
  prepared? := h.prepared?.symm
  lastUpdate? := h.lastUpdate?.symm
  refreshQueued := h.refreshQueued.symm

theorem AgreesOn.trans (h : m.AgreesOn c m') (h' : m'.AgreesOn c m'') : m.AgreesOn c m'' where
  basePrice := h'.basePrice.trans h.basePrice
  source := h'.source.trans h.source
  config := h'.config.trans h.config
  solver := h'.solver.trans h.solver
  phase := h'.phase.trans h.phase
  ledger := h.ledger.trans h'.ledger
  index := h'.index.trans h.index
  matrix := h'.matrix.trans h.matrix
  prepared? := h'.prepared?.trans h.prepared?
  lastUpdate? := h'.lastUpdate?.trans h.lastUpdate?
  refreshQueued := h'.refreshQueued.trans h.refreshQueued

/-- What agrees on a commodity is alike for its turn in a round. -/
theorem AgreesOn.alike (h : m.AgreesOn c m') : m.Alike c m' :=
  ⟨h.config, h.index, h.basePrice, h.source, h.ledger.column⟩

/-! ### Taking sources away -/

/-- Taking the source of another commodity away changes nothing that matters to this one. -/
theorem agreesOn_detach_of_ne (m : Market α) (hd : d ≠ c) : m.AgreesOn c (m.detach d) :=
  { AgreesOn.refl c m with
    basePrice := congrArg (·[c]?) (Catalog.basePrices_setSource ..)
    source := Catalog.source?_setSource_of_ne _ hd.symm _ }

/-- Taking the same source away from both markets keeps them in agreement, be it of this commodity
or of another one. -/
theorem AgreesOn.detach (h : m.AgreesOn c m') (d : Nat) :
    (m.detach d).AgreesOn c (m'.detach d) := by
  by_cases hd : d = c
  · subst hd
    refine { h with basePrice := ?_, source := ?_ }
    · show (m'.catalog.setSource d none).basePrices[d]? =
        (m.catalog.setSource d none).basePrices[d]?
      rw [Catalog.basePrices_setSource, Catalog.basePrices_setSource, h.basePrice]
    · show (m'.catalog.setSource d none).source? d = (m.catalog.setSource d none).source? d
      rw [Catalog.source?_setSource_self, Catalog.source?_setSource_self, h.basePrice]
  · exact (agreesOn_detach_of_ne m hd).symm.trans (h.trans (agreesOn_detach_of_ne m' hd))

variable [Scalar α] {g : Galaxy α} {dt : α} {prepared : Prepared α}

/-! ### Rounds -/

/-- Repricing a commodity reports about that commodity. -/
theorem commodity?_of_mem_reprice {event : Event α}
    (h : event ∈ (m.reprice g dt prepared d).2) : event.commodity? = some d := by
  have hmem := (commodity?_reprice m g dt prepared d).1.subset (List.mem_map_of_mem h)
  split at hmem
  · exact List.mem_singleton.mp hmem
  · cases hmem

/-- Of the events of a round, those of one commodity are what it would have reported alone. -/
theorem filter_repriceAll (m : Market α) (g : Galaxy α) (dt : α) (prepared : Prepared α) (c : Nat) :
    (m.repriceAll g dt prepared (List.range m.catalog.size)).2.filter (Event.concerns c) =
      (m.reprice g dt prepared c).2 := by
  rw [repriceAll_snd List.nodup_range]
  refine Event.filter_flatMap_concerns (fun d event => commodity?_of_mem_reprice) List.nodup_range
    fun hc => ?_
  have hsize : m.catalog.size ≤ c := Nat.le_of_not_lt fun hlt => hc (List.mem_range.mpr hlt)
  rw [reprice_of_source?_eq_none (Catalog.source?_of_size_le hsize)]

/-- **A round** keeps markets in agreement, however many other commodities they have. -/
theorem AgreesOn.repriceAll (h : m.AgreesOn c m') (g : Galaxy α) (dt : α) (prepared : Prepared α) :
    (m.repriceAll g dt prepared (List.range m.catalog.size)).1.AgreesOn c
        (m'.repriceAll g dt prepared (List.range m'.catalog.size)).1 ∧
      (m'.repriceAll g dt prepared (List.range m'.catalog.size)).2.filter (Event.concerns c) =
        (m.repriceAll g dt prepared (List.range m.catalog.size)).2.filter (Event.concerns c) := by
  obtain ⟨hevents, hreprice⟩ : (m'.reprice g dt prepared c).2 = (m.reprice g dt prepared c).2 ∧
      (m.reprice g dt prepared c).1.Alike c (m'.reprice g dt prepared c).1 := h.alike.reprice
  refine ⟨?_, by rw [filter_repriceAll, filter_repriceAll, hevents]⟩
  -- Each round leaves the commodity as if it had been repriced alone, and alone it is the same.
  have halike : (m.repriceAll g dt prepared (List.range m.catalog.size)).1.Alike c
      (m'.repriceAll g dt prepared (List.range m'.catalog.size)).1 :=
    (alike_round m g dt prepared c).symm.trans (hreprice.trans (alike_round m' g dt prepared c))
  have hledger := h.ledger.of_sameShape sameShape_repriceAll sameShape_repriceAll halike.column
  obtain ⟨catalog, ledger, hround⟩ :=
    m.exists_repriceAll_fst g dt prepared (List.range m.catalog.size)
  obtain ⟨catalog', ledger', hround'⟩ :=
    m'.exists_repriceAll_fst g dt prepared (List.range m'.catalog.size)
  rw [hround, hround'] at halike hledger ⊢
  exact { h with basePrice := halike.basePrice, source := halike.source, ledger := hledger }

/-- An update runs in both markets or in neither. -/
theorem AgreesOn.update (h : m.AgreesOn c m') (g : Galaxy α) (dt : α) :
    (m.update g dt).1.AgreesOn c (m'.update g dt).1 ∧
      (m'.update g dt).2.filter (Event.concerns c) =
        (m.update g dt).2.filter (Event.concerns c) := by
  -- Both markets have something to do or neither has.
  by_cases hphase : m.phase = .ready
  · cases hprepared : m.prepared? with
    | none =>
      rw [update_of_prepared?_eq_none hprepared,
        update_of_prepared?_eq_none (h.prepared?.trans hprepared)]
      exact ⟨h, rfl⟩
    | some prepared =>
      rw [update_of_ready hphase hprepared,
        update_of_ready (h.phase.trans hphase) (h.prepared?.trans hprepared)]
      exact h.repriceAll g (elapsed dt) prepared
  · rw [update_of_phase_ne hphase, update_of_phase_ne (h.phase ▸ hphase)]
    exact ⟨h, rfl⟩

/-! ### Calls -/

/-- So does an update by the clock, since both clocks show the same. -/
theorem AgreesOn.updateAt (h : m.AgreesOn c m') (g : Galaxy α) (now : α) :
    (m.updateAt g now).1.AgreesOn c (m'.updateAt g now).1 ∧
      (m'.updateAt g now).2.filter (Event.concerns c) =
        (m.updateAt g now).2.filter (Event.concerns c) := by
  by_cases hphase : m.phase = .ready
  · have hclock : { m with lastUpdate? := some now }.AgreesOn c
        { m' with lastUpdate? := some now } := { h with lastUpdate? := rfl }
    rw [updateAt_of_ready hphase, updateAt_of_ready (h.phase.trans hphase), h.lastUpdate?]
    exact hclock.update g _
  · rw [updateAt_of_phase_ne hphase, updateAt_of_phase_ne (h.phase ▸ hphase)]
    exact ⟨h, rfl⟩

/-- **A refresh** takes over the same network in both markets, or is refused in both. -/
theorem AgreesOn.refresh (h : m.AgreesOn c m') (g : Galaxy α) :
    (m.refresh g).1.AgreesOn c (m'.refresh g).1 ∧
      Answer.about c (m'.refresh g).2 = Answer.about c (m.refresh g).2 := by
  by_cases hphase : m.phase = .uninitialized
  · rw [refresh_of_uninitialized hphase, refresh_of_uninitialized (h.phase.trans hphase)]
    exact ⟨h, rfl⟩
  have hphase' : m'.phase ≠ .uninitialized := h.phase ▸ hphase
  -- With one tuning there is one network for both, or one refusal.
  cases hnetwork : g.network m.config with
  | error e =>
    rw [refresh_of_error hphase hnetwork, refresh_of_error hphase' (h.config ▸ hnetwork)]
    exact ⟨{ h with
      phase := rfl, ledger := h.ledger.sync g, prepared? := rfl, refreshQueued := rfl }, rfl⟩
  | ok network =>
    obtain ⟨index, matrix⟩ := network
    have hrebuilt : (m.rebuilt g index matrix).AgreesOn c (m'.rebuilt g index matrix) :=
      { h with
        phase := rfl, ledger := h.ledger.sync g, index := rfl, matrix := rfl
        prepared? := by
          show some (m'.solver.prepare matrix) = some (m.solver.prepare matrix)
          rw [h.solver]
        refreshQueued := rfl }
    obtain ⟨hupdate, hevents⟩ := hrebuilt.update g 0
    rw [refresh_of_ok hphase hnetwork, refresh_of_ok hphase' (h.config ▸ hnetwork)]
    let report (events : List (Event α)) : Answer α :=
      .ok (.refreshed index.size matrix.size :: events)
    exact ⟨hupdate, congrArg report hevents⟩

/-- Opening a market syncs its rows and refreshes it. -/
theorem AgreesOn.init (h : m.AgreesOn c m') (g : Galaxy α) :
    (m.init g).1.AgreesOn c (m'.init g).1 ∧
      Answer.about c (m'.init g).2 = Answer.about c (m.init g).2 := by
  by_cases hphase : m.phase = .uninitialized
  · -- New rows start at base price, which is the same for the commodity.
    have hopened : { m with phase := .initialized, ledger := .ofGalaxy g m.catalog }.AgreesOn c
        { m' with phase := .initialized, ledger := .ofGalaxy g m'.catalog } := by
      have hempty : ({ basePrices := m.catalog.basePrices } : Ledger α).AgreesOn c
          { basePrices := m'.catalog.basePrices } := by
        refine ⟨h.basePrice, fun _ => rfl, fun q => ?_⟩
        rw [Ledger.get?_eq, Ledger.get?_eq, Ledger.row?_empty, Ledger.row?_empty]
      exact { h with phase := rfl, ledger := hempty.sync g }
    rw [init_of_uninitialized hphase, init_of_uninitialized (h.phase.trans hphase)]
    exact hopened.refresh g
  · rw [init_of_ne hphase, init_of_ne (h.phase ▸ hphase)]
    exact ⟨h, rfl⟩

/-- A refresh is due in both markets or in neither. -/
theorem AgreesOn.execQueued (h : m.AgreesOn c m') (g : Galaxy α) :
    (m.execQueued g).1.AgreesOn c (m'.execQueued g).1 ∧
      Answer.about c (m'.execQueued g).2 = Answer.about c (m.execQueued g).2 := by
  cases hqueued : m.refreshQueued with
  | false =>
    rw [execQueued_of_not_queued hqueued,
      execQueued_of_not_queued (h.refreshQueued.trans hqueued)]
    exact ⟨h, rfl⟩
  | true =>
    rw [execQueued_of_queued hqueued, execQueued_of_queued (h.refreshQueued.trans hqueued)]
    exact h.refresh g

omit [Scalar α] in
/-- Destroying leaves nothing to disagree on. -/
theorem AgreesOn.destroy (h : m.AgreesOn c m') : m.destroy.AgreesOn c m'.destroy := by
  by_cases hphase : m.phase = .uninitialized
  · rwa [destroy_of_uninitialized hphase, destroy_of_uninitialized (h.phase.trans hphase)]
  · rw [destroy_of_ne hphase, destroy_of_ne (h.phase ▸ hphase)]
    exact ⟨h.basePrice, h.source, h.config, h.solver, rfl, .refl c _, rfl, rfl, rfl, rfl, rfl⟩

/-- **Every call** keeps markets in agreement, and answers the same but for events of others. -/
theorem AgreesOn.perform (h : m.AgreesOn c m') (call : Call α) :
    (m.perform call).1.AgreesOn c (m'.perform call).1 ∧
      (m'.perform call).2.about c = (m.perform call).2.about c := by
  cases call with
  | init g => exact h.init g
  | refresh g => exact h.refresh g
  | update g dt =>
    obtain ⟨hupdate, hevents⟩ := h.update g dt
    exact ⟨hupdate, congrArg Except.ok hevents⟩
  | updateAt g now =>
    obtain ⟨hupdate, hevents⟩ := h.updateAt g now
    exact ⟨hupdate, congrArg Except.ok hevents⟩
  -- The rest answer nothing.
  | queueRefresh => exact ⟨{ h with refreshQueued := rfl }, rfl⟩
  | execQueued g => exact h.execQueued g
  | destroy => exact ⟨h.destroy, rfl⟩
  | detach commodity => exact ⟨h.detach commodity, rfl⟩

/-! ### Runs -/

/-- What those of some calls that may matter to a commodity answer, without the events of others. -/
def answersAbout (c : Nat) (m : Market α) : List (Call α) → List (Answer α)
  | [] => []
  | call :: calls =>
    if call.concerns c then
      (m.perform call).2.about c :: (m.perform call).1.answersAbout c calls
    else (m.perform call).1.answersAbout c calls

/-- A call that does not matter to a commodity takes the source of another one away. -/
theorem agreesOn_perform_of_not_concerns (m : Market α) {call : Call α}
    (h : ¬call.concerns c = true) : m.AgreesOn c (m.perform call).1 := by
  cases call with
  | detach d =>
    have hd : d ≠ c := fun heq => h (beq_iff_eq.mpr heq)
    exact agreesOn_detach_of_ne m hd
  | _ => exact absurd rfl h

/-- **A run** may as well do without the calls that do not matter. -/
theorem AgreesOn.after_filter (h : m.AgreesOn c m') (calls : List (Call α)) :
    (m.after calls).AgreesOn c (m'.after (calls.filter (Call.concerns c))) ∧
      m'.answersAbout c (calls.filter (Call.concerns c)) = m.answersAbout c calls := by
  -- The first market makes every call; the second one waits while the first makes one of the
  -- others.
  induction calls generalizing m m' with
  | nil => exact ⟨h, rfl⟩
  | cons call calls ih =>
    by_cases hconcerns : call.concerns c = true
    · obtain ⟨hnext, hanswer⟩ := h.perform call
      obtain ⟨hafter, hanswers⟩ := ih hnext
      rw [List.filter_cons_of_pos hconcerns, answersAbout, answersAbout, if_pos hconcerns,
        if_pos hconcerns, hanswer, hanswers]
      exact ⟨hafter, rfl⟩
    · have hnext := (agreesOn_perform_of_not_concerns m hconcerns).symm.trans h
      rw [List.filter_cons_of_neg hconcerns, answersAbout, if_neg hconcerns]
      exact ih hnext

end Market

/-- **Commodities do not interfere.** Two markets of the same tuning and solver whose catalogs agree
on the base price and the source of a commodity stay in agreement on it. After any calls they are in
the same phase, with the same index and matrix and the same quotes of the commodity on every planet,
and they have reported the same events about it, whatever the other commodities are, and whenever
any of those loses its source in one market or the other. -/
theorem commodities_independent [Scalar α] {catalog catalog' : Catalog α} {config : Config α}
    {solver : Solver α} {m m' : Market α} (h : Market.ofConfig catalog config solver = .ok m)
    (h' : Market.ofConfig catalog' config solver = .ok m') {c : Nat}
    (hprice : catalog'.basePrices[c]? = catalog.basePrices[c]?)
    (hsource : catalog'.source? c = catalog.source? c) {calls calls' : List (Call α)}
    (hcalls : calls'.filter (Call.concerns c) = calls.filter (Call.concerns c)) :
    (m.after calls).AgreesOn c (m'.after calls') ∧
      m'.answersAbout c calls' = m.answersAbout c calls := by
  have hstart : m.AgreesOn c m' := by
    rw [(Market.ofConfig_eq_ok_iff.mp h).2, (Market.ofConfig_eq_ok_iff.mp h').2]
    exact ⟨hprice, hsource, rfl, rfl, rfl, .refl c _, rfl, rfl, rfl, rfl, rfl⟩
  -- Both runs come down to the one that is left when the calls that do not matter are struck.
  obtain ⟨hafter, hanswers⟩ := hstart.after_filter calls
  obtain ⟨hafter', hanswers'⟩ := (Market.AgreesOn.refl c m').after_filter calls'
  rw [hcalls] at hafter' hanswers'
  exact ⟨hafter.trans hafter'.symm, hanswers'.symm.trans hanswers⟩

/-- The standard goods, but for ore, which is dearer and has no source. -/
def oreless : Catalog Float :=
  let ore : Commodity := { name := "Ore", description := "", basePrice := 350 }
  ⟨(Catalog.standard : Catalog Float).listings.set 1 { commodity := ore }⟩

/-- For food it does not matter what becomes of ore, nor that luxury goods lose their source on the
way. -/
theorem commodities_independent_food :
    ∃ m m' : Market Float, Market.ofConfig .standard .standard .cholesky = .ok m ∧
      Market.ofConfig oreless .standard .cholesky = .ok m' ∧
      (m.after [.init couple, .update couple 1]).phase = .ready ∧
      (m.after [.init couple, .update couple 1]).AgreesOn 0
        (m'.after [.init couple, .detach 2, .update couple 1]) := by
  obtain ⟨_, hvalid⟩ := exists_eq_ok_of_isOk
    (show (Config.standard : Config Float).validate.isOk = true by decide +kernel)
  obtain ⟨⟨index, matrix⟩, hnetwork⟩ := exists_eq_ok_of_isOk
    (show (couple.network .standard).isOk = true by decide +kernel)
  let m : Market Float := { catalog := .standard, config := .standard, solver := .cholesky }
  let m' : Market Float := { catalog := oreless, config := .standard, solver := .cholesky }
  have hm : Market.ofConfig .standard .standard .cholesky = .ok m :=
    Market.ofConfig_eq_ok_iff.mpr ⟨hvalid, rfl⟩
  have hm' : Market.ofConfig oreless .standard .cholesky = .ok m' :=
    Market.ofConfig_eq_ok_iff.mpr ⟨hvalid, rfl⟩
  have hphase : (m.after [.init couple, .update couple 1]).phase = .ready := by
    obtain ⟨catalog, ledger, hupdate⟩ := (m.init couple).1.exists_update_fst couple 1
    show ((m.init couple).1.update couple 1).1.phase = .ready
    rw [hupdate, Market.init_of_uninitialized rfl]
    exact Market.phase_refresh_of_ok (by decide) hnetwork
  obtain ⟨hagrees, -⟩ := commodities_independent hm hm' (c := 0) rfl rfl
    (show [Call.init couple, .detach 2, .update couple 1].filter (Call.concerns 0) =
      [Call.init couple, .update couple 1].filter (Call.concerns 0) from rfl)
  exact ⟨m, m', hm, hm', hphase, hagrees⟩

end GalaxyMarket
