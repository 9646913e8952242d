import GalaxyMarket.Market.Basic
import GalaxyMarket.Proofs.Market.Pass

/-!
# Runs of a market

A run is a list of calls to a market, each with the galaxy that it is shown; nothing ties the galaxy
of one call to that of the next. `Market.after` is the market at the end of a run and
`Market.answers` what the calls answered.

Beside them stand the lemmas that later proofs about runs go by. An update leaves all of a market
but its catalog and its ledger as it is (`Market.exists_update_fst`), and a refresh does one of
three things (`Market.refresh_of_uninitialized`, `Market.refresh_of_error`, `Market.refresh_of_ok`).
-/

namespace GalaxyMarket

/-- A call to a market. -/
inductive Call (α : Type) where
  | init (g : Galaxy α)
  | refresh (g : Galaxy α)
  | update (g : Galaxy α) (dt : α)
  | updateAt (g : Galaxy α) (now : α)
  | queueRefresh
  | execQueued (g : Galaxy α)
  | destroy
  | detach (commodity : Nat)

/-- What a call answers: the events that it made happen, or why there is no matrix. -/
abbrev Answer (α : Type) := Except (NetworkError α) (List (Event α))

/-- The galaxy whose network a call may take over. -/
def Call.rebuilds? {α : Type} : Call α → Option (Galaxy α)
  | init g | refresh g | execQueued g => some g
  | _ => none

/-- A commodity that is listed with a source has that source. -/
theorem Catalog.source?_of_listing {α : Type} {catalog : Catalog α} {commodity : Nat}
    {good : Commodity} {source : Source α}
    (h : catalog.listings[commodity]? = some ⟨good, some source⟩) :
    catalog.source? commodity = some source := by
  rw [source?, h]
  rfl

namespace Market

variable {α : Type} [Scalar α]

/-- **A market is made** from every tuning that makes sense, and is not initialized then. -/
theorem ofConfig_eq_ok_iff {catalog : Catalog α} {config : Config α} {solver : Solver α}
    {m : Market α} : ofConfig catalog config solver = .ok m ↔
      config.validate = .ok () ∧ m = { catalog, config, solver } := by
  unfold ofConfig
  -- The tuning is all that is checked.
  cases hvalid : config.validate with
  | error e => exact ⟨fun h => (nomatch h), fun h => (nomatch h.1)⟩
  | ok _ => exact ⟨fun h => ⟨rfl, (Except.ok.inj h).symm⟩, fun h => congrArg Except.ok h.2.symm⟩

/-- Makes a call. -/
def perform (m : Market α) : Call α → Market α × Answer α
  | .init g => m.init g
  | .refresh g => m.refresh g
  | .update g dt => ((m.update g dt).1, .ok (m.update g dt).2)
  | .updateAt g now => ((m.updateAt g now).1, .ok (m.updateAt g now).2)
  | .queueRefresh => (m.queueRefresh, .ok [])
  | .execQueued g => m.execQueued g
  | .destroy => (m.destroy, .ok [])
  | .detach commodity => (m.detach commodity, .ok [])

/-- The market after some calls. -/
def after (m : Market α) (calls : List (Call α)) : Market α :=
  calls.foldl (fun m call => (m.perform call).1) m

/-- What some calls answer, in order. -/
def answers (m : Market α) : List (Call α) → List (Answer α)
  | [] => []
  | call :: calls => (m.perform call).2 :: (m.perform call).1.answers calls

/-- A run without calls leaves the market as it was. -/
theorem after_nil (m : Market α) : m.after [] = m := rfl

/-- A run goes on from the market that its first call left. -/
@[simp] theorem after_cons (m : Market α) (call : Call α) (calls : List (Call α)) :
    m.after (call :: calls) = (m.perform call).1.after calls := rfl

/-- What every call of a run preserves holds at its end. -/
theorem after_induction {P : Market α → Prop} {calls : List (Call α)}
    (hstep : ∀ m, ∀ call ∈ calls, P m → P (m.perform call).1) {m : Market α} (hm : P m) :
    P (m.after calls) := by
  -- The market at the start changes from call to call, so that the induction is for all of them.
  induction calls generalizing m with
  | nil => exact hm
  | cons call calls ih =>
    rw [after_cons]
    exact ih (fun m call hcall => hstep m call (List.mem_cons_of_mem _ hcall))
      (hstep m call List.mem_cons_self hm)

/-- An answer of a run is that of one call, made to a market in which everything holds that the
calls preserve. -/
theorem exists_of_mem_answers {P : Market α → Prop} {calls : List (Call α)}
    (hstep : ∀ m, ∀ call ∈ calls, P m → P (m.perform call).1) {m : Market α} (hm : P m)
    {answer : Answer α} (h : answer ∈ m.answers calls) :
    ∃ m', ∃ call ∈ calls, P m' ∧ answer = (m'.perform call).2 := by
  -- The market changes from call to call, what it satisfies does not.
  induction calls generalizing m with
  | nil => cases h
  | cons call calls ih =>
    rcases List.mem_cons.mp h with rfl | h
    · exact ⟨m, call, List.mem_cons_self, hm, rfl⟩
    · obtain ⟨m', call', hcall', hm', hanswer⟩ :=
        ih (fun m call hcall => hstep m call (List.mem_cons_of_mem _ hcall))
          (hstep m call List.mem_cons_self hm) h
      exact ⟨m', call', List.mem_cons_of_mem _ hcall', hm', hanswer⟩

/-! ### Updates -/

variable (m : Market α) (g : Galaxy α) (dt : α)

/-- The intensities of a commodity, and the market with its trackers moved and its source drawn
from.
-/
def advance (commodity : Nat) (source : Source α) : List α × Market α :=
  let pass := Pass.systems m.config dt g commodity { source, ledger := m.ledger } m.index.keys
  (pass.1, { m with
    catalog := m.catalog.setSource commodity (some pass.2.source), ledger := pass.2.ledger })

/-- What is made of the answer of a solve for a commodity. -/
def settle (commodity : Nat) (basePrice : Int) :
    Except SolveError (List α) → Market α × List (Event α)
  | .error reason => (m, [.solveFailed commodity reason])
  | .ok potentials =>
    match normalize? potentials with
    | none => (m, [])
    | some multipliers =>
      ({ m with
        ledger := m.ledger.writePrices g m.index commodity basePrice multipliers.values },
        [.pricesUpdated commodity multipliers.least multipliers.greatest])

variable {m g dt} in
/-- **Repricing** a commodity that has a source. -/
theorem reprice_eq {prepared : Prepared α} {commodity : Nat} {good : Commodity}
    {source : Source α} (h : m.catalog.listings[commodity]? = some ⟨good, some source⟩) :
    m.reprice g dt prepared commodity =
      (m.advance g dt commodity source).2.settle g commodity good.basePrice
        (prepared.solve (m.advance g dt commodity source).1) := by
  rw [reprice, h]
  rfl

variable {m g dt} in
/-- **Repricing** a commodity without a source does nothing. -/
theorem reprice_of_source?_eq_none {prepared : Prepared α} {commodity : Nat}
    (h : m.catalog.source? commodity = none) : m.reprice g dt prepared commodity = (m, []) := by
  rw [reprice]
  split
  · next hlisting => simp [Catalog.source?, hlisting] at h
  · rfl

/-- Whatever a solve answered, nothing but the ledger is written. -/
theorem exists_settle_fst (commodity : Nat) (basePrice : Int)
    (answer : Except SolveError (List α)) :
    ∃ ledger, (m.settle g commodity basePrice answer).1 = { m with ledger } := by
  unfold settle
  split
  · exact ⟨_, rfl⟩
  -- Prices are written if the potentials could be rescaled.
  · split <;> exact ⟨_, rfl⟩

omit [Scalar α] in
/-- A commodity has a source, or there is nothing to reprice. -/
theorem source?_cases (commodity : Nat) : m.catalog.source? commodity = none ∨
    ∃ good source, m.catalog.listings[commodity]? = some ⟨good, some source⟩ := by
  cases hlisting : m.catalog.listings[commodity]? with
  | none => exact Or.inl (by rw [Catalog.source?, hlisting]; rfl)
  | some listing =>
    obtain ⟨good, source?⟩ := listing
    cases source? with
    | none => exact Or.inl (by rw [Catalog.source?, hlisting]; rfl)
    | some source => exact Or.inr ⟨good, source, rfl⟩

/-- Repricing one commodity changes the catalog, for the source that is drawn from, and the ledger.
-/
theorem exists_reprice_fst (prepared : Prepared α) (commodity : Nat) :
    ∃ catalog ledger, (m.reprice g dt prepared commodity).1 = { m with catalog, ledger } := by
  rcases m.source?_cases commodity with h | ⟨good, source, h⟩
  · rw [reprice_of_source?_eq_none h]
    exact ⟨_, _, rfl⟩
  · obtain ⟨ledger, hsettle⟩ := (m.advance g dt commodity source).2.exists_settle_fst g commodity
      good.basePrice (prepared.solve (m.advance g dt commodity source).1)
    -- The advance wrote both of them already, and the prices come into the same ledger.
    rw [reprice_eq h, hsettle]
    exact ⟨_, _, rfl⟩

/-- Commodities are repriced one after the other, and their events follow each other. -/
theorem repriceAll_cons (prepared : Prepared α) (commodity : Nat) (commodities : List Nat) :
    m.repriceAll g dt prepared (commodity :: commodities) =
      (((m.reprice g dt prepared commodity).1.repriceAll g dt prepared commodities).1,
        (m.reprice g dt prepared commodity).2 ++
          ((m.reprice g dt prepared commodity).1.repriceAll g dt prepared commodities).2) := rfl

/-- So does repricing any number of them. -/
theorem exists_repriceAll_fst (prepared : Prepared α) (commodities : List Nat) :
    ∃ catalog ledger, (m.repriceAll g dt prepared commodities).1 = { m with catalog, ledger } := by
  -- Each commodity is repriced in the market that the one before left.
  induction commodities generalizing m with
  | nil => exact ⟨_, _, rfl⟩
  | cons commodity commodities ih =>
    obtain ⟨catalog, ledger, hfirst⟩ := m.exists_reprice_fst g dt prepared commodity
    obtain ⟨catalog', ledger', hrest⟩ := ih (m.reprice g dt prepared commodity).1
    exact ⟨catalog', ledger', by rw [repriceAll_cons, hrest, hfirst]⟩

section

variable {m g dt}

/-- **An update of a market that is ready** is one round over all commodities of the catalog. -/
theorem update_of_ready {prepared : Prepared α} (hphase : m.phase = .ready)
    (hprepared : m.prepared? = some prepared) : m.update g dt =
      m.repriceAll g (elapsed dt) prepared (List.range m.catalog.size) := by
  rw [update, hphase, hprepared]

/-- A market that is not ready does nothing. -/
theorem update_of_phase_ne (h : m.phase ≠ .ready) : m.update g dt = (m, []) := by
  rw [update]
  split
  · next hphase _ => exact absurd hphase h
  · rfl

/-- Nor does one without a matrix. -/
theorem update_of_prepared?_eq_none (h : m.prepared? = none) : m.update g dt = (m, []) := by
  rw [update]
  split
  · next hprepared =>
    rw [h] at hprepared
    cases hprepared
  · rfl

/-- An update by the clock takes the time since the last one. -/
theorem updateAt_of_ready {now : α} (h : m.phase = .ready) : m.updateAt g now =
    update { m with lastUpdate? := some now } g (m.lastUpdate?.elim 0 (now - ·)) := by
  rw [updateAt, h]

/-- Without a matrix not even the time is noted. -/
theorem updateAt_of_phase_ne {now : α} (h : m.phase ≠ .ready) : m.updateAt g now = (m, []) := by
  rw [updateAt]
  split
  · next hphase => exact absurd hphase h
  · rfl

end

/-- **An update** changes the catalog, whose sources are drawn from, and the ledger. -/
theorem exists_update_fst :
    ∃ catalog ledger, (m.update g dt).1 = { m with catalog, ledger } := by
  rw [update]
  split
  · exact m.exists_repriceAll_fst ..
  · exact ⟨_, _, rfl⟩

/-- An update by the clock remembers the time besides. -/
theorem exists_updateAt_fst (now : α) : ∃ catalog ledger lastUpdate?,
    (m.updateAt g now).1 = { m with catalog, ledger, lastUpdate? } := by
  by_cases hphase : m.phase = .ready
  · obtain ⟨catalog, ledger, h⟩ := exists_update_fst { m with lastUpdate? := some now } g
      (m.lastUpdate?.elim 0 (now - ·))
    rw [updateAt_of_ready hphase, h]
    exact ⟨_, _, _, rfl⟩
  · rw [updateAt_of_phase_ne hphase]
    exact ⟨_, _, _, rfl⟩

/-- A solve that is reported as failed was asked for as many intensities as there are systems. -/
theorem exists_of_mem_reprice {prepared : Prepared α} {commodity c : Nat} {reason : SolveError}
    (h : .solveFailed c reason ∈ (m.reprice g dt prepared commodity).2) :
    ∃ b, b.length = m.index.size ∧ prepared.solve b = .error reason := by
  rcases m.source?_cases commodity with hsource | ⟨good, source, hlisting⟩
  · rw [reprice_of_source?_eq_none hsource] at h
    cases h
  · rw [reprice_eq hlisting] at h
    cases hsolve : prepared.solve (m.advance g dt commodity source).1 with
    | error reason' =>
      rw [hsolve, settle] at h
      obtain ⟨-, rfl⟩ : c = commodity ∧ reason = reason' := by simpa using h
      exact ⟨_, Pass.length_systems .., hsolve⟩
    -- Where a solve succeeded, prices may be reported but no failure.
    | ok potentials =>
      rw [hsolve, settle] at h
      split at h <;> simp at h

/-- **A solve that is reported as failed** did fail. -/
theorem exists_of_mem_repriceAll {prepared : Prepared α} {commodities : List Nat} {c : Nat}
    {reason : SolveError}
    (h : .solveFailed c reason ∈ (m.repriceAll g dt prepared commodities).2) :
    ∃ b, b.length = m.index.size ∧ prepared.solve b = .error reason := by
  induction commodities generalizing m with
  | nil => cases h
  | cons commodity commodities ih =>
    rw [repriceAll_cons] at h
    rcases List.mem_append.mp h with h | h
    · exact m.exists_of_mem_reprice g dt h
    · -- Repricing leaves the index as it is.
      obtain ⟨catalog, ledger, hfirst⟩ := m.exists_reprice_fst g dt prepared commodity
      have hrest := ih _ h
      rwa [hfirst] at hrest

/-- **A failure that an update reports** is one of the matrix that the market keeps. -/
theorem exists_of_mem_update {c : Nat} {reason : SolveError}
    (h : .solveFailed c reason ∈ (m.update g dt).2) :
    ∃ prepared, m.prepared? = some prepared ∧
      ∃ b, b.length = m.index.size ∧ prepared.solve b = .error reason := by
  rw [update] at h
  split at h
  · next prepared _ hprepared => exact ⟨prepared, hprepared, m.exists_of_mem_repriceAll _ _ h⟩
  · cases h

/-! ### Refreshes -/

/-- A market that took over the network of a galaxy, before it writes prices. -/
def rebuilt (index : SystemIndex) (matrix : SparseMatrix α) : Market α :=
  { m with
    phase := .ready, refreshQueued := false, ledger := m.ledger.sync g, index, matrix
    prepared? := some (m.solver.prepare matrix) }

variable {m g}

/-- **A refresh** does nothing before the market is initialized, -/
theorem refresh_of_uninitialized (h : m.phase = .uninitialized) : m.refresh g = (m, .ok []) := by
  rw [refresh, if_pos (beq_iff_eq.mpr h)]

/-- leaves it without a matrix if the network of the galaxy has none, -/
theorem refresh_of_error (h : m.phase ≠ .uninitialized) {e : NetworkError α}
    (hnetwork : g.network m.config = .error e) :
    m.refresh g = ({ m with
      phase := .initialized, refreshQueued := false, ledger := m.ledger.sync g
      prepared? := none }, .error e) := by
  rw [refresh, if_neg (by simpa using h)]
  dsimp only
  rw [hnetwork]

/-- and else takes over the network and writes prices, though no time passes. -/
theorem refresh_of_ok (h : m.phase ≠ .uninitialized) {index : SystemIndex}
    {matrix : SparseMatrix α} (hnetwork : g.network m.config = .ok (index, matrix)) :
    m.refresh g = (((m.rebuilt g index matrix).update g 0).1,
      .ok (.refreshed index.size matrix.size :: ((m.rebuilt g index matrix).update g 0).2)) := by
  rw [refresh, if_neg (by simpa using h)]
  dsimp only
  rw [hnetwork]
  rfl

/-- To initialize a market is to open a ledger for the galaxy and refresh. -/
theorem init_of_uninitialized (h : m.phase = .uninitialized) :
    m.init g =
      refresh { m with phase := .initialized, ledger := .ofGalaxy g m.catalog } g := by
  rw [init, if_pos (beq_iff_eq.mpr h)]

/-- The second time nothing is done. -/
theorem init_of_ne (h : m.phase ≠ .uninitialized) : m.init g = (m, .ok []) := by
  rw [init, if_neg (by simpa using h)]

/-- A refresh that was asked for is made now, -/
theorem execQueued_of_queued (h : m.refreshQueued = true) : m.execQueued g = m.refresh g :=
  if_pos h

/-- and none is made that was not. -/
theorem execQueued_of_not_queued (h : m.refreshQueued = false) : m.execQueued g = (m, .ok []) :=
  if_neg (Bool.eq_false_iff.mp h)

omit [Scalar α] in
/-- Before it is initialized there is nothing to destroy, -/
theorem destroy_of_uninitialized (h : m.phase = .uninitialized) : m.destroy = m :=
  if_pos (beq_iff_eq.mpr h)

omit [Scalar α] in
/-- and afterwards all that was not given to the market at its start is forgotten. -/
theorem destroy_of_ne (h : m.phase ≠ .uninitialized) :
    m.destroy = { catalog := m.catalog, config := m.config, solver := m.solver } :=
  if_neg (by simpa using h)

end Market

end GalaxyMarket
