import GalaxyMarket.Proofs.Market.Run

/-!
# What a call can do

`Market.Step` lists the ways in which a call can leave a market, each with the guard under which it
is taken, and `Market.step_perform` says that there are no others. Eight sorts of calls come down to
seven sorts of steps: `init`, `refresh` and `execQueued` all end in a rebuild or in its refusal,
both ways of letting time pass end in a round of repricing, and everything that finds nothing to do
leaves the market as it is.

Invariants of runs are proved from here, one case for each step; `Market.after_induction` then
carries them through a whole run.
-/

namespace GalaxyMarket

variable {α : Type} [Scalar α]

namespace Market

/-- The market that a rebuild starts from. One that was never initialized gets a ledger first. -/
def opened (m : Market α) (g : Galaxy α) : Market α :=
  if m.phase = .uninitialized then
    { m with phase := .initialized, ledger := .ofGalaxy g m.catalog }
  else m

/-- The market that a refused rebuild leaves: in line with the galaxy, but without a matrix. -/
def refused (m : Market α) (g : Galaxy α) : Market α :=
  { m with
    phase := .initialized, refreshQueued := false, ledger := m.ledger.sync g, prepared? := none }

/-- A call that lets time pass in a galaxy, how much of it, and the clock afterwards. -/
inductive Passes (m : Market α) : Call α → Galaxy α → α → Option α → Prop
  | update (g : Galaxy α) (dt : α) : Passes m (.update g dt) g dt m.lastUpdate?
  | updateAt (g : Galaxy α) (now : α) :
      Passes m (.updateAt g now) g (m.lastUpdate?.elim 0 (now - ·)) (some now)

/-- What a call can do to a market `m`, with its answer. -/
inductive Step (m : Market α) : Call α → Market α → Answer α → Prop
  /-- There was nothing to do. -/
  | idle (call : Call α) : Step m call m (.ok [])
  | queued : Step m .queueRefresh { m with refreshQueued := true } (.ok [])
  | detached (commodity : Nat) :
      Step m (.detach commodity) { m with catalog := m.catalog.setSource commodity none } (.ok [])
  | destroyed :
      Step m .destroy { catalog := m.catalog, config := m.config, solver := m.solver } (.ok [])
  /-- A market that is ready reprices every commodity. -/
  | passed {call : Call α} {g : Galaxy α} {dt : α} {clock : Option α} {prepared : Prepared α}
      (hcall : m.Passes call g dt clock) (hphase : m.phase = .ready)
      (hprepared : m.prepared? = some prepared) {round : Market α × List (Event α)}
      (hround : { m with lastUpdate? := clock }.repriceAll g (elapsed dt) prepared
        (List.range m.catalog.size) = round) :
      Step m call round.1 (.ok round.2)
  /-- The network of the galaxy has no matrix. -/
  | refused {call : Call α} {g : Galaxy α} {e : NetworkError α} (hcall : call.rebuilds? = some g)
      (hnetwork : g.network m.config = .error e) :
      Step m call ((m.opened g).refused g) (.error e)
  /-- The market takes over the network of the galaxy and reprices at once. -/
  | rebuilt {call : Call α} {g : Galaxy α} {index : SystemIndex} {matrix : SparseMatrix α}
      (hcall : call.rebuilds? = some g) (hnetwork : g.network m.config = .ok (index, matrix))
      {round : Market α × List (Event α)}
      (hround : ((m.opened g).rebuilt g index matrix).repriceAll g (elapsed 0)
        (m.solver.prepare matrix) (List.range m.catalog.size) = round) :
      Step m call round.1 (.ok (.refreshed index.size matrix.size :: round.2))

variable {m : Market α} {g : Galaxy α}

/-- A market that was initialized is not opened again. -/
theorem opened_of_ne (h : m.phase ≠ .uninitialized) : m.opened g = m := if_neg h

/-- One that was not gets its first ledger. -/
theorem opened_of_uninitialized (h : m.phase = .uninitialized) :
    m.opened g = { m with phase := .initialized, ledger := .ofGalaxy g m.catalog } := if_pos h

/-- Opening a market touches its phase and its ledger only. -/
theorem exists_opened (m : Market α) (g : Galaxy α) :
    ∃ phase ledger, phase ≠ .uninitialized ∧ m.opened g = { m with phase, ledger } := by
  by_cases h : m.phase = .uninitialized
  · exact ⟨.initialized, _, by decide, opened_of_uninitialized h⟩
  · exact ⟨_, _, h, opened_of_ne h⟩

/-- After that it is initialized. -/
theorem opened_phase_ne (m : Market α) (g : Galaxy α) : (m.opened g).phase ≠ .uninitialized := by
  obtain ⟨phase, ledger, hphase, hopened⟩ := m.exists_opened g
  rw [hopened]
  exact hphase

/-- **Opening a market** ends in a rebuild, if the network has a matrix. -/
theorem init_of_ok (hphase : m.phase = .uninitialized) {index : SystemIndex}
    {matrix : SparseMatrix α} (hnetwork : g.network m.config = .ok (index, matrix)) :
    m.init g = ((((m.opened g).rebuilt g index matrix).update g 0).1,
      .ok (.refreshed index.size matrix.size ::
        (((m.opened g).rebuilt g index matrix).update g 0).2)) := by
  have hconfig : (m.opened g).config = m.config := by
    rw [opened_of_uninitialized hphase]
  rw [init_of_uninitialized hphase, ← opened_of_uninitialized hphase]
  exact refresh_of_ok (m.opened_phase_ne g) (hconfig.symm ▸ hnetwork)

/-- Opening leaves the rebuilt market with other prices and other sources. -/
theorem exists_init_fst (hphase : m.phase = .uninitialized) {index : SystemIndex}
    {matrix : SparseMatrix α} (hnetwork : g.network m.config = .ok (index, matrix)) :
    ∃ catalog ledger,
      (m.init g).1 = { (m.opened g).rebuilt g index matrix with catalog, ledger } := by
  rw [init_of_ok hphase hnetwork]
  exact exists_update_fst ..

/-! ### Every call is such a step -/

/-- A rebuild succeeds or is refused. -/
theorem step_refresh (m : Market α) {call : Call α} (hcall : call.rebuilds? = some g) :
    m.Step call ((m.opened g).refresh g).1 ((m.opened g).refresh g).2 := by
  obtain ⟨phase, ledger, -, hopened⟩ := m.exists_opened g
  have hphase : (m.opened g).phase ≠ .uninitialized := m.opened_phase_ne g
  have hconfig : (m.opened g).config = m.config := by rw [hopened]
  have hsolver : (m.opened g).solver = m.solver := by rw [hopened]
  have hsize : (m.opened g).catalog.size = m.catalog.size := by rw [hopened]
  cases hnetwork : g.network m.config with
  | error e =>
    rw [refresh_of_error hphase (hconfig.symm ▸ hnetwork)]
    exact .refused hcall hnetwork
  | ok network =>
    obtain ⟨index, matrix⟩ := network
    -- A rebuilt market is ready, so that its update does reprice.
    have hupdate : ((m.opened g).rebuilt g index matrix).update g 0 =
        ((m.opened g).rebuilt g index matrix).repriceAll g (elapsed 0)
          ((m.opened g).solver.prepare matrix) (List.range (m.opened g).catalog.size) :=
      update_of_ready rfl rfl
    rw [refresh_of_ok hphase (hconfig.symm ▸ hnetwork), hupdate, hsolver, hsize]
    exact .rebuilt hcall hnetwork rfl

/-- Of a market that was initialized, a refresh is a rebuild right away. -/
theorem step_refresh_of_ne {call : Call α} (hcall : call.rebuilds? = some g)
    (hphase : m.phase ≠ .uninitialized) : m.Step call (m.refresh g).1 (m.refresh g).2 := by
  have hstep := m.step_refresh hcall
  rwa [opened_of_ne hphase] at hstep

/-- An update of a market with a clock reprices, or there is nothing to do. -/
theorem step_update {call : Call α} {dt : α} {clock : Option α} (hcall : m.Passes call g dt clock)
    (hphase : m.phase = .ready) {prepared : Prepared α} (hprepared : m.prepared? = some prepared) :
    m.Step call (update { m with lastUpdate? := clock } g dt).1
      (.ok (update { m with lastUpdate? := clock } g dt).2) := by
  -- An update looks at the phase and the matrix, which the clock does not touch.
  have hupdate : update { m with lastUpdate? := clock } g dt =
      { m with lastUpdate? := clock }.repriceAll g (elapsed dt) prepared
        (List.range m.catalog.size) := update_of_ready hphase hprepared
  rw [hupdate]
  exact .passed hcall hphase hprepared rfl

/-- **Every call does one of these things**, as long as a market that is ready has a matrix. -/
theorem step_perform (hready : m.phase = .ready → ∃ prepared, m.prepared? = some prepared)
    (call : Call α) : m.Step call (m.perform call).1 (m.perform call).2 := by
  -- One case for each sort of call; the phase decides whether there is anything to do.
  cases call with
  | init g =>
    change m.Step (.init g) (m.init g).1 (m.init g).2
    by_cases hphase : m.phase = .uninitialized
    · rw [init_of_uninitialized hphase, ← opened_of_uninitialized hphase]
      exact m.step_refresh rfl
    · rw [init_of_ne hphase]
      exact .idle _
  | refresh g =>
    change m.Step (.refresh g) (m.refresh g).1 (m.refresh g).2
    by_cases hphase : m.phase = .uninitialized
    · rw [refresh_of_uninitialized hphase]
      exact .idle _
    · exact step_refresh_of_ne rfl hphase
  | update g dt =>
    change m.Step (.update g dt) (m.update g dt).1 (.ok (m.update g dt).2)
    by_cases hphase : m.phase = .ready
    · obtain ⟨prepared, hprepared⟩ := hready hphase
      exact step_update (.update g dt) hphase hprepared
    · rw [update_of_phase_ne hphase]
      exact .idle _
  | updateAt g now =>
    change m.Step (.updateAt g now) (m.updateAt g now).1 (.ok (m.updateAt g now).2)
    by_cases hphase : m.phase = .ready
    · obtain ⟨prepared, hprepared⟩ := hready hphase
      rw [updateAt_of_ready hphase]
      exact step_update (.updateAt g now) hphase hprepared
    · rw [updateAt_of_phase_ne hphase]
      exact .idle _
  | queueRefresh => exact .queued
  | execQueued g =>
    change m.Step (.execQueued g) (m.execQueued g).1 (m.execQueued g).2
    cases hqueued : m.refreshQueued with
    | false =>
      rw [execQueued_of_not_queued hqueued]
      exact .idle _
    | true =>
      rw [execQueued_of_queued hqueued]
      by_cases hphase : m.phase = .uninitialized
      · rw [refresh_of_uninitialized hphase]
        exact .idle _
      · exact step_refresh_of_ne rfl hphase
  | destroy =>
    change m.Step .destroy m.destroy (.ok [])
    by_cases hphase : m.phase = .uninitialized
    · rw [destroy_of_uninitialized hphase]
      exact .idle _
    · rw [destroy_of_ne hphase]
      exact .destroyed
  | detach commodity => exact .detached commodity

end Market

end GalaxyMarket
