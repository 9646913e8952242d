import Mathlib
import GalaxyMarket.Galaxy.Shape
import GalaxyMarket.Proofs.Linear.Lengths
import GalaxyMarket.Proofs.Market.Network
import GalaxyMarket.Proofs.Market.Step

/-!
# The life of a market

A market is ready exactly as long as it holds a prepared matrix, and that matrix is the one of the
galaxy which the last successful refresh was shown, however often the market was refused another
one, destroyed or initialized again since it was made (`lifecycle`).

What a refresh was shown is not kept in the market. It is read off the run: `lastRefreshed?` is the
galaxy of the last call whose answer reports a new matrix. The invariant `Living` ties it to the
fields of the market. It is preserved by every step (`Living.step`): a rebuild establishes it, a
refusal and a destruction drop the matrix together with the phase, and a round of repricing changes
nothing that it speaks of. Since the index, the matrix and what was prepared from it never get out
of step, no solve is ever asked for a right-hand side of the wrong length.
-/

namespace GalaxyMarket

variable {α : Type} [Scalar α]

/-- Whether an answer reports a new matrix. -/
def Answer.isRefreshed : Answer α → Bool
  | .ok (.refreshed .. :: _) => true
  | _ => false

/-- Whether an event is a solve that was refused for the length of its right-hand side. -/
def Event.IsDimensionMismatch : Event α → Prop
  | .solveFailed _ (.dimensionMismatch ..) => True
  | _ => False

namespace Market

/-- The galaxy of the last call whose answer reports a new matrix, or else `last?`. -/
def refreshedSince (last? : Option (Galaxy α)) (m : Market α) :
    List (Call α) → Option (Galaxy α)
  | [] => last?
  | call :: calls =>
    let (next, answer) := m.perform call
    next.refreshedSince (if answer.isRefreshed then call.rebuilds? else last?) calls

/-- The galaxy that the last successful refresh of a run was shown. -/
def lastRefreshed? (m : Market α) (calls : List (Call α)) : Option (Galaxy α) :=
  m.refreshedSince none calls

/-- A market in the middle of a run whose last successful refresh was shown `last?`. -/
structure Living (config : Config α) (solver : Solver α) (last? : Option (Galaxy α))
    (m : Market α) : Prop where
  config_eq : m.config = config
  solver_eq : m.solver = solver
  phase_ne : m.phase ≠ .refreshing
  prepared_of_ready : m.phase = .ready → m.prepared? = some (solver.prepare m.matrix)
  ready_of_prepared : m.phase ≠ .ready → m.prepared? = none
  network : m.phase = .ready → ∃ g, last? = some g ∧ g.network config = .ok (m.index, m.matrix)
  empty : m.phase = .uninitialized →
    m.ledger = {} ∧ m.index = {} ∧ m.matrix = {} ∧ m.lastUpdate? = none

variable {config : Config α} {solver : Solver α} {last? : Option (Galaxy α)} {m next : Market α}
  {g : Galaxy α} {call : Call α} {answer : Answer α}

/-- The index, the matrix and what was prepared are of one size. -/
theorem Living.sizes (h : m.Living config solver last?) (hphase : m.phase = .ready) :
    m.index.size = m.matrix.dim ∧ (solver.prepare m.matrix).dim = m.matrix.dim := by
  obtain ⟨g, -, hnetwork⟩ := h.network hphase
  exact ⟨(Galaxy.dim_network hnetwork).2.symm, Solver.dim_prepare solver m.matrix⟩

/-- A market that was just made, or destroyed, whatever it was refreshed with before. -/
theorem living_fresh (catalog : Catalog α) (config : Config α) (solver : Solver α)
    (last? : Option (Galaxy α)) :
    ({ catalog, config, solver } : Market α).Living config solver last? where
  config_eq := rfl
  solver_eq := rfl
  phase_ne hphase := nomatch hphase
  prepared_of_ready hphase := nomatch hphase
  ready_of_prepared _ := rfl
  network hphase := nomatch hphase
  empty _ := ⟨rfl, rfl, rfl, rfl⟩

/-- A market starts its life empty and without a refresh. -/
theorem living_ofConfig {catalog : Catalog α} (h : ofConfig catalog config solver = .ok m) :
    m.Living config solver none := by
  rw [(ofConfig_eq_ok_iff.mp h).2]
  exact living_fresh catalog config solver none

/-- Nothing that a round of repricing changes, nor the clock, matters while a market is ready. -/
theorem Living.of_ready (h : m.Living config solver last?) (hphase : m.phase = .ready)
    (catalog : Catalog α) (ledger : Ledger α) (clock : Option α) :
    { m with catalog, ledger, lastUpdate? := clock }.Living config solver last? where
  config_eq := h.config_eq
  solver_eq := h.solver_eq
  phase_ne := h.phase_ne
  prepared_of_ready := h.prepared_of_ready
  ready_of_prepared := h.ready_of_prepared
  network := h.network
  empty hempty := by
    have : Phase.ready = .uninitialized := hphase.symm.trans hempty
    cases this

/-- A market lives on what it just took over. -/
theorem Living.rebuilt (h : m.Living config solver last?) {index : SystemIndex}
    {matrix : SparseMatrix α} (hnetwork : g.network config = .ok (index, matrix)) :
    ((m.opened g).rebuilt g index matrix).Living config solver (some g) := by
  obtain ⟨phase, ledger, -, hopened⟩ := m.exists_opened g
  rw [hopened]
  exact {
    config_eq := h.config_eq
    solver_eq := h.solver_eq
    phase_ne := fun hphase => nomatch hphase
    prepared_of_ready := fun _ => by
      show some (m.solver.prepare matrix) = some (solver.prepare matrix)
      rw [h.solver_eq]
    ready_of_prepared := fun hphase => absurd rfl hphase
    network := fun _ => ⟨g, rfl, hnetwork⟩
    empty := fun hphase => nomatch hphase }

/-- A refresh that is not refused makes a market ready. -/
theorem phase_refresh_of_ok (hphase : m.phase ≠ .uninitialized) {index : SystemIndex}
    {matrix : SparseMatrix α} (hnetwork : g.network m.config = .ok (index, matrix)) :
    (m.refresh g).1.phase = .ready := by
  obtain ⟨catalog, ledger, hupdate⟩ := (m.rebuilt g index matrix).exists_update_fst g 0
  rw [refresh_of_ok hphase hnetwork, hupdate]
  rfl

/-! ### Events of a round -/

/-- No event of a round reports a new matrix. -/
theorem isRefreshed_repriceAll (m : Market α) (g : Galaxy α) (dt : α) (prepared : Prepared α)
    (commodities : List Nat) :
    Answer.isRefreshed (.ok (m.repriceAll g dt prepared commodities).2) = false := by
  have hreprice : ∀ (m : Market α) (commodity : Nat) (later : List (Event α)),
      Answer.isRefreshed (.ok later) = false →
      Answer.isRefreshed (.ok ((m.reprice g dt prepared commodity).2 ++ later)) = false := by
    intro m commodity later hlater
    rcases m.source?_cases commodity with hnone | ⟨good, source, hlisting⟩
    · rw [reprice_of_source?_eq_none hnone]
      exact hlater
    · rw [reprice_eq hlisting]
      unfold settle
      split
      · rfl
      · split
        · exact hlater
        · rfl
  -- Commodity by commodity: a solve or its failure is reported, or nothing at all.
  induction commodities generalizing m with
  | nil => rfl
  | cons commodity commodities ih =>
    rw [repriceAll_cons]
    exact hreprice m commodity _ (ih _)

/-- In a round, the right-hand sides have the length of the index. -/
theorem not_isDimensionMismatch_of_mem_repriceAll {m : Market α} {dt : α} {prepared : Prepared α}
    (hdim : m.index.size = prepared.dim) {commodities : List Nat} {event : Event α}
    (h : event ∈ (m.repriceAll g dt prepared commodities).2) : ¬event.IsDimensionMismatch := by
  intro hbad
  obtain ⟨c, expected, actual, rfl⟩ : ∃ c expected actual,
      event = .solveFailed c (.dimensionMismatch expected actual) := by
    unfold Event.IsDimensionMismatch at hbad
    split at hbad
    · exact ⟨_, _, _, rfl⟩
    · cases hbad
  -- The event comes from a solve with a right-hand side as long as the index.
  obtain ⟨b, hlength, hsolve⟩ := m.exists_of_mem_repriceAll g dt h
  exact Prepared.solve_ne_dimensionMismatch (hlength.trans hdim) expected actual hsolve

/-! ### One step -/

/-- **Every step keeps a market alive**, with the galaxy of the step if it reports a new matrix. -/
theorem Living.step (h : m.Living config solver last?) (hstep : m.Step call next answer) :
    next.Living config solver (if answer.isRefreshed then call.rebuilds? else last?) := by
  cases hstep with
  | idle => exact h
  | queued => exact { h with }
  | detached commodity => exact { h with }
  | destroyed =>
    -- Nothing but the catalog, the tuning and the solver survives.
    rw [h.config_eq, h.solver_eq]
    exact living_fresh m.catalog config solver last?
  | @passed _ g dt clock prepared hcall hphase hprepared round hround =>
    obtain ⟨catalog, ledger, hfirst⟩ := exists_repriceAll_fst { m with lastUpdate? := clock } g
      (elapsed dt) prepared (List.range m.catalog.size)
    subst hround
    rw [isRefreshed_repriceAll, hfirst]
    exact h.of_ready hphase catalog ledger clock
  | @refused _ g e hcall hnetwork =>
    obtain ⟨phase, ledger, -, hopened⟩ := m.exists_opened g
    rw [hopened]
    exact ⟨h.config_eq, h.solver_eq, fun hphase => (nomatch hphase), fun hphase => (nomatch hphase),
      fun _ => rfl, fun hphase => (nomatch hphase), fun hphase => (nomatch hphase)⟩
  | @rebuilt _ g index matrix hcall hnetwork round hround =>
    have hrebuilt := h.rebuilt (h.config_eq ▸ hnetwork)
    obtain ⟨catalog, ledger, hfirst⟩ :=
      ((m.opened g).rebuilt g index matrix).exists_repriceAll_fst g (elapsed 0)
        (m.solver.prepare matrix) (List.range m.catalog.size)
    subst hround
    rw [hfirst]
    show Market.Living config solver call.rebuilds? _
    rw [hcall]
    exact hrebuilt.of_ready rfl catalog ledger _

/-- No step answers that a right-hand side had the wrong length. -/
theorem Living.not_isDimensionMismatch (h : m.Living config solver last?)
    (hstep : m.Step call next answer) {events : List (Event α)} (hanswer : answer = .ok events) :
    ∀ event ∈ events, ¬event.IsDimensionMismatch := by
  cases hstep with
  | idle | queued | detached | destroyed =>
    cases hanswer
    exact fun event hevent => nomatch hevent
  | @passed _ g dt clock prepared hcall hphase hprepared round hround =>
    cases hanswer
    subst hround
    -- What was prepared is what was prepared from the matrix of the last refresh.
    have hdim : m.index.size = prepared.dim := by
      obtain rfl := Option.some.inj (hprepared.symm.trans (h.prepared_of_ready hphase))
      exact (h.sizes hphase).1.trans (h.sizes hphase).2.symm
    exact fun event hevent =>
      not_isDimensionMismatch_of_mem_repriceAll (m := { m with lastUpdate? := clock }) hdim hevent
  | refused => cases hanswer
  | @rebuilt _ g index matrix hcall hnetwork round hround =>
    cases hanswer
    subst hround
    have hdim : index.size = (m.solver.prepare matrix).dim := by
      rw [Solver.dim_prepare, (Galaxy.dim_network hnetwork).2]
    intro event hevent
    rcases List.mem_cons.mp hevent with rfl | hevent
    · exact fun hbad => hbad
    · exact not_isDimensionMismatch_of_mem_repriceAll hdim hevent

/-- A living market that is ready has a matrix, so that each call is one of the steps. -/
theorem Living.step_perform (h : m.Living config solver last?) (call : Call α) :
    m.Step call (m.perform call).1 (m.perform call).2 :=
  Market.step_perform (fun hphase => ⟨_, h.prepared_of_ready hphase⟩) call

/-! ### Whole runs -/

/-- What every step preserves holds at the end of a run. It may speak of the last refresh, which
changes along the run together with the market. -/
theorem Living.refreshed_induction {P : Option (Galaxy α) → Market α → Prop}
    (hP : ∀ {last? : Option (Galaxy α)} {m next : Market α} {call : Call α} {answer : Answer α},
      m.Living config solver last? → m.Step call next answer → P last? m →
      P (if answer.isRefreshed then call.rebuilds? else last?) next)
    (h : m.Living config solver last?) (hm : P last? m) (calls : List (Call α)) :
    P (m.refreshedSince last? calls) (m.after calls) := by
  -- The galaxy of the last refresh goes along with the market.
  induction calls generalizing m last? with
  | nil => exact hm
  | cons call calls ih =>
    have hstep := h.step_perform call
    exact ih (h.step hstep) (hP h hstep hm)

/-- **A market lives through any calls**, on the galaxy of its last refresh. -/
theorem Living.after (h : m.Living config solver last?) (calls : List (Call α)) :
    (m.after calls).Living config solver (m.refreshedSince last? calls) :=
  h.refreshed_induction (P := fun last? m => m.Living config solver last?)
    (fun hlife hstep _ => hlife.step hstep) h calls

/-- Most invariants do not speak of the last refresh. -/
theorem Living.after_induction {P : Market α → Prop}
    (hP : ∀ {m next : Market α} {call : Call α} {answer : Answer α},
      m.Step call next answer → P m → P next)
    (h : m.Living config solver last?) (hm : P m) (calls : List (Call α)) : P (m.after calls) :=
  h.refreshed_induction (P := fun _ m => P m) (fun _ hstep hm => hP hstep hm) hm calls

/-- None of the answers on the way reports a wrong length. -/
theorem Living.answers (h : m.Living config solver last?) {calls : List (Call α)}
    {events : List (Event α)} (hanswer : .ok events ∈ m.answers calls) :
    ∀ event ∈ events, ¬event.IsDimensionMismatch := by
  induction calls generalizing m last? with
  | nil => cases hanswer
  | cons call calls ih =>
    have hstep := h.step_perform call
    rcases List.mem_cons.mp hanswer with hfirst | hlater
    · exact h.not_isDimensionMismatch hstep hfirst.symm
    · exact ih (h.step hstep) hlater

end Market

open Market in
/-- **The life of a market**, after any calls, each with any galaxy, whether they succeeded or not.
It is never caught refreshing. It is ready exactly if it holds a prepared matrix, which is then that
of the last successful refresh and fits the index; and it is empty whenever it is not initialized.
So an update of a ready market always reprices, no solve is refused for its length, and a market
that is not ready is left alone. -/
theorem lifecycle {catalog : Catalog α} {config : Config α} {solver : Solver α} {m : Market α}
    (h : ofConfig catalog config solver = .ok m) (calls : List (Call α)) :
    (m.after calls).phase ≠ .refreshing ∧
    ((m.after calls).phase = .ready ↔ ∃ p, (m.after calls).prepared? = some p) ∧
    ((m.after calls).phase = .ready →
      (∃ g, m.lastRefreshed? calls = some g ∧
        g.network config = .ok ((m.after calls).index, (m.after calls).matrix)) ∧
      (m.after calls).prepared? = some (solver.prepare (m.after calls).matrix) ∧
      (m.after calls).index.size = (m.after calls).matrix.dim ∧
      (solver.prepare (m.after calls).matrix).dim = (m.after calls).matrix.dim) ∧
    ((m.after calls).phase = .uninitialized →
      (m.after calls).ledger = {} ∧ (m.after calls).index = {} ∧ (m.after calls).matrix = {} ∧
        (m.after calls).prepared? = none ∧ (m.after calls).lastUpdate? = none) ∧
    (∀ g dt, (m.after calls).phase = .ready → ∃ p, (m.after calls).prepared? = some p ∧
      (m.after calls).update g dt = (m.after calls).repriceAll g (elapsed dt) p
        (List.range (m.after calls).catalog.size)) ∧
    (∀ events, .ok events ∈ m.answers calls → ∀ event ∈ events, ¬event.IsDimensionMismatch) ∧
    (∀ g, (m.after calls).phase ≠ .ready →
      (∀ dt, (m.after calls).update g dt = (m.after calls, [])) ∧
        ∀ now, (m.after calls).updateAt g now = (m.after calls, [])) := by
  have hstart := living_ofConfig h
  have hlife := hstart.after calls
  refine ⟨hlife.phase_ne, ⟨fun hphase => ⟨_, hlife.prepared_of_ready hphase⟩, ?_⟩,
    fun hphase => ⟨hlife.network hphase, hlife.prepared_of_ready hphase, hlife.sizes hphase⟩,
    ?_, ?_, fun events hevents => hstart.answers hevents,
    fun g hphase => ⟨fun dt => update_of_phase_ne hphase, fun now => updateAt_of_phase_ne hphase⟩⟩
  · -- A market that is not ready has dropped what was prepared.
    rintro ⟨p, hp⟩
    by_contra hphase
    rw [hlife.ready_of_prepared hphase] at hp
    cases hp
  · intro hphase
    obtain ⟨hledger, hindex, hmatrix, hclock⟩ := hlife.empty hphase
    have hne : (m.after calls).phase ≠ .ready := by
      rw [hphase]
      decide
    exact ⟨hledger, hindex, hmatrix, hlife.ready_of_prepared hne, hclock⟩
  · intro g dt hphase
    have hprepared := hlife.prepared_of_ready hphase
    exact ⟨_, hprepared, update_of_ready hphase hprepared⟩

theorem exists_eq_ok_of_isOk {ε β : Type} {x : Except ε β} (h : x.isOk = true) :
    ∃ y, x = .ok y := by
  cases x with
  | error e => cases h
  | ok y => exact ⟨y, rfl⟩

/-- The standard tuning is accepted with any catalog and any solver. -/
theorem Market.ofConfig_standard (catalog : Catalog Float) (solver : Solver Float) :
    ofConfig catalog .standard solver = .ok { catalog, config := .standard, solver } := by
  obtain ⟨_, hvalid⟩ := exists_eq_ok_of_isOk
    (show (Config.standard : Config Float).validate.isOk = true by decide +kernel)
  exact ofConfig_eq_ok_iff.mpr ⟨hvalid, rfl⟩

/-- Two linked systems with a planet each. -/
def couple : Galaxy Float := .ofShape .chain 2 100 [0]

/-- The standard tuning, but for a self resistance without a finite reciprocal. -/
def tinySelfResistance : Config Float := { Config.standard with selfResistance := 1e-310 }

/-- A market is refreshed too early, asked for a refresh, and opened. -/
def hastyRun : List (Call Float) := [.refresh couple, .queueRefresh, .init couple]

/-- After the hasty run a market of the standard tuning is ready, with the network of the couple.
Under a tiny self resistance it is refused its matrix, and updates do nothing. -/
theorem lifecycle_hastyRun :
    (∃ m : Market Float, Market.ofConfig .standard .standard .cholesky = .ok m ∧
      (m.after hastyRun).phase = .ready ∧ ∃ g, m.lastRefreshed? hastyRun = some g ∧
        g.network .standard = .ok ((m.after hastyRun).index, (m.after hastyRun).matrix)) ∧
    ∃ m : Market Float, Market.ofConfig .standard tinySelfResistance .cholesky = .ok m ∧
      (m.after hastyRun).phase = .initialized ∧
      (m.after hastyRun).update couple 1 = (m.after hastyRun, []) := by
  constructor
  · -- The first refresh comes too early. It is the opening that makes the market ready.
    obtain ⟨_, hvalid⟩ := exists_eq_ok_of_isOk
      (show (Config.standard : Config Float).validate.isOk = true by decide +kernel)
    obtain ⟨⟨index, matrix⟩, hnetwork⟩ := exists_eq_ok_of_isOk
      (show (couple.network .standard).isOk = true by decide +kernel)
    let m : Market Float := { catalog := .standard, config := .standard, solver := .cholesky }
    have hm : Market.ofConfig .standard .standard .cholesky = .ok m :=
      Market.ofConfig_eq_ok_iff.mpr ⟨hvalid, rfl⟩
    have hphase : (m.after hastyRun).phase = .ready := by
      show ({ m with refreshQueued := true }.init couple).1.phase = .ready
      rw [Market.init_of_uninitialized rfl]
      exact Market.phase_refresh_of_ok (by decide) hnetwork
    exact ⟨m, hm, hphase, ((lifecycle hm hastyRun).2.2.1 hphase).1⟩
  · -- Here the opening is refused, so that the market stays as it was opened.
    obtain ⟨_, hvalid⟩ := exists_eq_ok_of_isOk
      (show tinySelfResistance.validate.isOk = true by decide +kernel)
    let m : Market Float :=
      { catalog := .standard, config := tinySelfResistance, solver := .cholesky }
    have hm : Market.ofConfig .standard tinySelfResistance .cholesky = .ok m :=
      Market.ofConfig_eq_ok_iff.mpr ⟨hvalid, rfl⟩
    have hphase : (m.after hastyRun).phase = .initialized := by decide +kernel
    have hne : (m.after hastyRun).phase ≠ .ready := by
      rw [hphase]
      decide
    exact ⟨m, hm, hphase, ((lifecycle hm hastyRun).2.2.2.2.2.2 couple hne).1 1⟩

end GalaxyMarket
