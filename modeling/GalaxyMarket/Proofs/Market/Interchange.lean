import Mathlib
import GalaxyMarket.Proofs.Market.Config
import GalaxyMarket.Proofs.Market.Solves

/-!
# The solvers are interchangeable

`Market.withSolver` gives a market another solver and prepares its matrix anew. Over exact numbers,
and as long as all routes have positive resistance, it makes no difference whether that happens
before a call or after it (`Market.perform_withSolver`): each solve has one solution, which both
solvers find. By induction on the calls, a market with the one solver goes through any run beside a
market with the other, and the two differ in nothing but what they prepared
(`solvers_interchangeable`).
-/

namespace GalaxyMarket

namespace Market

section Commute

variable {α : Type} [Scalar α] {m : Market α} {g : Galaxy α} {dt : α} {other : Solver α}

/-- The same market with another solver. -/
def withSolver (m : Market α) (solver : Solver α) : Market α :=
  { m with solver, prepared? := m.prepared?.map fun _ => solver.prepare m.matrix }

/-- What becomes of an answer does not depend on where it came from. -/
theorem settle_withSolver (commodity : Nat) (basePrice : Int)
    (answer : Except SolveError (List α)) :
    (m.withSolver other).settle g commodity basePrice answer =
      ((m.settle g commodity basePrice answer).1.withSolver other,
        (m.settle g commodity basePrice answer).2) := by
  cases answer with
  | error reason => rfl
  | ok potentials =>
    rw [settle, settle]
    split <;> rfl

variable {prepared prepared' : Prepared α}

/-- A commodity is repriced alike with prepared matrices that solve alike. -/
theorem reprice_withSolver (hsolve : ∀ b, prepared'.solve b = prepared.solve b) (commodity : Nat) :
    (m.withSolver other).reprice g dt prepared' commodity =
      ((m.reprice g dt prepared commodity).1.withSolver other,
        (m.reprice g dt prepared commodity).2) := by
  rcases m.source?_cases commodity with h | ⟨good, source, h⟩
  · have h' : (m.withSolver other).catalog.source? commodity = none := h
    rw [reprice_of_source?_eq_none h, reprice_of_source?_eq_none h']
  · have h' : (m.withSolver other).catalog.listings[commodity]? = some ⟨good, some source⟩ := h
    -- The trackers move before anything is solved, without a look at the solver.
    have hadvance : (m.withSolver other).advance g dt commodity source =
        ((m.advance g dt commodity source).1,
          (m.advance g dt commodity source).2.withSolver other) := rfl
    rw [reprice_eq h, reprice_eq h', hadvance, hsolve, settle_withSolver]

/-- So are all commodities in a round. -/
theorem repriceAll_withSolver (hsolve : ∀ b, prepared'.solve b = prepared.solve b)
    (commodities : List Nat) : (m.withSolver other).repriceAll g dt prepared' commodities =
      ((m.repriceAll g dt prepared commodities).1.withSolver other,
        (m.repriceAll g dt prepared commodities).2) := by
  induction commodities generalizing m with
  | nil => rfl
  | cons commodity commodities ih =>
    rw [repriceAll_cons, repriceAll_cons, reprice_withSolver hsolve, ih]

end Commute

variable {config : Config ℝ} {solver other : Solver ℝ} {m : Market ℝ} {g : Galaxy ℝ}

/-- An update with the one solver and with the other. -/
theorem update_withSolver (h : m.Solves config solver) (hsolver : solver.IsExact)
    (hother : other.IsExact) (g : Galaxy ℝ) (dt : ℝ) : (m.withSolver other).update g dt =
      ((m.update g dt).1.withSolver other, (m.update g dt).2) := by
  by_cases hphase : m.phase = .ready
  · cases hprepared : m.prepared? with
    | none =>
      have hnone : (m.withSolver other).prepared? = none := by
        rw [withSolver, hprepared]
        rfl
      rw [update_of_prepared?_eq_none hprepared, update_of_prepared?_eq_none hnone]
    | some prepared =>
      -- What was prepared is the matrix, for either solver.
      obtain ⟨rfl, hmatrix⟩ := h.prepared prepared hprepared
      have hsome : (m.withSolver other).prepared? = some (other.prepare m.matrix) := by
        rw [withSolver, hprepared]
        rfl
      have hphase' : (m.withSolver other).phase = .ready := hphase
      rw [update_of_ready hphase hprepared, update_of_ready hphase' hsome]
      exact repriceAll_withSolver (Solver.solve_prepare_eq hmatrix hother hsolver) _
  · have hphase' : (m.withSolver other).phase ≠ .ready := hphase
    rw [update_of_phase_ne hphase, update_of_phase_ne hphase']

/-- A refresh, which prepares the matrix of the galaxy for either. -/
theorem refresh_withSolver (hself : 0 < m.config.selfResistance) (hsolver : m.solver.IsExact)
    (hother : other.IsExact) (hroutes : g.RoutesPositive m.config) :
    (m.withSolver other).refresh g = ((m.refresh g).1.withSolver other, (m.refresh g).2) := by
  by_cases hphase : m.phase = .uninitialized
  · have hphase' : (m.withSolver other).phase = .uninitialized := hphase
    rw [refresh_of_uninitialized hphase, refresh_of_uninitialized hphase']
  · obtain ⟨matrix, hnetwork, heq⟩ := exists_refresh_eq hself hphase g
    have hphase' : (m.withSolver other).phase ≠ .uninitialized := hphase
    have hnetwork' : g.network (m.withSolver other).config = .ok (.ofGalaxy g, matrix) := hnetwork
    -- Taking over the network prepares its matrix anew in any case.
    have hrebuilt : (m.withSolver other).rebuilt g (.ofGalaxy g) matrix =
        (m.rebuilt g (.ofGalaxy g) matrix).withSolver other := rfl
    rw [heq, refresh_of_ok hphase' hnetwork', hrebuilt,
      update_withSolver (solves_rebuilt hself hroutes hnetwork) hsolver hother]

/-- **One call**, with the one solver and with the other. -/
theorem perform_withSolver (hself : 0 < config.selfResistance) (h : m.Solves config solver)
    (hsolver : solver.IsExact) (hother : other.IsExact) {call : Call ℝ}
    (hcall : call.RoutesPositive config) : (m.withSolver other).perform call =
      ((m.perform call).1.withSolver other, (m.perform call).2) := by
  obtain ⟨rfl, rfl, -⟩ := id h
  -- Only a refresh and an update look at what is prepared.
  cases call with
  | init g =>
    change (m.withSolver other).init g = ((m.init g).1.withSolver other, (m.init g).2)
    by_cases hphase : m.phase = .uninitialized
    · have hphase' : (m.withSolver other).phase = .uninitialized := hphase
      let opened : Market ℝ := { m with phase := .initialized, ledger := .ofGalaxy g m.catalog }
      rw [init_of_uninitialized hphase, init_of_uninitialized hphase']
      exact refresh_withSolver (m := opened) hself hsolver hother (hcall g rfl)
    · have hphase' : (m.withSolver other).phase ≠ .uninitialized := hphase
      rw [init_of_ne hphase, init_of_ne hphase']
  | refresh g => exact refresh_withSolver hself hsolver hother (hcall g rfl)
  | update g dt =>
    change (((m.withSolver other).update g dt).1,
      Except.ok ((m.withSolver other).update g dt).2) = _
    rw [update_withSolver h hsolver hother]
    rfl
  | updateAt g now =>
    have hclock : { m with lastUpdate? := some now }.Solves m.config m.solver := { h with }
    have hupdateAt : (m.withSolver other).updateAt g now =
        ((m.updateAt g now).1.withSolver other, (m.updateAt g now).2) := by
      by_cases hphase : m.phase = .ready
      · have hphase' : (m.withSolver other).phase = .ready := hphase
        rw [updateAt_of_ready hphase, updateAt_of_ready hphase',
          ← update_withSolver hclock hsolver hother]
        rfl
      · have hphase' : (m.withSolver other).phase ≠ .ready := hphase
        rw [updateAt_of_phase_ne hphase, updateAt_of_phase_ne hphase']
    change (((m.withSolver other).updateAt g now).1,
      Except.ok ((m.withSolver other).updateAt g now).2) = _
    rw [hupdateAt]
    rfl
  | queueRefresh => rfl
  | execQueued g =>
    change (m.withSolver other).execQueued g =
      ((m.execQueued g).1.withSolver other, (m.execQueued g).2)
    cases hqueued : m.refreshQueued with
    | true =>
      have hqueued' : (m.withSolver other).refreshQueued = true := hqueued
      rw [execQueued_of_queued hqueued, execQueued_of_queued hqueued']
      exact refresh_withSolver hself hsolver hother (hcall g rfl)
    | false =>
      have hqueued' : (m.withSolver other).refreshQueued = false := hqueued
      rw [execQueued_of_not_queued hqueued, execQueued_of_not_queued hqueued']
  | destroy =>
    change ((m.withSolver other).destroy, (.ok [] : Answer ℝ)) =
      (m.destroy.withSolver other, .ok [])
    by_cases hphase : m.phase = .uninitialized
    · have hphase' : (m.withSolver other).phase = .uninitialized := hphase
      rw [destroy_of_uninitialized hphase, destroy_of_uninitialized hphase']
    · have hphase' : (m.withSolver other).phase ≠ .uninitialized := hphase
      rw [destroy_of_ne hphase, destroy_of_ne hphase']
      rfl
  | detach commodity => rfl

/-- **A whole run**, with the one solver and with the other. -/
theorem after_withSolver (hself : 0 < config.selfResistance) (hsolver : solver.IsExact)
    (hother : other.IsExact) {calls : List (Call ℝ)}
    (hcalls : ∀ call ∈ calls, call.RoutesPositive config) (h : m.Solves config solver) :
    (m.withSolver other).after calls = (m.after calls).withSolver other ∧
      (m.withSolver other).answers calls = m.answers calls := by
  -- Each call is made by both markets. That what is prepared is the matrix carries over from call
  -- to call.
  induction calls generalizing m with
  | nil => exact ⟨rfl, rfl⟩
  | cons call calls ih =>
    have hcall := hcalls call List.mem_cons_self
    have hperform := perform_withSolver hself h hsolver hother hcall
    obtain ⟨hafter, hanswers⟩ := ih (fun c hc => hcalls c (List.mem_cons_of_mem _ hc))
      (h.perform hself hcall)
    refine ⟨?_, ?_⟩
    · rw [after_cons, after_cons, hperform, hafter]
    · rw [answers, answers, hperform, hanswers]

/-- What two markets that go side by side have in common: all but the solver and what it prepared.
-/
structure Agrees (a b : Market ℝ) : Prop where
  phase : a.phase = b.phase
  ledger : a.ledger = b.ledger
  index : a.index = b.index
  matrix : a.matrix = b.matrix
  catalog : a.catalog = b.catalog
  lastUpdate : a.lastUpdate? = b.lastUpdate?
  refreshQueued : a.refreshQueued = b.refreshQueued
  prepared : a.prepared?.isSome = b.prepared?.isSome

/-- A market agrees with itself under another solver. -/
theorem agrees_withSolver (m : Market ℝ) (other : Solver ℝ) : m.Agrees (m.withSolver other) := by
  refine ⟨rfl, rfl, rfl, rfl, rfl, rfl, rfl, ?_⟩
  rw [withSolver, Option.isSome_map]

end Market

/-- **The solvers are interchangeable.** Through any run whose galaxies have routes of positive
resistance, a market that solves by Cholesky factors and one that solves by conjugate gradients
without a tolerance agree after each call, and each call has the same answer. -/
theorem solvers_interchangeable (catalog : Catalog ℝ) {config : Config ℝ}
    (hvalid : config.validate = .ok ()) {settings : ConjugateGradient.Settings ℝ}
    (htolerance : settings.tolerance = 0) {calls : List (Call ℝ)}
    (hcalls : ∀ call ∈ calls, call.RoutesPositive config) :
    ∃ a b, Market.ofConfig catalog config .cholesky = .ok a ∧
      Market.ofConfig catalog config (.conjugateGradient settings) = .ok b ∧
      (∀ n, (a.after (calls.take n)).Agrees (b.after (calls.take n))) ∧
      a.answers calls = b.answers calls := by
  have hself : 0 < config.selfResistance := (Config.validate_eq_ok_iff.mp hvalid).2.1
  let a : Market ℝ := { catalog, config, solver := .cholesky }
  let other : Solver ℝ := .conjugateGradient settings
  have ha : a.Solves config a.solver := ⟨rfl, rfl, fun p hp => nomatch hp⟩
  have hsolver : a.solver.IsExact := trivial
  have hother : other.IsExact := htolerance
  have hrun : ∀ calls : List (Call ℝ), (∀ call ∈ calls, call.RoutesPositive config) →
      (a.withSolver other).after calls = (a.after calls).withSolver other ∧
        (a.withSolver other).answers calls = a.answers calls :=
    fun calls hcalls => Market.after_withSolver hself hsolver hother hcalls ha
  -- The second market is the first one with the other solver, at the start and all along.
  refine ⟨a, a.withSolver other, Market.ofConfig_eq_ok_iff.mpr ⟨hvalid, rfl⟩,
    Market.ofConfig_eq_ok_iff.mpr ⟨hvalid, rfl⟩, fun n => ?_, (hrun calls hcalls).2.symm⟩
  rw [(hrun _ fun call hcall => hcalls call (List.mem_of_mem_take hcall)).1]
  exact Market.agrees_withSolver _ _

/-- A market is opened for the trio, lets some time pass, and is refreshed when that was asked for.
-/
def trioRun : List (Call ℝ) :=
  [.init trio, .update trio 1, .queueRefresh, .execQueued trio, .updateAt trio 5]

/-- On the trio the solvers agree, with one step allowed for a search. -/
theorem solvers_interchangeable_trio :
    ∃ a b : Market ℝ, Market.ofConfig .standard .standard .cholesky = .ok a ∧
      Market.ofConfig .standard .standard (.conjugateGradient ⟨0, 1⟩) = .ok b ∧
      (∀ n, (a.after (trioRun.take n)).Agrees (b.after (trioRun.take n))) ∧
      a.answers trioRun = b.answers trioRun := by
  have hvalid : (Config.standard : Config ℝ).validate = .ok () := by
    rw [Config.validate_eq_ok_iff]
    norm_num [Config.standard]
  refine solvers_interchangeable .standard hvalid rfl fun call hcall g hg => ?_
  have htrio : g = trio := by
    simp only [trioRun, List.mem_cons, List.not_mem_nil, or_false] at hcall
    rcases hcall with rfl | rfl | rfl | rfl | rfl <;> simp_all [Call.rebuilds?]
  rw [htrio]
  exact routesPositive_trio

end GalaxyMarket
