import Mathlib
import GalaxyMarket.Proofs.Market.Energy
import GalaxyMarket.Proofs.Market.Run

/-!
# A market that can solve

As long as every galaxy whose network a market takes over has routes of positive resistance, the
market can solve for every right-hand side (`Market.Solves`): the matrix that it prepared is that of
the network, and it is positive definite. Every call keeps this (`Market.Solves.perform`). No call
fails then, and no solve either for want of a factor (`Market.Solves.answer`).

`network_energy` puts together what this and the energy of a network say about the Cholesky factor.
-/

namespace GalaxyMarket

/-- Every galaxy whose network a call may take over has routes of positive resistance. -/
def Call.RoutesPositive (call : Call ℝ) (config : Config ℝ) : Prop :=
  ∀ g, call.rebuilds? = some g → g.RoutesPositive config

/-- Whether a solve failed for want of a factor. -/
def Event.IsNotFactorized {α : Type} : Event α → Prop
  | solveFailed _ (.notFactorized _) => True
  | _ => False

namespace Market

/-- A market with its tuning and its method, whose prepared matrix, if it has one, can be solved. -/
structure Solves (config : Config ℝ) (solver : Solver ℝ) (m : Market ℝ) : Prop where
  config_eq : m.config = config
  solver_eq : m.solver = solver
  prepared : ∀ p, m.prepared? = some p → p = solver.prepare m.matrix ∧ m.matrix.IsSolvable

variable {config : Config ℝ} {solver : Solver ℝ} {m : Market ℝ} {g : Galaxy ℝ}

/-- An update writes to catalog and ledger only. -/
theorem Solves.update (h : m.Solves config solver) (g : Galaxy ℝ) (dt : ℝ) :
    (m.update g dt).1.Solves config solver := by
  obtain ⟨catalog, ledger, heq⟩ := m.exists_update_fst g dt
  rw [heq]
  exact { h with }

/-- Whatever a market had prepared before, it can solve the network that it takes over. -/
theorem solves_rebuilt (hself : 0 < m.config.selfResistance) (hroutes : g.RoutesPositive m.config)
    {index : SystemIndex} {matrix : SparseMatrix ℝ}
    (hnetwork : g.network m.config = .ok (index, matrix)) :
    (m.rebuilt g index matrix).Solves m.config m.solver where
  config_eq := rfl
  solver_eq := rfl
  prepared p hp := by
    obtain rfl := Option.some.inj hp
    exact ⟨rfl, Galaxy.isSolvable_network hself hroutes hnetwork⟩

/-- A refresh always succeeds. -/
theorem exists_refresh_eq (hself : 0 < m.config.selfResistance) (hphase : m.phase ≠ .uninitialized)
    (g : Galaxy ℝ) : ∃ matrix, g.network m.config = .ok (.ofGalaxy g, matrix) ∧
      m.refresh g = (((m.rebuilt g (.ofGalaxy g) matrix).update g 0).1,
        .ok (.refreshed (SystemIndex.ofGalaxy g).size matrix.size ::
          ((m.rebuilt g (.ofGalaxy g) matrix).update g 0).2)) := by
  obtain ⟨matrix, hnetwork⟩ := Galaxy.exists_network_of_pos g hself
  exact ⟨matrix, hnetwork, refresh_of_ok hphase hnetwork⟩

/-- A refresh leaves every market that was initialized able to solve. -/
theorem solves_refresh (hself : 0 < m.config.selfResistance) (hroutes : g.RoutesPositive m.config)
    (hphase : m.phase ≠ .uninitialized) : (m.refresh g).1.Solves m.config m.solver := by
  obtain ⟨matrix, hnetwork, heq⟩ := exists_refresh_eq hself hphase g
  rw [heq]
  exact (solves_rebuilt hself hroutes hnetwork).update g 0

/-- One that was not is left alone. -/
theorem Solves.refresh (hself : 0 < config.selfResistance) (h : m.Solves config solver)
    (hroutes : g.RoutesPositive config) : (m.refresh g).1.Solves config solver := by
  by_cases hphase : m.phase = .uninitialized
  · rw [refresh_of_uninitialized hphase]
    exact h
  · obtain ⟨rfl, rfl, -⟩ := h
    exact solves_refresh hself hroutes hphase

/-- An initialization is a refresh or nothing. -/
theorem Solves.init (hself : 0 < config.selfResistance) (h : m.Solves config solver)
    (hroutes : g.RoutesPositive config) : (m.init g).1.Solves config solver := by
  by_cases hphase : m.phase = .uninitialized
  · rw [init_of_uninitialized hphase]
    exact Solves.refresh hself { h with } hroutes
  · rw [init_of_ne hphase]
    exact h

/-- **Every call keeps a market able to solve.** -/
theorem Solves.perform (hself : 0 < config.selfResistance) (h : m.Solves config solver)
    {call : Call ℝ} (hcall : call.RoutesPositive config) :
    (m.perform call).1.Solves config solver := by
  -- A refresh makes the matrix anew, and everything else leaves it or drops it.
  cases call with
  | init g => exact h.init hself (hcall g rfl)
  | refresh g => exact h.refresh hself (hcall g rfl)
  | update g dt => exact h.update g dt
  | updateAt g now =>
    obtain ⟨catalog, ledger, lastUpdate?, heq⟩ := m.exists_updateAt_fst g now
    change (m.updateAt g now).1.Solves config solver
    rw [heq]
    exact { h with }
  | queueRefresh => exact { h with }
  | execQueued g =>
    change (m.execQueued g).1.Solves config solver
    cases hqueued : m.refreshQueued with
    | true =>
      rw [execQueued_of_queued hqueued]
      exact h.refresh hself (hcall g rfl)
    | false =>
      rw [execQueued_of_not_queued hqueued]
      exact h
  | destroy =>
    change m.destroy.Solves config solver
    by_cases hphase : m.phase = .uninitialized
    · rw [destroy_of_uninitialized hphase]
      exact h
    · rw [destroy_of_ne hphase]
      exact ⟨h.config_eq, h.solver_eq, fun p hp => nomatch hp⟩
  | detach commodity => exact { h with }

/-- A market stays able to solve through a whole run. -/
theorem Solves.after (hself : 0 < config.selfResistance) {calls : List (Call ℝ)}
    (hcalls : ∀ call ∈ calls, call.RoutesPositive config) (h : m.Solves config solver) :
    (m.after calls).Solves config solver :=
  after_induction (fun _ call hcall hm => hm.perform hself (hcalls call hcall)) h

/-! ### Answers -/

/-- Events without a solve that failed for want of a factor. -/
theorem Solves.not_isNotFactorized_of_mem_update (h : m.Solves config solver)
    (hsolver : solver.IsExact) {g : Galaxy ℝ} {dt : ℝ} :
    ∀ event ∈ (m.update g dt).2, ¬event.IsNotFactorized := by
  intro event hevent hbad
  -- Such an event is written only for a solve that failed in this way.
  obtain ⟨c, obstacle, rfl⟩ : ∃ c obstacle, event = .solveFailed c (.notFactorized obstacle) := by
    unfold Event.IsNotFactorized at hbad
    split at hbad
    · exact ⟨_, _, rfl⟩
    · cases hbad
  obtain ⟨p, hp, b, -, hb⟩ := m.exists_of_mem_update g dt hevent
  obtain ⟨rfl, hmatrix⟩ := h.prepared p hp
  exact Solver.solve_ne_notFactorized hmatrix hsolver b obstacle hb

/-- A refresh does not fail, and has a factor for all its solves. -/
theorem refresh_answer (hself : 0 < m.config.selfResistance) (hsolver : m.solver.IsExact)
    (hroutes : g.RoutesPositive m.config) :
    ∃ events, (m.refresh g).2 = .ok events ∧ ∀ event ∈ events, ¬event.IsNotFactorized := by
  by_cases hphase : m.phase = .uninitialized
  · rw [refresh_of_uninitialized hphase]
    exact ⟨[], rfl, fun _ h => nomatch h⟩
  · obtain ⟨matrix, hnetwork, heq⟩ := exists_refresh_eq hself hphase g
    rw [heq]
    refine ⟨_, rfl, fun event hevent => ?_⟩
    -- The first event is that of the refresh itself, and the others are those of its update.
    rcases List.mem_cons.mp hevent with rfl | hevent
    · exact fun hbad => hbad
    · exact (solves_rebuilt hself hroutes hnetwork).not_isNotFactorized_of_mem_update hsolver event
        hevent

/-- **No call fails**, and none reports that there was no factor. -/
theorem Solves.answer (hself : 0 < config.selfResistance) (h : m.Solves config solver)
    (hsolver : solver.IsExact) {call : Call ℝ} (hcall : call.RoutesPositive config) :
    ∃ events, (m.perform call).2 = .ok events ∧ ∀ event ∈ events, ¬event.IsNotFactorized := by
  obtain ⟨rfl, rfl, -⟩ := id h
  have hnone : ∃ events, (Except.ok [] : Answer ℝ) = .ok events ∧
      ∀ event ∈ events, ¬event.IsNotFactorized := ⟨[], rfl, fun _ h => nomatch h⟩
  -- Every call ends in a refresh, in an update or in nothing at all.
  cases call with
  | init g =>
    change ∃ events, (m.init g).2 = .ok events ∧ _
    by_cases hphase : m.phase = .uninitialized
    · rw [init_of_uninitialized hphase]
      exact refresh_answer hself hsolver (hcall g rfl)
    · rw [init_of_ne hphase]
      exact hnone
  | refresh g => exact refresh_answer hself hsolver (hcall g rfl)
  | update g dt => exact ⟨_, rfl, h.not_isNotFactorized_of_mem_update hsolver⟩
  | updateAt g now =>
    refine ⟨_, rfl, ?_⟩
    by_cases hphase : m.phase = .ready
    · rw [updateAt_of_ready hphase]
      have hclock : { m with lastUpdate? := some now }.Solves m.config m.solver := { h with }
      exact hclock.not_isNotFactorized_of_mem_update hsolver
    · rw [updateAt_of_phase_ne hphase]
      exact fun _ h => nomatch h
  | execQueued g =>
    change ∃ events, (m.execQueued g).2 = .ok events ∧ _
    cases hqueued : m.refreshQueued with
    | true =>
      rw [execQueued_of_queued hqueued]
      exact refresh_answer hself hsolver (hcall g rfl)
    | false =>
      rw [execQueued_of_not_queued hqueued]
      exact hnone
  | queueRefresh | destroy | detach => exact hnone

end Market

/-! ### Positive definite networks -/

open Finset in
/-- **The energy of a network**, and what follows when all routes have positive resistance: its
matrix is diagonally dominant and positive definite, and a market that solves by Cholesky factors
has one after each refresh and never misses one, whatever it is asked from then on. -/
theorem network_energy (g : Galaxy ℝ) (config : Config ℝ) (hself : 0 < config.selfResistance) :
    ∃ index matrix, g.network config = .ok (index, matrix) ∧
      (∀ x : List ℝ, x.length = matrix.dim → Vector.dot x (matrix.mulVec x) =
        ∑ i ∈ range matrix.dim, x.getD i 0 ^ 2 / config.selfResistance +
          ∑ p ∈ g.coupledPairs config,
            g.conductance config p.1 p.2 * (x.getD p.1 0 - x.getD p.2 0) ^ 2) ∧
      (0 < config.baseResistance → -1 < config.factionModifier → config.factionModifier < 1 →
        (∀ key system, g.system? key = some system →
          0 ≤ system.nebula.density ∧ 0 ≤ system.nebula.volatility) → g.RoutesPositive config) ∧
      (g.RoutesPositive config →
        (∀ i, 0 < matrix.toMatrix i i ∧
          ∑ j ∈ univ.erase i, |matrix.toMatrix i j| < matrix.toMatrix i i) ∧
        matrix.toMatrix.PosDef ∧
        ∀ m : Market ℝ, m.config = config → m.solver = .cholesky → m.phase ≠ .uninitialized →
          (m.refresh g).1.phase = .ready ∧ (m.refresh g).1.matrix = matrix ∧
          (∃ p, (m.refresh g).1.prepared? = some p ∧ p.isFactorized = true) ∧
          ∀ calls : List (Call ℝ), (∀ call ∈ calls, call.RoutesPositive config) →
            ∀ answer ∈ m.answers (.refresh g :: calls),
              ∃ events, answer = .ok events ∧ ∀ event ∈ events, ¬event.IsNotFactorized) := by
  obtain ⟨matrix, hnetwork⟩ := Galaxy.exists_network_of_pos g hself
  refine ⟨_, matrix, hnetwork, fun x hx => Galaxy.dot_mulVec_network hnetwork hx,
    Galaxy.routesPositive_of_config, fun hroutes => ?_⟩
  have hsolvable := Galaxy.isSolvable_network hself hroutes hnetwork
  -- What networks of resistors do, this one does.
  have hdominant : ∀ i, ∑ j ∈ univ.erase i, |matrix.toMatrix i j| < matrix.toMatrix i i := by
    rw [Galaxy.toMatrix_network hnetwork]
    exact groundedLaplacian.sum_abs_lt_diagonal (inv_pos.mpr hself)
      fun i j => hroutes.conductance_nonneg i j
  refine ⟨fun i => ⟨(sum_nonneg fun j _ => abs_nonneg _).trans_lt (hdominant i), hdominant i⟩,
    hsolvable.posDef, fun m hconfig hsolver hphase => ?_⟩
  subst hconfig
  have hexact : m.solver.IsExact := hsolver ▸ trivial
  have hafter := Market.solves_refresh hself hroutes hphase
  -- The refresh takes over the same network, and its update leaves the matrix as it is.
  obtain ⟨matrix', hnetwork', hrefresh⟩ := Market.exists_refresh_eq hself hphase g
  obtain rfl : matrix = matrix' := (Prod.mk.inj (Except.ok.inj (hnetwork.symm.trans hnetwork'))).2
  obtain ⟨catalog, ledger, hupdate⟩ := (m.rebuilt g (.ofGalaxy g) matrix).exists_update_fst g 0
  have hmarket : (m.refresh g).1 = { m.rebuilt g (.ofGalaxy g) matrix with catalog, ledger } := by
    rw [hrefresh, hupdate]
  refine ⟨by rw [hmarket]; rfl, by rw [hmarket]; rfl, ⟨m.solver.prepare matrix, ?_, ?_⟩,
    fun calls hcalls answer hanswer => ?_⟩
  · rw [hmarket]
    rfl
  · exact Solver.isFactorized_prepare hsolvable m.solver
  · rcases List.mem_cons.mp hanswer with rfl | hanswer
    · exact Market.refresh_answer hself hexact hroutes
    · -- Every later answer is that of a market that can solve.
      obtain ⟨m', call, hcall, hm', rfl⟩ := Market.exists_of_mem_answers
        (P := Market.Solves m.config m.solver)
        (fun _ call hcall hm' => hm'.perform hself (hcalls call hcall)) hafter hanswer
      exact hm'.answer hself hexact (hcalls call hcall)

/-- The trio lies in clear space, so that its routes have positive resistance. -/
theorem routesPositive_trio : trio.RoutesPositive Config.standard := by
  have hnebulae : trio.systems.toList.map (fun entry => entry.2.nebula) =
      [⟨0, 0⟩, ⟨0, 0⟩, ⟨0, 0⟩] := rfl
  refine Galaxy.routesPositive_of_config ?_ ?_ ?_ fun key system h => ?_
  all_goals try norm_num [Config.standard]
  have hmem := List.mem_map_of_mem (f := fun entry => entry.2.nebula) (Slots.mem_toList_iff.mpr h)
  rw [hnebulae] at hmem
  obtain hclear : system.nebula = ⟨0, 0⟩ := by simpa using hmem
  rw [hclear]
  exact ⟨le_rfl, le_rfl⟩

/-- Under the standard tuning the matrix of the trio is positive definite, and a new market that was
opened for it has a factor. -/
theorem network_energy_trio : ∃ index matrix, trio.network Config.standard = .ok (index, matrix) ∧
    matrix.toMatrix.PosDef ∧
    ∃ p, (({ catalog := .standard, config := .standard, solver := .cholesky } : Market ℝ).init
      trio).1.prepared? = some p ∧ p.isFactorized = true := by
  obtain ⟨index, matrix, hnetwork, -, -, hpositive⟩ :=
    network_energy trio .standard (by norm_num [Config.standard])
  obtain ⟨-, hposDef, hmarket⟩ := hpositive routesPositive_trio
  refine ⟨index, matrix, hnetwork, hposDef, ?_⟩
  rw [Market.init_of_uninitialized rfl]
  exact (hmarket _ rfl rfl (by simp)).2.2.1

end GalaxyMarket
