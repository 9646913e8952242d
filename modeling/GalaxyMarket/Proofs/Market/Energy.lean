import Mathlib
import GalaxyMarket.Proofs.Linear.Resistors
import GalaxyMarket.Proofs.Linear.Solver
import GalaxyMarket.Proofs.Market.Laplacian

/-!
# The energy of a network

Over exact numbers the matrix of a network is the `groundedLaplacian` of its conductances
(`Galaxy.toMatrix_network`), so that what holds of every network of resistors holds of it.

The conductances are positive as soon as all routes have positive resistance
(`Galaxy.RoutesPositive`), which they have in every galaxy with nebulae that are not negative if
allies take off less than the whole of a resistance (`Galaxy.routesPositive_of_config`). The matrix
is then positive definite, and every method solves it (`Galaxy.isSolvable_network`).
-/

namespace GalaxyMarket.Galaxy

open Matrix

variable {g : Galaxy ℝ} {config : Config ℝ} {index : SystemIndex} {m : SparseMatrix ℝ}

/-! ### Conductances -/

/-- The conductance between systems number `i` and `j`, zero where they are not coupled. -/
noncomputable def conductance (g : Galaxy ℝ) (config : Config ℝ) (i j : ℕ) : ℝ :=
  (g.coupling? config i j).getD 0

/-- Every two systems that a jump links have a route of positive resistance. -/
def RoutesPositive (g : Galaxy ℝ) (config : Config ℝ) : Prop :=
  ∀ a b s t, g.system? a = some s → g.system? b = some t → a ≠ b → s.jumpsTo b = true →
    0 < Route.resistanceBetween config g.diplomacy s t

theorem conductance_comm (i j : ℕ) : g.conductance config i j = g.conductance config j i := by
  rw [conductance, coupling?_comm, conductance]

theorem conductance_self (i : ℕ) : g.conductance config i i = 0 := by
  rw [conductance, coupling?_self]
  rfl

/-- Where all routes have positive resistance, all conductances are positive. -/
theorem RoutesPositive.pos_of_coupling? (h : g.RoutesPositive config) {i j : ℕ} {c : ℝ}
    (hc : g.coupling? config i j = some c) : 0 < c := by
  obtain ⟨hne, a, b, s, t, ha, hb, hs, ht, hjump, hrecip⟩ := coupling?_eq_some_iff.mp hc
  have hab : a ≠ b := by
    rintro rfl
    exact hne (SystemIndex.system?_inj ha hb)
  -- The jump leads one way or the other, and the resistance is the same.
  have hresistance : 0 < Route.resistanceBetween config g.diplomacy s t := by
    rcases hjump with hjump | hjump
    · exact h a b s t hs ht hab hjump
    · rw [Route.resistanceBetween_comm]
      exact h b a t s ht hs hab.symm hjump
  obtain ⟨-, rfl⟩ := Scalar.recip?_eq_some_iff.mp hrecip
  exact inv_pos.mpr hresistance

theorem RoutesPositive.conductance_nonneg (h : g.RoutesPositive config) (i j : ℕ) :
    0 ≤ g.conductance config i j := by
  rw [conductance]
  cases hc : g.coupling? config i j with
  | none => exact le_rfl
  | some c => exact (h.pos_of_coupling? hc).le

/-- **Routes have positive resistance** in every galaxy with nebulae that are not negative, as long
as factions change a resistance by less than the whole of it. -/
theorem routesPositive_of_config (hbase : 0 < config.baseResistance)
    (hlow : -1 < config.factionModifier) (hhigh : config.factionModifier < 1)
    (hnebulae : ∀ key system, g.system? key = some system →
      0 ≤ system.nebula.density ∧ 0 ≤ system.nebula.volatility) : g.RoutesPositive config := by
  intro a b s t hs ht _ _
  obtain ⟨hsd, hsv⟩ := hnebulae a s hs
  obtain ⟨htd, htv⟩ := hnebulae b t ht
  have hclear : config.baseResistance ≤ config.baseResistance +
      (s.nebula.density + t.nebula.density) / Scalar.ofInt 1000 +
      (s.nebula.volatility + t.nebula.volatility) / Scalar.ofInt 100 := by
    have hdensity : 0 ≤ (s.nebula.density + t.nebula.density) / (1000 : ℝ) := by positivity
    have hvolatility : 0 ≤ (s.nebula.volatility + t.nebula.volatility) / (100 : ℝ) := by positivity
    simp only [Scalar.ofInt_eq]
    push_cast
    linarith
  -- What factions add or take off is less than the base.
  have hadd : -config.baseResistance < config.factionModifier * config.baseResistance := by
    nlinarith
  have htake : config.factionModifier * config.baseResistance < config.baseResistance := by
    nlinarith
  rw [Route.resistanceBetween]
  split
  · split
    · linarith
    · split
      · linarith
      · linarith
  · linarith

/-! ### The matrix -/

theorem sum_filterMap_range (f : ℕ → Option ℝ) (n : ℕ) :
    ((List.range n).filterMap f).sum = ∑ j ∈ Finset.range n, (f j).getD 0 := by
  induction n with
  | zero => rfl
  | succ n ih =>
    rw [List.range_succ, List.filterMap_append, List.sum_append, ih, Finset.sum_range_succ]
    cases hf : f n <;> simp [hf]

/-- **The matrix of a network is the grounded Laplacian of its conductances.** -/
theorem toMatrix_network (h : g.network config = .ok (index, m)) :
    m.toMatrix = groundedLaplacian config.selfResistance⁻¹
      (.of fun i j : Fin m.dim => g.conductance config i j) := by
  obtain ⟨ground, hrecip, -, rfl, hm⟩ := network_eq_ok_iff.mp h
  obtain ⟨-, rfl⟩ := Scalar.recip?_eq_some_iff.mp hrecip
  have hdim : m.dim = (SystemIndex.ofGalaxy g).size := by
    rw [(SparseMatrix.ofEntries_eq_ok_iff.mp hm).2]
  ext i j
  rw [groundedLaplacian, Matrix.sub_apply, of_apply]
  change (m.get? i j).getD 0 = _
  by_cases hij : i = j
  · -- On the diagonal stands the sum of the couplings, to which the system itself adds nothing.
    subst hij
    rw [get?_network_self hm (hdim ▸ i.isLt), sumThen_eq_foldl,
      (g.routeConductances_perm config i).foldl_op_eq, Scalar.foldl_add_eq, couplings,
      sum_filterMap_range, ← hdim, diagonal_apply_eq, conductance_self, sub_zero, Option.getD_some,
      Finset.sum_range]
    rfl
  · have hne : (i : ℕ) ≠ j := fun heq => hij (Fin.ext heq)
    rw [get?_network_of_ne hm hne, diagonal_apply_ne _ hij, zero_sub, conductance]
    cases g.coupling? config i j with
    | none => simp
    | some c => rfl

/-- A network with a matrix has a positive self resistance. -/
theorem selfResistance_pos (h : g.network config = .ok (index, m)) : 0 < config.selfResistance := by
  obtain ⟨ground, hrecip, hpos, -⟩ := network_eq_ok_iff.mp h
  obtain ⟨-, rfl⟩ := Scalar.recip?_eq_some_iff.mp hrecip
  exact inv_pos.mp (of_decide_eq_true hpos)

theorem wellFormed_network (h : g.network config = .ok (index, m)) : m.WellFormed := by
  obtain ⟨ground, -, -, -, hm⟩ := network_eq_ok_iff.mp h
  exact SparseMatrix.wellFormed_of_ofEntries hm

theorem isSymm_network (h : g.network config = .ok (index, m)) : m.IsSymm := by
  obtain ⟨ground, -, -, -, hm⟩ := network_eq_ok_iff.mp h
  intro i j
  by_cases hij : i = j
  · rw [hij]
  · rw [get?_network_of_ne hm hij, get?_network_of_ne hm (Ne.symm hij), coupling?_comm]

theorem isSymm_conductance (n : ℕ) :
    (Matrix.of fun i j : Fin n => g.conductance config i j).IsSymm :=
  Matrix.IsSymm.ext fun i j => conductance_comm (j : ℕ) i

/-- A positive self resistance is enough for a network to have a matrix. -/
theorem exists_network_of_pos (g : Galaxy ℝ) (hself : 0 < config.selfResistance) :
    ∃ m, g.network config = .ok (.ofGalaxy g, m) :=
  exists_network (Scalar.recip?_of_ne_zero hself.ne') (decide_eq_true (inv_pos.mpr hself))

/-- **Every method solves the matrix of a network** whose routes have positive resistance. -/
theorem isSolvable_network (hself : 0 < config.selfResistance) (hroutes : g.RoutesPositive config)
    (h : g.network config = .ok (index, m)) : m.IsSolvable where
  wellFormed := wellFormed_network h
  symm := isSymm_network h
  posDef := by
    rw [toMatrix_network h]
    exact groundedLaplacian.posDef (isSymm_conductance m.dim) (inv_pos.mpr hself)
      fun i j => hroutes.conductance_nonneg i j

/-! ### The energy -/

/-- What is spent between the pairs of all systems is spent between the coupled ones. -/
theorem sum_pairs_eq (n : ℕ) (hn : n = (SystemIndex.ofGalaxy g).size) (x : ℕ → ℝ) :
    ∑ p : Fin n × Fin n with p.1 < p.2, g.conductance config p.1 p.2 * (x p.1 - x p.2) ^ 2 =
      ∑ p ∈ g.coupledPairs config, g.conductance config p.1 p.2 * (x p.1 - x p.2) ^ 2 := by
  have hlt : ∀ p ∈ g.coupledPairs config, p.1 < n ∧ p.2 < n := by
    rintro ⟨i, j⟩ hp
    obtain ⟨c, hc⟩ := Option.isSome_iff_exists.mp (mem_coupledPairs_iff.mp hp).2
    exact hn ▸ (linked_of_coupling? hc).lt_size
  -- Only coupled pairs count on the left, and on the right each lies inside the matrix.
  refine Finset.sum_bij_ne_zero (fun p _ _ => (↑p.1, ↑p.2)) ?_ ?_ ?_ fun _ _ _ => rfl
  · rintro ⟨i, j⟩ hp hspent
    refine mem_coupledPairs_iff.mpr ⟨(Finset.mem_filter.mp hp).2, ?_⟩
    -- Where nothing is coupled nothing is spent.
    by_contra hnone
    refine hspent ?_
    change (g.coupling? config i j).getD 0 * _ = 0
    rw [Option.not_isSome_iff_eq_none.mp hnone, Option.getD_none, zero_mul]
  · rintro ⟨i, j⟩ _ _ ⟨k, l⟩ _ _ heq
    obtain ⟨hik, hjl⟩ := Prod.mk.inj heq
    exact Prod.ext (Fin.ext hik) (Fin.ext hjl)
  · rintro ⟨i, j⟩ hp hspent
    obtain ⟨hi, hj⟩ := hlt (i, j) hp
    exact ⟨(⟨i, hi⟩, ⟨j, hj⟩), Finset.mem_filter.mpr
      ⟨Finset.mem_univ _, (mem_coupledPairs_iff.mp hp).1⟩, hspent, rfl⟩

/-- **The energy of a network** is spent in the ground and between the coupled systems. -/
theorem dot_mulVec_network (h : g.network config = .ok (index, m)) {x : List ℝ}
    (hx : x.length = m.dim) : Vector.dot x (m.mulVec x) =
      ∑ i ∈ Finset.range m.dim, x.getD i 0 ^ 2 / config.selfResistance +
        ∑ p ∈ g.coupledPairs config,
          g.conductance config p.1 p.2 * (x.getD p.1 0 - x.getD p.2 0) ^ 2 := by
  obtain ⟨rfl, hdim⟩ := dim_network h
  -- From lists to coordinates, to the energy of resistors, and back to the coupled pairs of
  -- systems.
  calc Vector.dot x (m.mulVec x)
      = Vector.coords m.dim x ⬝ᵥ (m.toMatrix *ᵥ Vector.coords m.dim x) := by
        rw [Vector.dot_eq_dotProduct hx (m.length_mulVec x),
          SparseMatrix.coords_mulVec (wellFormed_network h) hx]
    _ = config.selfResistance⁻¹ * ∑ i : Fin m.dim, x.getD i 0 ^ 2 +
        ∑ p : Fin m.dim × Fin m.dim with p.1 < p.2,
          g.conductance config p.1 p.2 * (x.getD p.1 0 - x.getD p.2 0) ^ 2 := by
        rw [toMatrix_network h,
          groundedLaplacian.energy_eq_sum_pairs (isSymm_conductance m.dim)]
        rfl
    _ = ∑ i ∈ Finset.range m.dim, x.getD i 0 ^ 2 / config.selfResistance +
        ∑ p ∈ g.coupledPairs config,
          g.conductance config p.1 p.2 * (x.getD p.1 0 - x.getD p.2 0) ^ 2 := by
        rw [sum_pairs_eq m.dim hdim fun i => x.getD i 0,
          ← Finset.sum_range fun i => x.getD i 0 ^ 2, Finset.mul_sum]
        simp only [div_eq_inv_mul]

end GalaxyMarket.Galaxy
