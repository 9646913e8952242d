import Mathlib
import GalaxyMarket.Proofs.Market.Solves

/-!
# Potentials obey the maximum principle

Where all routes have positive resistance, larger intensities give larger potentials
(`network_potentials_mono`). The potential that level intensities give is level as well, so that
every potential lies between the self resistance times the least and times the greatest intensity.
-/

namespace GalaxyMarket

open Matrix

/-! ### Vectors entry by entry -/

/-- Vectors compare entry by entry. -/
theorem Vector.forall₂_le_iff {n : ℕ} {x y : List ℝ} (hx : x.length = n) (hy : y.length = n) :
    List.Forall₂ (· ≤ ·) x y ↔ ∀ i, Vector.coords n x i ≤ Vector.coords n y i := by
  rw [List.forall₂_iff_get]
  have hget : ∀ (z : List ℝ) (i : ℕ) (h : i < z.length) (h' : i < n),
      z.get ⟨i, h⟩ = Vector.coords n z ⟨i, h'⟩ := by
    intro z i h h'
    rw [Vector.coords, List.getD_eq_getElem _ _ h, List.get_eq_getElem]
  constructor
  · rintro ⟨-, h⟩ ⟨i, hi⟩
    rw [← hget x i (hx ▸ hi), ← hget y i (hy ▸ hi)]
    exact h i _ _
  · refine fun h => ⟨hx.trans hy.symm, fun i hi hi' => ?_⟩
    rw [hget x i hi (hx ▸ hi), hget y i hi' (hx ▸ hi)]
    exact h _

/-- A vector lies on one side of a level one if all its entries do. -/
theorem Vector.forall₂_replicate_iff {n : ℕ} {x : List ℝ} (hx : x.length = n) (c : ℝ)
    (r : ℝ → ℝ → Prop) : List.Forall₂ r (.replicate n c) x ↔ ∀ v ∈ x, r c v := by
  subst hx
  induction x with
  | nil => simp
  | cons v x ih =>
    rw [List.length_cons, List.replicate_succ, List.forall₂_cons, ih, List.forall_mem_cons]

namespace Galaxy

variable {g : Galaxy ℝ} {config : Config ℝ} {index : SystemIndex} {m : SparseMatrix ℝ}

/-- **The maximum principle** for the product of the network's matrix. -/
theorem forall₂_le_of_mulVec (hself : 0 < config.selfResistance)
    (hroutes : g.RoutesPositive config) (h : g.network config = .ok (index, m)) {x y : List ℝ}
    (hx : x.length = m.dim) (hy : y.length = m.dim)
    (hle : List.Forall₂ (· ≤ ·) (m.mulVec x) (m.mulVec y)) : List.Forall₂ (· ≤ ·) x y := by
  have hwf := wellFormed_network h
  rw [Vector.forall₂_le_iff (m.length_mulVec x) (m.length_mulVec y),
    SparseMatrix.coords_mulVec hwf hx, SparseMatrix.coords_mulVec hwf hy, toMatrix_network h] at hle
  rw [Vector.forall₂_le_iff hx hy]
  refine groundedLaplacian.le_of_mulVec_le (inv_pos.mpr hself) ?_ hle
  exact fun i j => hroutes.conductance_nonneg i j

/-- Level potentials come from level intensities: nothing flows between the systems. -/
theorem mulVec_replicate (hself : 0 < config.selfResistance)
    (h : g.network config = .ok (index, m)) (level : ℝ) :
    m.mulVec (.replicate m.dim (config.selfResistance * level)) = .replicate m.dim level := by
  have hlevel : ∀ c : ℝ, Vector.coords m.dim (.replicate m.dim c) = fun _ => c := by
    intro c
    funext i
    simp [Vector.coords]
  refine (Vector.coords_inj (m.length_mulVec _) List.length_replicate).mp ?_
  rw [SparseMatrix.coords_mulVec (wellFormed_network h) List.length_replicate, hlevel, hlevel,
    toMatrix_network h]
  -- The differences between neighbours vanish, and only the ground is left.
  funext i
  rw [groundedLaplacian.mulVec_apply]
  simp only [sub_self, mul_zero, Finset.sum_const_zero, add_zero]
  exact inv_mul_cancel_left₀ hself.ne' level

end Galaxy

/-! ### Potentials -/

/-- **Larger intensities give larger potentials**, and every potential lies between the self
resistance times the least and times the greatest intensity. -/
theorem network_potentials_mono {g : Galaxy ℝ} {config : Config ℝ} {index : SystemIndex}
    {m : SparseMatrix ℝ} (hself : 0 < config.selfResistance) (hroutes : g.RoutesPositive config)
    (h : g.network config = .ok (index, m)) :
    (∀ solver : Solver ℝ, solver.IsExact → ∀ I : List ℝ, I.length = m.dim →
      ∃ x, (solver.prepare m).solve I = .ok x ∧ x.length = m.dim ∧ m.mulVec x = I) ∧
    ∀ x I : List ℝ, x.length = m.dim → m.mulVec x = I →
      (∀ x' I' : List ℝ, x'.length = m.dim → m.mulVec x' = I' → List.Forall₂ (· ≤ ·) I I' →
        List.Forall₂ (· ≤ ·) x x') ∧
      (∀ least, (∀ c ∈ I, least ≤ c) → ∀ v ∈ x, config.selfResistance * least ≤ v) ∧
      (∀ greatest, (∀ c ∈ I, c ≤ greatest) → ∀ v ∈ x, v ≤ config.selfResistance * greatest) ∧
      ((∀ c ∈ I, 0 ≤ c) → ∀ v ∈ x, 0 ≤ v) := by
  refine ⟨fun solver hsolver I hI => Solver.exists_solve
    (Galaxy.isSolvable_network hself hroutes h) hsolver hI, ?_⟩
  rintro x I hx rfl
  have hbelow : ∀ least, (∀ c ∈ m.mulVec x, least ≤ c) →
      ∀ v ∈ x, config.selfResistance * least ≤ v := by
    intro least hleast
    -- Compare with the potential that is level at the bound.
    refine (Vector.forall₂_replicate_iff hx _ _).mp
      (Galaxy.forall₂_le_of_mulVec hself hroutes h List.length_replicate hx ?_)
    rw [Galaxy.mulVec_replicate hself h]
    exact (Vector.forall₂_replicate_iff (m.length_mulVec x) least _).mpr hleast
  refine ⟨?_, hbelow, fun greatest hgreatest => ?_, fun hnonneg => ?_⟩
  · rintro x' I' hx' rfl hle
    exact Galaxy.forall₂_le_of_mulVec hself hroutes h hx hx' hle
  · have hlevel : List.Forall₂ (· ≤ ·) x
        (.replicate m.dim (config.selfResistance * greatest)) := by
      refine Galaxy.forall₂_le_of_mulVec hself hroutes h hx List.length_replicate ?_
      rw [Galaxy.mulVec_replicate hself h]
      exact ((Vector.forall₂_replicate_iff (m.length_mulVec x) greatest (· ≥ ·)).mpr
        hgreatest).flip
    exact (Vector.forall₂_replicate_iff hx _ (· ≥ ·)).mp hlevel.flip
  · have hzero := hbelow 0 hnonneg
    rwa [mul_zero] at hzero

/-- In the trio, more intensity in one system lowers no potential. -/
theorem network_potentials_mono_trio : ∃ index m x x',
    trio.network Config.standard = .ok (index, m) ∧ x.length = 3 ∧ x'.length = 3 ∧
      m.mulVec x = [1, 2, 3] ∧ m.mulVec x' = [4, 2, 3] ∧ List.Forall₂ (· ≤ ·) x x' ∧
      ∀ v ∈ x, 3 ≤ v ∧ v ≤ 9 := by
  have hself : 0 < (Config.standard : Config ℝ).selfResistance := by norm_num [Config.standard]
  obtain ⟨m, hm⟩ := Galaxy.exists_network_of_pos trio hself
  have hdim : m.dim = 3 := (Galaxy.dim_network hm).2
  obtain ⟨hsolve, hpotentials⟩ := network_potentials_mono hself routesPositive_trio hm
  obtain ⟨x, -, hx, hmul⟩ := hsolve .cholesky trivial [1, 2, 3] hdim.symm
  obtain ⟨x', -, hx', hmul'⟩ := hsolve .cholesky trivial [4, 2, 3] hdim.symm
  obtain ⟨hmono, hleast, hgreatest, -⟩ := hpotentials x _ hx hmul
  refine ⟨_, m, x, x', hm, hx.trans hdim, hx'.trans hdim, hmul, hmul',
    hmono x' _ hx' hmul' (by norm_num), fun v hv => ?_⟩
  have hlow := hleast 1 (by norm_num) v hv
  have hhigh := hgreatest 3 (by norm_num) v hv
  norm_num [Config.standard] at hlow hhigh
  exact ⟨hlow, hhigh⟩

end GalaxyMarket
