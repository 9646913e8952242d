import Mathlib

/-!
# Networks of resistors

The grounded Laplacian of a symmetric matrix of conductances, over the real numbers, and what every
such network does, whatever its shape.

* `sum_row`, `sum_col`, `sum_mulVec` — whatever the conductances, rows and columns sum to the
  ground, through which all current leaves.
* `energy_eq` — the energy `xᵀ G x` is spent in the ground and in the resistors: it is
  `ground * ∑ x i ^ 2` and for each pair of nodes `c i j * (x i - x j) ^ 2`.
* `sum_abs_lt_diagonal`, `posDef` — a ground and conductances that are not negative make `G`
  diagonally dominant and positive definite.
* `le_of_mulVec_le` — the discrete maximum principle: larger currents give larger potentials.
* `mulVec_comp`, `isUnit_part` — a part that no resistor leaves is a network of its own.
* `mulVec_of_new`, `difference_of_new` — a new resistor brings the potentials at its ends together.

Most of them read a row of `G` as the current that flows out of a node, `mulVec_apply`.
-/

namespace GalaxyMarket

open Matrix Finset

variable {ι : Type*} [Fintype ι] [DecidableEq ι]

/-- The Laplacian of conductances `c`, with each node tied to the ground as well. -/
def groundedLaplacian (ground : ℝ) (c : Matrix ι ι ℝ) : Matrix ι ι ℝ :=
  diagonal (fun i => ground + ∑ j, c i j) - c

namespace groundedLaplacian

variable {ground : ℝ} {c : Matrix ι ι ℝ}

/-- The current out of a node: to the ground, and along each resistor by the difference of the
potentials at its ends. -/
theorem mulVec_apply (x : ι → ℝ) (i : ι) :
    (groundedLaplacian ground c *ᵥ x) i = ground * x i + ∑ j, c i j * (x i - x j) := by
  have hsplit : ∑ j, c i j * (x i - x j) = (∑ j, c i j) * x i - ∑ j, c i j * x j := by
    rw [sum_mul, ← sum_sub_distrib]
    exact sum_congr rfl fun j _ => mul_sub _ _ _
  rw [groundedLaplacian, sub_mulVec, Pi.sub_apply, mulVec_diagonal, hsplit, mulVec, dotProduct]
  ring

theorem isSymm (hc : c.IsSymm) : (groundedLaplacian ground c).IsSymm := by
  rw [groundedLaplacian]
  exact (isSymm_diagonal _).sub hc

/-- Each row sums to the ground. -/
theorem sum_row (i : ι) : ∑ j, groundedLaplacian ground c i j = ground := by
  have h : (groundedLaplacian ground c *ᵥ fun _ => 1) i = _ := mulVec_apply (fun _ => 1) i
  simpa [mulVec, dotProduct] using h

/-- And so does each column. -/
theorem sum_col (hc : c.IsSymm) (j : ι) : ∑ i, groundedLaplacian ground c i j = ground := by
  refine Eq.trans (sum_congr rfl fun i _ => ?_) (sum_row (c := c) j)
  exact (isSymm hc).apply j i

/-- **All current leaves through the ground**: what flows between the nodes cancels. -/
theorem sum_mulVec (hc : c.IsSymm) (x : ι → ℝ) :
    ∑ i, (groundedLaplacian ground c *ᵥ x) i = ground * ∑ i, x i := by
  calc ∑ i, (groundedLaplacian ground c *ᵥ x) i
      = ∑ j, ∑ i, groundedLaplacian ground c i j * x j := by
        simp only [mulVec, dotProduct]
        exact sum_comm
    _ = ∑ j, ground * x j := by
        refine sum_congr rfl fun j _ => ?_
        rw [← sum_mul, sum_col hc]
    _ = ground * ∑ i, x i := (mul_sum ..).symm

/-- **A ground makes a network diagonally dominant.** -/
theorem sum_abs_lt_diagonal (hground : 0 < ground) (hnonneg : ∀ i j, 0 ≤ c i j) (i : ι) :
    ∑ j ∈ univ.erase i, |groundedLaplacian ground c i j| < groundedLaplacian ground c i i := by
  -- Beside the diagonal stand the conductances, on it their sum and the ground.
  have hoff : ∀ j ∈ univ.erase i, |groundedLaplacian ground c i j| = c i j := by
    intro j hj
    rw [groundedLaplacian, Matrix.sub_apply, diagonal_apply_ne' _ (ne_of_mem_erase hj), zero_sub,
      abs_neg, abs_of_nonneg (hnonneg i j)]
  have hself : groundedLaplacian ground c i i = ground + ∑ j ∈ univ.erase i, c i j := by
    rw [groundedLaplacian, Matrix.sub_apply, diagonal_apply_eq, ← add_sum_erase _ _ (mem_univ i)]
    ring
  rw [sum_congr rfl hoff, hself]
  linarith

/-- **The energy of a network.** Each resistor is counted from both of its ends. -/
theorem energy_eq (hc : c.IsSymm) (x : ι → ℝ) :
    x ⬝ᵥ (groundedLaplacian ground c *ᵥ x) =
      ground * ∑ i, x i ^ 2 + 2⁻¹ * ∑ i, ∑ j, c i j * (x i - x j) ^ 2 := by
  -- Seen from the other end, the current along a resistor runs the other way.
  have hswap : ∑ i, ∑ j, c i j * (x i - x j) * x i = ∑ i, ∑ j, c i j * (x j - x i) * x j := by
    rw [sum_comm]
    exact sum_congr rfl fun j _ => sum_congr rfl fun i _ => by rw [hc.apply j i]
  have hsum : ∑ i, ∑ j, c i j * (x i - x j) ^ 2 =
      ∑ i, ∑ j, c i j * (x i - x j) * x i + ∑ i, ∑ j, c i j * (x j - x i) * x j := by
    rw [← sum_add_distrib]
    refine sum_congr rfl fun i _ => ?_
    rw [← sum_add_distrib]
    exact sum_congr rfl fun j _ => by ring
  calc x ⬝ᵥ (groundedLaplacian ground c *ᵥ x)
      = ∑ i, (ground * x i ^ 2 + ∑ j, c i j * (x i - x j) * x i) := by
        refine sum_congr rfl fun i _ => ?_
        rw [mulVec_apply, ← sum_mul]
        ring
    _ = ground * ∑ i, x i ^ 2 + ∑ i, ∑ j, c i j * (x i - x j) * x i := by
        rw [sum_add_distrib, mul_sum]
    _ = ground * ∑ i, x i ^ 2 + 2⁻¹ * ∑ i, ∑ j, c i j * (x i - x j) ^ 2 := by
        rw [hsum, ← hswap]
        ring

/-- **The energy of a network**, with each resistor counted once. -/
theorem energy_eq_sum_pairs [LinearOrder ι] (hc : c.IsSymm) (x : ι → ℝ) :
    x ⬝ᵥ (groundedLaplacian ground c *ᵥ x) = ground * ∑ i, x i ^ 2 +
      ∑ p : ι × ι with p.1 < p.2, c p.1 p.2 * (x p.1 - x p.2) ^ 2 := by
  let spent (p : ι × ι) : ℝ := c p.1 p.2 * (x p.1 - x p.2) ^ 2
  have hswap : ∀ p, spent p.swap = spent p := by
    rintro ⟨i, j⟩
    change c j i * (x j - x i) ^ 2 = c i j * (x i - x j) ^ 2
    rw [hc.apply i j]
    ring
  -- Nothing is spent on the diagonal, and below it each pair comes again.
  have hpoint : ∀ p, spent p =
      (if p.1 < p.2 then spent p else 0) + if p.2 < p.1 then spent p else 0 := by
    intro p
    rcases lt_trichotomy p.1 p.2 with h | h | h
    · rw [if_pos h, if_neg h.not_gt, add_zero]
    · have hzero : spent p = 0 := by simp [spent, h]
      simp [hzero]
    · rw [if_neg h.not_gt, if_pos h, zero_add]
  have hflip : ∑ p with p.2 < p.1, spent p = ∑ p with p.1 < p.2, spent p :=
    sum_nbij' Prod.swap Prod.swap (by simp) (by simp) (by simp) (by simp) fun p _ => (hswap p).symm
  have hhalf : ∑ i, ∑ j, c i j * (x i - x j) ^ 2 = 2 * ∑ p with p.1 < p.2, spent p := by
    rw [← sum_product', univ_product_univ]
    change ∑ p, spent p = _
    rw [sum_congr rfl fun p _ => hpoint p, sum_add_distrib, ← sum_filter, ← sum_filter, hflip]
    ring
  rw [energy_eq hc, hhalf]
  ring

/-- **A ground makes a network positive definite.** -/
theorem posDef (hc : c.IsSymm) (hground : 0 < ground) (hnonneg : ∀ i j, 0 ≤ c i j) :
    (groundedLaplacian ground c).PosDef := by
  refine PosDef.of_dotProduct_mulVec_pos ?_ fun x hx => ?_
  · exact (isHermitian_iff_isSymm).mpr (isSymm hc)
  · obtain ⟨k, hk⟩ := Function.ne_iff.mp hx
    have hspent : 0 ≤ ∑ i, ∑ j, c i j * (x i - x j) ^ 2 :=
      sum_nonneg fun i _ => sum_nonneg fun j _ => mul_nonneg (hnonneg i j) (sq_nonneg _)
    have hsq : 0 < ∑ i, x i ^ 2 :=
      sum_pos' (fun i _ => sq_nonneg _) ⟨k, mem_univ k, sq_pos_of_ne_zero hk⟩
    rw [star_trivial, energy_eq hc]
    positivity

/-- **The maximum principle.** At a node where the difference of two potentials is least, no current
of the difference comes in from the other nodes, so that it is not negative there. -/
theorem le_of_mulVec_le (hground : 0 < ground) (hnonneg : ∀ i j, 0 ≤ c i j) {x y : ι → ℝ}
    (h : ∀ i, (groundedLaplacian ground c *ᵥ x) i ≤ (groundedLaplacian ground c *ᵥ y) i) (i : ι) :
    x i ≤ y i := by
  -- The node where the second potential exceeds the first the least.
  obtain ⟨k, -, hk⟩ := exists_min_image univ (fun j => y j - x j) ⟨i, mem_univ i⟩
  have hflow : ∑ j, c k j * ((y k - x k) - (y j - x j)) ≤ 0 :=
    sum_nonpos fun j _ => mul_nonpos_of_nonneg_of_nonpos (hnonneg k j)
      (sub_nonpos.mpr (hk j (mem_univ j)))
  have hcurrent : 0 ≤ ground * (y k - x k) + ∑ j, c k j * ((y k - x k) - (y j - x j)) := by
    have hdiff : (groundedLaplacian ground c *ᵥ (y - x)) k =
        (groundedLaplacian ground c *ᵥ y) k - (groundedLaplacian ground c *ᵥ x) k := by
      rw [mulVec_sub, Pi.sub_apply]
    rw [mulVec_apply] at hdiff
    have := h k
    simp only [Pi.sub_apply] at hdiff
    linarith
  -- Were it negative there, the ground would draw current that nobody brings.
  have hleast : 0 ≤ y k - x k := by
    by_contra hneg
    have := mul_neg_of_pos_of_neg hground (not_le.mp hneg)
    linarith
  have := hk i (mem_univ i)
  linarith

/-! ### Parts of a network -/

section Part

variable {κ : Type*} [Fintype κ] [DecidableEq κ] {e : κ → ι}

/-- **A part that no resistor leaves** has the currents that it has in the whole: what there is
beyond it does not count. -/
theorem mulVec_comp (he : Function.Injective e) (hclosed : ∀ k, ∀ i ∉ Set.range e, c (e k) i = 0)
    (x : ι → ℝ) : groundedLaplacian ground (c.submatrix e e) *ᵥ (x ∘ e) =
      (groundedLaplacian ground c *ᵥ x) ∘ e := by
  funext k
  show _ = (groundedLaplacian ground c *ᵥ x) (e k)
  rw [mulVec_apply, mulVec_apply]
  apply congrArg (ground * x (e k) + ·)
  apply Fintype.sum_of_injective e he
  · intro i hi
    rw [hclosed k i hi, zero_mul]
  · intro l
    rfl

/-- The matrix of such a part is a part of the matrix. -/
theorem submatrix_eq (he : Function.Injective e)
    (hclosed : ∀ k, ∀ i ∉ Set.range e, c (e k) i = 0) :
    groundedLaplacian ground (c.submatrix e e) = (groundedLaplacian ground c).submatrix e e := by
  ext k l
  have hsum : ∑ l, c (e k) (e l) = ∑ i, c (e k) i :=
    Fintype.sum_of_injective e he _ _ (hclosed k) fun _ => rfl
  simp only [groundedLaplacian, Matrix.sub_apply, submatrix_apply, diagonal_apply, he.eq_iff, hsum]

/-- **A part of an invertible network is invertible**, if no resistor leaves it: potentials of the
part that give no current can be continued by zero. -/
theorem isUnit_part (hc : c.IsSymm) (he : Function.Injective e)
    (hclosed : ∀ k, ∀ i ∉ Set.range e, c (e k) i = 0)
    (hunit : IsUnit (groundedLaplacian ground c)) :
    IsUnit (groundedLaplacian ground (c.submatrix e e)) := by
  apply mulVec_injective_iff_isUnit.mp
  apply (injective_iff_map_eq_zero (mulVecLin (groundedLaplacian ground (c.submatrix e e)))).mpr
  intro y hy
  let x : ι → ℝ := Function.extend e y 0
  have hpart : x ∘ e = y := Function.extend_comp he y 0
  have hzero : groundedLaplacian ground c *ᵥ x = 0 := by
    funext i
    by_cases hi : i ∈ Set.range e
    · obtain ⟨k, rfl⟩ := hi
      have hcurrent : (groundedLaplacian ground (c.submatrix e e) *ᵥ (x ∘ e)) k =
          (groundedLaplacian ground c *ᵥ x) (e k) := congrFun (mulVec_comp he hclosed x) k
      rw [hpart] at hcurrent
      exact hcurrent.symm.trans (congrFun hy k)
    · -- Beyond the part all is zero, and what is not lies where no resistor leads to.
      have hbeyond : ∀ j ∉ Set.range e, x j = 0 :=
        fun j hj => Function.extend_apply' y (0 : ι → ℝ) j hj
      rw [mulVec_apply, hbeyond i hi, mul_zero, zero_add]
      apply sum_eq_zero
      intro j _
      by_cases hj : j ∈ Set.range e
      · obtain ⟨l, rfl⟩ := hj
        rw [hc.apply (e l) i, hclosed l i hi, zero_mul]
      · rw [hbeyond j hj, sub_zero, mul_zero]
  have hx : x = 0 := by
    apply mulVec_injective_iff_isUnit.mpr hunit
    rw [hzero, mulVec_zero]
  rw [← hpart, hx]
  rfl

end Part

/-! ### A new resistor -/

section NewResistor

variable {c' : Matrix ι ι ℝ} {a b : ι} {k : ℝ}

/-- **A new resistor** carries a current out of one of its ends and into the other, by the
difference of the potentials there. All other currents stay. -/
theorem mulVec_of_new (hab : a ≠ b)
    (hnew : ∀ i j, c' i j = c i j + if s(i, j) = s(a, b) then k else 0) (x : ι → ℝ) :
    groundedLaplacian ground c' *ᵥ x =
      groundedLaplacian ground c *ᵥ x + (k * (x a - x b)) • (Pi.single a 1 - Pi.single b 1) := by
  funext i
  have hsplit : ∑ j, c' i j * (x i - x j) =
      ∑ j, c i j * (x i - x j) + ∑ j, (if s(i, j) = s(a, b) then k else 0) * (x i - x j) := by
    rw [← sum_add_distrib]
    apply sum_congr rfl
    intro j _
    rw [hnew, add_mul]
  -- At each of its ends, the resistor leads to the other one alone.
  have hcurrent : ∑ j, (if s(i, j) = s(a, b) then k else 0) * (x i - x j) =
      k * (x a - x b) * ((Pi.single a 1 : ι → ℝ) i - (Pi.single b 1 : ι → ℝ) i) := by
    by_cases hia : i = a
    · subst hia
      simp [ite_mul, hab]
    · by_cases hib : i = b
      · subst hib
        simp only [Sym2.eq_swap (a := a), Sym2.congr_right, ite_mul, zero_mul, sum_ite_eq',
          mem_univ, if_true, Pi.single_eq_same, Pi.single_eq_of_ne hia]
        ring
      · have hnone : ∀ j, ¬ s(i, j) = s(a, b) := by
          intro j hij
          rcases Sym2.eq_iff.mp hij with ⟨h, -⟩ | ⟨h, -⟩
          · exact hia h
          · exact hib h
        simp [hnone, hia, hib]
  show (groundedLaplacian ground c' *ᵥ x) i = (groundedLaplacian ground c *ᵥ x) i +
    k * (x a - x b) * ((Pi.single a 1 : ι → ℝ) i - (Pi.single b 1 : ι → ℝ) i)
  rw [mulVec_apply, mulVec_apply, hsplit, hcurrent, add_assoc]

/-- **A new resistor brings its ends together** when the same currents enter the network: what the
difference of the potentials loses has the sign of what is left. -/
theorem difference_of_new (hab : a ≠ b)
    (hnew : ∀ i j, c' i j = c i j + if s(i, j) = s(a, b) then k else 0) (hk : 0 < k)
    (hpos : (groundedLaplacian ground c).PosDef) {x x' : ι → ℝ}
    (hsame : groundedLaplacian ground c' *ᵥ x' = groundedLaplacian ground c *ᵥ x) :
    x' a - x' b = 0 ∧ x a - x b = 0 ∨
      0 < (x' a - x' b) * ((x a - x b) - (x' a - x' b)) := by
  -- What changes is driven by the current through the new resistor.
  have hdriven : groundedLaplacian ground c *ᵥ (x - x') =
      (k * (x' a - x' b)) • (Pi.single a 1 - Pi.single b 1) := by
    rw [mulVec_sub, ← hsame, mulVec_of_new hab hnew, add_sub_cancel_left]
  by_cases hzero : x - x' = 0
  · -- Nothing changes, so that no current flows.
    have hnone : k * (x' a - x' b) = 0 := by
      have hcurrent := congrFun hdriven a
      rw [hzero, mulVec_zero] at hcurrent
      simpa [hab] using hcurrent.symm
    have hlevel : x' a - x' b = 0 := (mul_eq_zero.mp hnone).resolve_left hk.ne'
    refine Or.inl ⟨hlevel, ?_⟩
    rw [sub_eq_zero.mp hzero, hlevel]
  · -- The energy of the change is positive.
    have henergy : 0 < (x - x') ⬝ᵥ (groundedLaplacian ground c *ᵥ (x - x')) := by
      have h := hpos.dotProduct_mulVec_pos hzero
      rwa [star_trivial] at h
    have hspent : (x - x') ⬝ᵥ (groundedLaplacian ground c *ᵥ (x - x')) =
        k * ((x' a - x' b) * ((x a - x b) - (x' a - x' b))) := by
      rw [hdriven, dotProduct_smul, dotProduct_sub, dotProduct_single, dotProduct_single]
      simp only [Pi.sub_apply, smul_eq_mul]
      ring
    rw [hspent] at henergy
    exact Or.inr (pos_of_mul_pos_right henergy hk.le)

end NewResistor

end groundedLaplacian

end GalaxyMarket
