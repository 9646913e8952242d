import Mathlib
import GalaxyMarket.Linear.ConjugateGradient
import GalaxyMarket.Proofs.Linear.Dense

/-!
# Conjugate gradients come to an end

Over exact numbers the search for a solution of `A x = b`, with `A` symmetric and positive definite,
is never refused and needs at most as many steps as there are rows. Whatever the matrix, what a
search finds leaves no more of `b` than was asked for.

The latter rests on an account that every point keeps (`Accounted`): the residual, which is worked
out step by step and never from the place, is all the same what the place leaves of `b`. For the
former the invariant carries along the space `S` of all directions the search went so far
(`Conjugate`): what is left of the right-hand side is orthogonal to it, and the next direction is
conjugate to it. A step adds the direction to `S`, which it was not in, so the dimension of `S`
grows with each step (`Conjugate.next`). It cannot pass the number of rows; a search that went
through all of it has nothing left. `search` itself is related to this by `Reached`.

A right-hand side that the matrix only stretches needs a single step, and no more of the matrix than
that (`solve_of_mulVec_eq`).
-/

namespace GalaxyMarket.ConjugateGradient

open Matrix

section Directions

variable {n : ℕ} {A : Matrix (Fin n) (Fin n) ℝ} {S : Submodule ℝ (Fin n → ℝ)} {r p : Fin n → ℝ}

/-- The state of a search with the directions `S` behind it, `r` left, and `p` to go. -/
structure Conjugate (A : Matrix (Fin n) (Fin n) ℝ) (S : Submodule ℝ (Fin n → ℝ))
    (r p : Fin n → ℝ) : Prop where
  orthogonal : ∀ s ∈ S, r ⬝ᵥ s = 0
  conjugate : ∀ s ∈ S, (A *ᵥ p) ⬝ᵥ s = 0
  near : p - r ∈ S
  image : ∀ s ∈ S, A *ᵥ s ∈ S ⊔ Submodule.span ℝ {p}

/-- What has no length is zero. -/
theorem eq_zero_of_sqrt_le_zero {x : Fin n → ℝ} (h : √(x ⬝ᵥ x) ≤ 0) : x = 0 := by
  have hnonneg : 0 ≤ x ⬝ᵥ x := Finset.sum_nonneg fun i _ => mul_self_nonneg (x i)
  have hzero := (Real.sqrt_eq_zero hnonneg).mp (le_antisymm h (Real.sqrt_nonneg _))
  exact dotProduct_self_eq_zero.mp hzero

/-- A symmetric matrix goes from one side of a product to the other. -/
theorem mulVec_dotProduct_comm (hA : A.PosDef) (x y : Fin n → ℝ) :
    (A *ᵥ x) ⬝ᵥ y = x ⬝ᵥ (A *ᵥ y) := by
  rw [dotProduct_mulVec, ← mulVec_transpose, (isHermitian_iff_isSymm.mp hA.isHermitian).eq]

/-- What is orthogonal to a space and to one more direction is so to the space that both span. -/
theorem dotProduct_eq_zero_of_mem_sup (hS : ∀ s ∈ S, r ⬝ᵥ s = 0) (hp : r ⬝ᵥ p = 0)
    {s : Fin n → ℝ} (hs : s ∈ S ⊔ Submodule.span ℝ {p}) : r ⬝ᵥ s = 0 := by
  obtain ⟨t, ht, u, hu, rfl⟩ := Submodule.mem_sup.mp hs
  obtain ⟨c, rfl⟩ := Submodule.mem_span_singleton.mp hu
  rw [dotProduct_add, dotProduct_smul, hS t ht, hp, smul_zero, add_zero]

/-- The start of a search. -/
theorem Conjugate.start (A : Matrix (Fin n) (Fin n) ℝ) (b : Fin n → ℝ) : Conjugate A ⊥ b b where
  orthogonal s hs := by rw [(Submodule.mem_bot ℝ).mp hs, dotProduct_zero]
  conjugate s hs := by rw [(Submodule.mem_bot ℝ).mp hs, dotProduct_zero]
  near := by rw [sub_self]; exact Submodule.zero_mem _
  image s hs := by
    rw [(Submodule.mem_bot ℝ).mp hs, mulVec_zero]
    exact Submodule.zero_mem _

/-- The direction goes as far along what is left as what is left is long. -/
theorem Conjugate.dotProduct_direction (h : Conjugate A S r p) : r ⬝ᵥ p = r ⬝ᵥ r := by
  have hnear := h.orthogonal (p - r) h.near
  rw [dotProduct_sub, sub_eq_zero] at hnear
  exact hnear

/-- While something is left the direction is not zero, and its curvature is positive. -/
theorem Conjugate.curvature_pos (hA : A.PosDef) (h : Conjugate A S r p) (hr : r ≠ 0) :
    0 < p ⬝ᵥ (A *ᵥ p) := by
  refine hA.dotProduct_mulVec_pos fun hp => hr ?_
  have hzero := h.dotProduct_direction
  rw [hp, dotProduct_zero] at hzero
  exact dotProduct_self_eq_zero.mp hzero.symm

/-- **One step of the search.** -/
theorem Conjugate.next (hA : A.PosDef) (h : Conjugate A S r p) (hr : r ≠ 0) {r' p' : Fin n → ℝ}
    (hr' : r' = -(r ⬝ᵥ r / p ⬝ᵥ (A *ᵥ p)) • (A *ᵥ p) + r)
    (hp' : p' = (r' ⬝ᵥ r' / r ⬝ᵥ r) • p + r') :
    Conjugate A (S ⊔ Submodule.span ℝ {p}) r' p' := by
  have hcurvature := h.curvature_pos hA hr
  have hlength : 0 < r ⬝ᵥ r :=
    (Finset.sum_nonneg fun i _ => mul_self_nonneg (r i)).lt_of_ne'
      fun hzero => hr (dotProduct_self_eq_zero.mp hzero)
  have hp : p ∈ S ⊔ Submodule.span ℝ {p} :=
    Submodule.mem_sup_right (Submodule.mem_span_singleton_self p)
  -- What is left differs from the direction by an old direction.
  have hmem : r ∈ S ⊔ Submodule.span ℝ {p} := by
    have := Submodule.sub_mem _ hp (Submodule.mem_sup_left h.near)
    rwa [sub_sub_cancel] at this
  have horthogonal : ∀ s ∈ S ⊔ Submodule.span ℝ {p}, r' ⬝ᵥ s = 0 := by
    refine fun s hs => dotProduct_eq_zero_of_mem_sup (fun s hs => ?_) ?_ hs
    · -- Old directions: the image of `p` is orthogonal to them, and so is what was left.
      rw [hr', add_dotProduct, smul_dotProduct, h.conjugate s hs, h.orthogonal s hs, smul_zero,
        add_zero]
    · -- The direction itself: the step is as long as it takes.
      rw [hr', add_dotProduct, smul_dotProduct, mulVec_dotProduct_comm hA, h.dotProduct_direction,
        smul_eq_mul, neg_mul, div_mul_cancel₀ _ hcurvature.ne', neg_add_cancel]
  -- The image of the direction is a multiple of what the step took away.
  have himage : A *ᵥ p = (p ⬝ᵥ (A *ᵥ p) / r ⬝ᵥ r) • (r - r') := by
    rw [hr', neg_smul, neg_add_eq_sub, sub_sub_cancel, smul_smul, div_mul_div_comm,
      mul_comm (r ⬝ᵥ r), div_self (mul_pos hcurvature hlength).ne', one_smul]
  refine ⟨horthogonal, fun s hs => dotProduct_eq_zero_of_mem_sup (fun s hs => ?_) ?_ hs, ?_,
    fun s hs => ?_⟩
  · -- To the old directions the new one is conjugate because their images lie among the old
    -- directions and `p`, to which `r'` is orthogonal.
    rw [mulVec_dotProduct_comm hA, hp', add_dotProduct, horthogonal _ (h.image s hs),
      smul_dotProduct, ← mulVec_dotProduct_comm hA, h.conjugate s hs, smul_zero, add_zero]
  · -- To `p` it is made conjugate by its share of `p`.
    have hleft : r' ⬝ᵥ (A *ᵥ p) = -(p ⬝ᵥ (A *ᵥ p) / r ⬝ᵥ r * r' ⬝ᵥ r') := by
      rw [himage, dotProduct_smul, dotProduct_sub, horthogonal r hmem, zero_sub, smul_neg,
        smul_eq_mul, ← himage]
    rw [mulVec_dotProduct_comm hA, hp', add_dotProduct, smul_dotProduct, hleft, smul_eq_mul]
    ring
  · rw [hp', add_sub_cancel_right]
    exact Submodule.smul_mem _ _ hp
  · have hr'_mem : r' ∈ S ⊔ Submodule.span ℝ {p} ⊔ Submodule.span ℝ {p'} := by
      have hdiff : p' - (r' ⬝ᵥ r' / r ⬝ᵥ r) • p = r' := by rw [hp', add_sub_cancel_left]
      have hsub := Submodule.sub_mem (S ⊔ Submodule.span ℝ {p} ⊔ Submodule.span ℝ {p'})
        (Submodule.mem_sup_right (Submodule.mem_span_singleton_self p'))
        (Submodule.mem_sup_left (Submodule.smul_mem _ (r' ⬝ᵥ r' / r ⬝ᵥ r) hp))
      rwa [hdiff] at hsub
    obtain ⟨t, ht, u, hu, rfl⟩ := Submodule.mem_sup.mp hs
    obtain ⟨c, rfl⟩ := Submodule.mem_span_singleton.mp hu
    rw [mulVec_add, mulVec_smul]
    refine Submodule.add_mem _ (Submodule.mem_sup_left (h.image t ht)) ?_
    rw [himage]
    exact Submodule.smul_mem _ _ (Submodule.smul_mem _ _
      (Submodule.sub_mem _ (Submodule.mem_sup_left hmem) hr'_mem))

/-- The direction of a step is a new one. -/
theorem Conjugate.lt_sup (hA : A.PosDef) (h : Conjugate A S r p) (hr : r ≠ 0) :
    S < S ⊔ Submodule.span ℝ {p} := by
  refine lt_of_le_of_ne le_sup_left fun heq => ?_
  have hp : p ∈ S := by
    rw [heq]
    exact Submodule.mem_sup_right (Submodule.mem_span_singleton_self p)
  have hzero := h.conjugate p hp
  rw [mulVec_dotProduct_comm hA] at hzero
  exact absurd hzero (h.curvature_pos hA hr).ne'

end Directions

/-! ### Points that keep account -/

variable {m : SparseMatrix ℝ} {b : List ℝ} {S : Submodule ℝ (Fin m.dim → ℝ)} {p next : Point ℝ}

open GalaxyMarket.Vector (coords)

/-- Where a step leads: along the direction, by the length that makes the rest orthogonal to it. -/
theorem Point.HasLength.coords_advance (hm : m.WellFormed) (h : p.HasLength m.dim)
    (hnext : p.advance? m = some next) : next.direction = p.direction ∧
      ∃ step, step = p.residualSq /
          (coords m.dim p.direction ⬝ᵥ (m.toMatrix *ᵥ coords m.dim p.direction)) ∧
        coords m.dim next.x = step • coords m.dim p.direction + coords m.dim p.x ∧
        coords m.dim next.residual =
          -step • (m.toMatrix *ᵥ coords m.dim p.direction) + coords m.dim p.residual := by
  have himage := SparseMatrix.coords_mulVec hm h.direction
  have hlength : (m.mulVec p.direction).length = m.dim := m.length_mulVec _
  rw [Point.advance?] at hnext
  split at hnext
  · cases hnext
    refine ⟨rfl, _, ?_, Vector.coords_addScaled _ h.direction h.x, ?_⟩
    · rw [Vector.dot_eq_dotProduct h.direction hlength, himage]
    · rw [Vector.coords_addScaled _ hlength h.residual, himage]
  · cases hnext

/-- A point of a search for the solution of `A x = b` that keeps account: its residual is what its
place leaves of `b`, and is as long as the point says. This takes nothing of the matrix. -/
structure Accounted (m : SparseMatrix ℝ) (b : List ℝ) (p : Point ℝ) : Prop
    extends p.HasLength m.dim where
  residual_eq : coords m.dim p.residual = coords m.dim b - m.toMatrix *ᵥ coords m.dim p.x
  residualSq_eq : p.residualSq = coords m.dim p.residual ⬝ᵥ coords m.dim p.residual

/-- At the start everything is left. -/
theorem Accounted.start (hb : b.length = m.dim) : Accounted m b (.start b) where
  x := by rw [Point.start, List.length_map, hb]
  residual := hb
  direction := hb
  residual_eq := by
    change coords m.dim b = coords m.dim b - m.toMatrix *ᵥ coords m.dim (b.map fun _ => 0)
    rw [Vector.coords_map_zero, mulVec_zero, sub_zero]
  residualSq_eq := Vector.dot_eq_dotProduct hb hb

/-- **Every step keeps account.** What it takes off the residual is the image of what it adds to the
place. -/
theorem Accounted.advance (hm : m.WellFormed) (h : Accounted m b p)
    (hnext : p.advance? m = some next) : Accounted m b next := by
  have hlength := h.toHasLength.advance hnext
  obtain ⟨-, step, -, hx, hresidual⟩ := h.toHasLength.coords_advance hm hnext
  refine ⟨hlength, ?_, ?_⟩
  · rw [hresidual, h.residual_eq, hx, mulVec_add, mulVec_smul, neg_smul]
    abel
  · have hsq : next.residualSq = Vector.normSq next.residual := Point.residualSq_advance hnext
    rw [hsq, Vector.normSq, Vector.dot_eq_dotProduct hlength.residual hlength.residual]

/-- Turning changes the direction only. -/
theorem Accounted.turn (h : Accounted m b next) : Accounted m b (p.turn next) :=
  ⟨h.toHasLength.turn, h.residual_eq, h.residualSq_eq⟩

/-- **What a search finds leaves no more than the goal**, whatever the matrix. -/
theorem Accounted.search_sound (hm : m.WellFormed) {goal : ℝ} {steps : ℕ} {x : List ℝ} {fuel : ℕ}
    (h : Accounted m b p) (hx : search m goal steps fuel p = .ok x) :
    √((coords m.dim b - m.toMatrix *ᵥ coords m.dim x) ⬝ᵥ
      (coords m.dim b - m.toMatrix *ᵥ coords m.dim x)) ≤ goal := by
  -- Over the steps that are left. The account is kept from one to the next, and the search ends at
  -- a point whose length is within the goal.
  induction fuel generalizing p with
  | zero => cases hx
  | succ fuel ih =>
    rw [search] at hx
    cases hadvance : p.advance? m with
    | none =>
      rw [hadvance] at hx
      cases hx
    | some next =>
      have hnext := h.advance hm hadvance
      rw [hadvance] at hx
      dsimp only at hx
      split at hx
      · next hdone =>
        cases hx
        rw [← hnext.residual_eq, ← hnext.residualSq_eq]
        exact of_decide_eq_true hdone
      · exact ih hnext.turn hx

/-! ### The search -/

/-- A point of the search in a positive definite matrix, with the directions `S` behind it. -/
structure Reached (m : SparseMatrix ℝ) (b : List ℝ) (S : Submodule ℝ (Fin m.dim → ℝ))
    (p : Point ℝ) : Prop extends Accounted m b p where
  directions : Conjugate m.toMatrix S (coords m.dim p.residual) (coords m.dim p.direction)

/-- A search starts with no directions behind it. -/
theorem Reached.start (hb : b.length = m.dim) : Reached m b ⊥ (.start b) :=
  ⟨Accounted.start hb, Conjugate.start ..⟩

/-- **A step of the search is never refused** as long as something is left. -/
theorem Reached.advance (hm : m.WellFormed) (hpos : m.toMatrix.PosDef) (h : Reached m b S p)
    (hleft : coords m.dim p.residual ≠ 0) : ∃ next, p.advance? m = some next ∧
      Reached m b (S ⊔ Submodule.span ℝ {coords m.dim p.direction}) (p.turn next) := by
  have hcurvature : Vector.dot p.direction (m.mulVec p.direction) =
      coords m.dim p.direction ⬝ᵥ (m.toMatrix *ᵥ coords m.dim p.direction) := by
    rw [Vector.dot_eq_dotProduct h.direction (m.length_mulVec _),
      SparseMatrix.coords_mulVec hm h.direction]
  have hcurvature_pos := h.directions.curvature_pos hpos hleft
  -- A positive curvature is all that a step asks for.
  obtain ⟨next, hnext⟩ : ∃ next, p.advance? m = some next := by
    rw [Point.advance?]
    refine ⟨_, if_pos ?_⟩
    rw [hcurvature]
    simpa using hcurvature_pos
  have haccounted := h.toAccounted.advance hm hnext
  obtain ⟨hdirection, step, hstep, -, hresidual⟩ := h.toHasLength.coords_advance hm hnext
  refine ⟨next, hnext, haccounted.turn, h.directions.next hpos hleft ?_ ?_⟩
  · change coords m.dim next.residual = _
    rw [hresidual, hstep, h.residualSq_eq]
  · change coords m.dim (Vector.addScaled (next.residualSq / p.residualSq) next.direction
      next.residual) = (_ / _) • _ + coords m.dim next.residual
    rw [Vector.coords_addScaled _ haccounted.direction haccounted.residual, hdirection,
      haccounted.residualSq_eq, h.residualSq_eq]
    rfl

/-- **The search ends** within as many steps as there are dimensions that it did not go through. -/
theorem search_eq_ok (hm : m.WellFormed) (hpos : m.toMatrix.PosDef) {goal : ℝ} (hgoal : 0 ≤ goal)
    (steps : ℕ) : ∀ (fuel : ℕ) (S : Submodule ℝ (Fin m.dim → ℝ)) (p : Point ℝ), Reached m b S p →
      coords m.dim p.residual ≠ 0 → m.dim ≤ fuel + Module.finrank ℝ S →
      ∃ x, search m goal steps fuel p = .ok x := by
  intro fuel
  -- Steps that are left and directions behind make up for each other: with no steps left, there are
  -- all the directions.
  induction fuel with
  | zero =>
    intro S p h hleft hfuel
    -- The search went everywhere, so nothing can be left.
    have htop : S = ⊤ := by
      refine Submodule.eq_top_of_finrank_eq (le_antisymm (Submodule.finrank_le S) ?_)
      rw [Module.finrank_fin_fun]
      omega
    have hzero := h.directions.orthogonal (coords m.dim p.residual) (htop ▸ Submodule.mem_top)
    exact absurd (dotProduct_self_eq_zero.mp hzero) hleft
  | succ fuel ih =>
    intro S p h hleft hfuel
    obtain ⟨next, hadvance, hnext⟩ := h.advance hm hpos hleft
    have hgrow := Submodule.finrank_lt_finrank_of_lt (h.directions.lt_sup hpos hleft)
    rw [search, hadvance]
    -- Each step that does not end the search brought a dimension.
    by_cases hdone : √next.residualSq ≤ goal
    · exact ⟨next.x, if_pos (decide_eq_true hdone)⟩
    · have hleft' : coords m.dim (p.turn next).residual ≠ 0 := by
        intro hzero
        have hsq := hnext.residualSq_eq
        rw [hzero, dotProduct_zero] at hsq
        refine hdone ?_
        change √(p.turn next).residualSq ≤ goal
        rw [hsq, Real.sqrt_zero]
        exact hgoal
      obtain ⟨x, hx⟩ := ih _ _ hnext hleft' (by omega)
      exact ⟨x, (if_neg (by simpa using hdone)).trans hx⟩

/-! ### Solving -/

/-- A right-hand side without length is zero. -/
theorem coords_eq_zero_of_norm_le {n : ℕ} (hb : b.length = n) (hzero : Vector.norm b ≤ 0) :
    coords n b = 0 :=
  eq_zero_of_sqrt_le_zero (Vector.norm_eq hb ▸ hzero)

/-- **An answer leaves no more of the right-hand side than the tolerance allows**, whatever the
matrix and the tolerance. -/
theorem solve_sound (hm : m.WellFormed) {settings : Settings ℝ} (hb : b.length = m.dim)
    {x : List ℝ} (hx : solve settings m b = .ok x) :
    √((coords m.dim b - m.toMatrix *ᵥ coords m.dim x) ⬝ᵥ
      (coords m.dim b - m.toMatrix *ᵥ coords m.dim x)) ≤ settings.tolerance * Vector.norm b := by
  rw [solve] at hx
  dsimp only at hx
  split at hx
  · next hzero =>
    -- Zero solves for zero without a remainder.
    cases hx
    have hb0 := coords_eq_zero_of_norm_le hb (of_decide_eq_true hzero)
    rw [Vector.norm_eq hb, hb0, Vector.coords_map_zero, mulVec_zero, sub_zero, dotProduct_zero,
      Real.sqrt_zero, mul_zero]
  · exact (Accounted.start hb).search_sound hm hx

/-- The search for a right-hand side that is not zero ends within as many steps as there are rows.
-/
theorem search_start_eq_ok (hm : m.WellFormed) (hpos : m.toMatrix.PosDef) (hb : b.length = m.dim)
    (hnorm : ¬Vector.norm b ≤ 0) {goal : ℝ} (hgoal : 0 ≤ goal) (steps : ℕ) {fuel : ℕ}
    (hfuel : m.dim ≤ fuel) : ∃ x, search m goal steps fuel (.start b) = .ok x := by
  have hleft : coords m.dim b ≠ 0 := by
    intro hb0
    rw [Vector.norm_eq hb, hb0, dotProduct_zero, Real.sqrt_zero] at hnorm
    exact hnorm le_rfl
  refine search_eq_ok hm hpos hgoal steps fuel ⊥ (.start b) (.start hb) hleft ?_
  rw [finrank_bot]
  exact hfuel

/-- **Conjugate gradients solve** every system with a symmetric positive definite matrix, up to the
tolerance. -/
theorem solve_eq_ok (hm : m.WellFormed) (hpos : m.toMatrix.PosDef) {settings : Settings ℝ}
    (htolerance : 0 ≤ settings.tolerance) (hb : b.length = m.dim) :
    ∃ x, solve settings m b = .ok x ∧ x.length = m.dim ∧
      √((coords m.dim b - m.toMatrix *ᵥ coords m.dim x) ⬝ᵥ
        (coords m.dim b - m.toMatrix *ᵥ coords m.dim x)) ≤ settings.tolerance * Vector.norm b := by
  obtain ⟨x, hx⟩ : ∃ x, solve settings m b = .ok x := by
    rw [solve]
    by_cases hzero : Vector.norm b ≤ 0
    · exact ⟨_, if_pos (decide_eq_true hzero)⟩
    · have hgoal : 0 ≤ settings.tolerance * Vector.norm b :=
        mul_nonneg htolerance (Real.sqrt_nonneg _)
      have hsteps : m.dim ≤ max settings.maxSteps b.length := by
        rw [hb]
        exact le_max_right ..
      obtain ⟨x, hx⟩ := search_start_eq_ok hm hpos hb hzero hgoal _ hsteps
      exact ⟨x, (if_neg (by simpa using hzero)).trans hx⟩
  exact ⟨x, hx, (length_solve hb hx).trans hb, solve_sound hm hb hx⟩

/-- **Without a tolerance the solution is exact.** -/
theorem solve_eq_ok_of_tolerance_eq_zero (hm : m.WellFormed) (hpos : m.toMatrix.PosDef)
    {settings : Settings ℝ} (htolerance : settings.tolerance = 0) (hb : b.length = m.dim) :
    ∃ x, solve settings m b = .ok x ∧ x.length = m.dim ∧ m.mulVec x = b := by
  obtain ⟨x, hx, hlength, hleft⟩ := solve_eq_ok hm hpos htolerance.ge hb
  refine ⟨x, hx, hlength, (Vector.coords_inj (m.length_mulVec x) hb).mp ?_⟩
  rw [htolerance, zero_mul] at hleft
  rw [SparseMatrix.coords_mulVec hm hlength]
  exact (sub_eq_zero.mp (eq_zero_of_sqrt_le_zero hleft)).symm

/-! ### Solving in one step -/

/-- A product with a multiple of a vector. -/
theorem dot_map_mul (b : List ℝ) (scale : ℝ) :
    Vector.dot b (b.map (scale * ·)) = scale * Vector.normSq b := by
  rw [Vector.normSq, Vector.dot_eq, Vector.dot_eq, List.zipWith_map_right, List.zipWith_self,
    List.zipWith_self, ← List.sum_map_mul_left]
  refine congrArg List.sum (List.map_congr_left fun x _ => ?_)
  ring

/-- **Where a matrix only stretches the right-hand side**, the first step goes all the way. -/
theorem Point.advance?_start {scale : ℝ} (hscale : 0 < scale) (hsq : 0 < Vector.normSq b)
    (hb : m.mulVec b = b.map (scale * ·)) : (Point.start b).advance? m = some
      { Point.start b with
        x := b.map (scale⁻¹ * ·), residual := b.map fun _ => 0, residualSq := 0 } := by
  -- The first direction is the right-hand side, so that all products are multiples of it.
  have hcurvature : Vector.dot b (m.mulVec b) = scale * Vector.normSq b := by
    rw [hb, dot_map_mul]
  have hstep : Vector.normSq b / (scale * Vector.normSq b) = scale⁻¹ := by
    rw [div_mul_cancel_right₀ hsq.ne']
  have hx : Vector.addScaled scale⁻¹ b (b.map fun _ => 0) = b.map (scale⁻¹ * ·) := by
    rw [Vector.addScaled, List.zipWith_map_right, List.zipWith_self]
    exact List.map_congr_left fun x _ => add_zero _
  have hresidual : Vector.addScaled (-scale⁻¹) (m.mulVec b) b = b.map fun _ => 0 := by
    rw [hb, Vector.addScaled, List.zipWith_map_left, List.zipWith_self]
    refine List.map_congr_left fun x _ => ?_
    rw [neg_mul, inv_mul_cancel_left₀ hscale.ne', neg_add_cancel]
  have hleft : Vector.normSq (b.map fun _ => (0 : ℝ)) = 0 := by
    rw [Vector.normSq, Vector.dot_eq, List.zipWith_self, List.map_map]
    apply List.sum_eq_zero
    intro x hx
    obtain ⟨_, -, rfl⟩ := List.mem_map.mp hx
    exact mul_zero 0
  rw [Point.advance?]
  change (if Scalar.isFinite (Vector.dot b (m.mulVec b)) &&
    Scalar.lt 0 (Vector.dot b (m.mulVec b)) then _ else none) = _
  rw [if_pos (by simpa [hcurvature] using mul_pos hscale hsq)]
  dsimp only [Point.start]
  rw [hcurvature, hstep, hx, hresidual, hleft]

/-- So it is solved in one step, unless the tolerance rules out every residual. -/
theorem solve_of_mulVec_eq {settings : Settings ℝ} (htolerance : 0 ≤ settings.tolerance)
    {scale : ℝ} (hscale : 0 < scale) (hb : m.mulVec b = b.map (scale * ·)) :
    solve settings m b = .ok (b.map (scale⁻¹ * ·)) := by
  rw [solve]
  by_cases hzero : Vector.norm b ≤ 0
  · -- All entries are zero, and so are their multiples.
    have hentries := (Vector.coords_eq_zero_iff rfl).mp (coords_eq_zero_of_norm_le rfl hzero)
    refine (if_pos (decide_eq_true hzero)).trans (congrArg Except.ok ?_)
    exact List.map_congr_left fun x hx => by rw [hentries x hx, mul_zero]
  · have hsq : 0 < Vector.normSq b := Real.sqrt_pos.mp (not_le.mp hzero)
    have hsteps : 0 < max settings.maxSteps b.length := by
      refine lt_max_of_lt_right (List.length_pos_of_ne_nil ?_)
      rintro rfl
      simp [Vector.normSq, Vector.dot_eq] at hsq
    -- There is a first step, and it ends the search.
    obtain ⟨fuel, hfuel⟩ := Nat.exists_eq_add_one.mpr hsteps
    have hdone : Scalar.le (Scalar.sqrt (0 : ℝ)) (settings.tolerance * Vector.norm b) = true := by
      rw [Scalar.sqrt_eq, Real.sqrt_zero]
      exact decide_eq_true (mul_nonneg htolerance (Real.sqrt_nonneg _))
    refine (if_neg (by simpa using hzero)).trans ?_
    rw [hfuel, search, Point.advance?_start hscale hsq hb]
    exact if_pos hdone

end GalaxyMarket.ConjugateGradient
