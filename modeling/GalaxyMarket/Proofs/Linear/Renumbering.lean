import Mathlib
import GalaxyMarket.Proofs.Linear.Solver

/-!
# Solvers do not see how unknowns are numbered

A matrix whose rows and columns are those of another one in a different order
(`SparseMatrix.IsRenumbered`) has the same solutions in that order, and where one has none the other
fails in the same way (`Solver.solve_select`).

For conjugate gradients this is so step by step. A search goes through products with the matrix,
linear combinations and inner products. The first two can be read at the places of another numbering
(`SparseMatrix.IsRenumbered.mulVec_select`, `Vector.select_addScaled`), and an inner product is the
same in each (`Vector.dot_select`). So are step lengths and the residuals at which the search ends.

Elimination is another matter. It takes one unknown after the other, so that no step of it has a
counterpart. But it succeeds exactly on the positive definite matrices, which are so in every
numbering, and then what it finds is the only solution.
-/

namespace GalaxyMarket

open Matrix

/-! ### Vectors -/

namespace Vector

variable {k n : ℕ} {e : Fin k → Fin n} {x y : List ℝ}

/-- Linear combinations are made entry by entry, -/
theorem select_addScaled (e : Fin k → Fin n) (a : ℝ) (hx : x.length = n) (hy : y.length = n) :
    select e (addScaled a x y) = addScaled a (select e x) (select e y) := by
  have hx' : (select e x).length = k := length_select e x
  have hy' : (select e y).length = k := length_select e y
  apply (coords_inj (length_select e _) (length_addScaled a hx' hy')).mp
  rw [coords_addScaled a hx' hy', coords_select, coords_select, coords_select,
    coords_addScaled a hx hy]
  rfl

/-- and zeros are zeros everywhere. -/
theorem select_map_zero (e : Fin k → Fin n) (x : List ℝ) :
    select e (x.map fun _ => 0) = (select e x).map fun _ => 0 := by
  have hlength : ((select e x).map fun _ => (0 : ℝ)).length = k := by
    rw [List.length_map, length_select]
  apply (coords_inj (length_select e _) hlength).mp
  rw [coords_select, coords_map_zero, coords_map_zero]
  rfl

/-- **Inner products** do not depend on the order of the entries. -/
theorem dot_select (he : Function.Bijective e) (hx : x.length = n) (hy : y.length = n) :
    dot (select e x) (select e y) = dot x y := by
  rw [dot_eq_dotProduct (length_select e x) (length_select e y), dot_eq_dotProduct hx hy,
    coords_select, coords_select]
  exact he.sum_comp fun i => coords n x i * coords n y i

/-- So are squared norms -/
theorem normSq_select (he : Function.Bijective e) (hx : x.length = n) :
    normSq (select e x) = normSq x := dot_select he hx hx

/-- and norms. -/
theorem norm_select (he : Function.Bijective e) (hx : x.length = n) :
    norm (select e x) = norm x := congrArg Scalar.sqrt (normSq_select he hx)

/-- The same entries, in another order. -/
theorem mem_select_iff (he : Function.Surjective e) (hx : x.length = n) {v : ℝ} :
    v ∈ select e x ↔ v ∈ x := by
  rw [select, List.mem_ofFn]
  conv_rhs => rw [← ofFn_coords hx, List.mem_ofFn]
  rw [he.exists]
  rfl

end Vector

/-! ### Matrices -/

/-- Two symmetric matrices that are the same but for the order of their rows and columns: number `i`
of the first is number `e i` of the second. -/
structure SparseMatrix.IsRenumbered (m m' : SparseMatrix ℝ) (e : Fin m.dim → Fin m'.dim) :
    Prop where
  wellFormed : m.WellFormed
  wellFormed' : m'.WellFormed
  symm : m.IsSymm
  symm' : m'.IsSymm
  bijective : Function.Bijective e
  toMatrix_eq : m.toMatrix = m'.toMatrix.submatrix e e

variable {m m' : SparseMatrix ℝ} {e : Fin m.dim → Fin m'.dim}

namespace SparseMatrix.IsRenumbered

/-- Both have as many rows. -/
theorem dim_eq (h : m.IsRenumbered m' e) : m.dim = m'.dim := by
  have hcard := Fintype.card_of_bijective h.bijective
  rwa [Fintype.card_fin, Fintype.card_fin] at hcard

/-- **Products** are the same in either order. -/
theorem mulVec_select (h : m.IsRenumbered m' e) {x : List ℝ} (hx : x.length = m'.dim) :
    m.mulVec (Vector.select e x) = Vector.select e (m'.mulVec x) := by
  apply h.wellFormed.mulVec_select h.wellFormed' _ hx
  intro y
  rw [h.toMatrix_eq]
  funext i
  exact h.bijective.sum_comp fun j => m'.toMatrix (e i) j * y j

/-- Being positive definite does not depend on the numbering. -/
theorem posDef_iff (h : m.IsRenumbered m' e) : m.toMatrix.PosDef ↔ m'.toMatrix.PosDef := by
  rw [h.toMatrix_eq]
  constructor
  · intro hpos
    -- Back by the inverse of the numbering.
    let back := (Equiv.ofBijective e h.bijective).symm
    have hsame : (m'.toMatrix.submatrix e e).submatrix back back = m'.toMatrix := by
      ext i j
      have hback : ∀ i, e (back i) = i := Equiv.ofBijective_apply_symm_apply e h.bijective
      rw [submatrix_apply, submatrix_apply, hback, hback]
    have hrestored := hpos.submatrix back.injective
    rwa [hsame] at hrestored
  · intro hpos
    exact hpos.submatrix h.bijective.injective

end SparseMatrix.IsRenumbered

/-! ### Conjugate gradients -/

namespace ConjugateGradient

/-- A point of the search in another numbering. -/
noncomputable def Point.select {k n : ℕ} (e : Fin k → Fin n) (p : Point ℝ) : Point ℝ :=
  { x := Vector.select e p.x
    residual := Vector.select e p.residual
    direction := Vector.select e p.direction
    residualSq := p.residualSq }

variable {p next : Point ℝ}

/-- The search starts at the same point, -/
theorem Point.select_start (h : m.IsRenumbered m' e) {b : List ℝ} (hb : b.length = m'.dim) :
    (Point.start b).select e = Point.start (Vector.select e b) := by
  unfold Point.start Point.select
  rw [Vector.select_map_zero, Vector.normSq_select h.bijective hb]

/-- **One step** is the same in either numbering, -/
theorem Point.advance?_select (h : m.IsRenumbered m' e) (hp : p.HasLength m'.dim) :
    (p.select e).advance? m = (p.advance? m').map (Point.select e) := by
  have himage : m.mulVec (p.select e).direction = Vector.select e (m'.mulVec p.direction) :=
    h.mulVec_select hp.direction
  have hlength : (m'.mulVec p.direction).length = m'.dim := m'.length_mulVec p.direction
  -- The step length is made of inner products, which are the same.
  have hcurvature : Vector.dot (p.select e).direction (m.mulVec (p.select e).direction) =
      Vector.dot p.direction (m'.mulVec p.direction) := by
    rw [himage]
    exact Vector.dot_select h.bijective hp.direction hlength
  have hresidual : ∀ step, Vector.addScaled (-step) (m.mulVec (p.select e).direction)
      (p.select e).residual =
      Vector.select e (Vector.addScaled (-step) (m'.mulVec p.direction) p.residual) := by
    intro step
    rw [himage]
    exact (Vector.select_addScaled e (-step) hlength hp.residual).symm
  have hx : ∀ step, Vector.addScaled step (p.select e).direction (p.select e).x =
      Vector.select e (Vector.addScaled step p.direction p.x) := fun step =>
    (Vector.select_addScaled e step hp.direction hp.x).symm
  have hnorm : ∀ step, Vector.normSq (Vector.select e
      (Vector.addScaled (-step) (m'.mulVec p.direction) p.residual)) =
      Vector.normSq (Vector.addScaled (-step) (m'.mulVec p.direction) p.residual) := fun step =>
    Vector.normSq_select h.bijective (Vector.length_addScaled (-step) hlength hp.residual)
  unfold Point.advance?
  dsimp only
  rw [hcurvature, hx, hresidual, hnorm]
  split
  · rfl
  · rfl

/-- So is the next direction, -/
theorem Point.turn_select {k n : ℕ} (e : Fin k → Fin n) (p : Point ℝ) (hnext : next.HasLength n) :
    (p.select e).turn (next.select e) = (p.turn next).select e := by
  unfold Point.turn Point.select
  rw [Vector.select_addScaled e _ hnext.direction hnext.residual]

/-- and so is the search. -/
theorem search_select (h : m.IsRenumbered m' e) {goal : ℝ} {steps fuel : ℕ}
    (hp : p.HasLength m'.dim) : search m goal steps fuel (p.select e) =
      (search m' goal steps fuel p).map (Vector.select e) := by
  -- The searches take the same steps, so that they also end at the same one.
  induction fuel generalizing p with
  | zero => rfl
  | succ fuel ih =>
    rw [search, search, Point.advance?_select h hp]
    cases hadvance : p.advance? m' with
    | none => rfl
    | some next =>
      have hnext := hp.advance hadvance
      show (if Scalar.le (Scalar.sqrt next.residualSq) goal then _ else _) = Except.map _ (ite ..)
      split
      · rfl
      · rw [Point.turn_select e p hnext]
        exact ih hnext.turn

theorem solve_select (settings : Settings ℝ) (h : m.IsRenumbered m' e) {b : List ℝ}
    (hb : b.length = m'.dim) : solve settings m (Vector.select e b) =
      (solve settings m' b).map (Vector.select e) := by
  have hstart : (Point.start b).HasLength m'.dim := ⟨by simp [Point.start, hb], hb, hb⟩
  have hlength : (Vector.select e b).length = b.length := by
    rw [Vector.length_select, hb, h.dim_eq]
  unfold solve
  dsimp only
  rw [Vector.norm_select h.bijective hb, hlength, ← Point.select_start h hb]
  split
  · rw [← Vector.select_map_zero]
    rfl
  · exact search_select h hstart

end ConjugateGradient

/-! ### Both solvers -/

namespace Solver

theorem candidate_select (solver : Solver ℝ) (h : m.IsRenumbered m' e) {b : List ℝ}
    (hb : b.length = m'.dim) : (solver.prepare m).candidate (Vector.select e b) =
      ((solver.prepare m').candidate b).map (Vector.select e) := by
  cases solver with
  | cholesky =>
    by_cases hpos : m'.toMatrix.PosDef
    · -- There is only one solution in either numbering.
      have hm : m.IsSolvable := ⟨h.wellFormed, h.symm, h.posDef_iff.mpr hpos⟩
      have hm' : m'.IsSolvable := ⟨h.wellFormed', h.symm', hpos⟩
      have hexact : (cholesky : Solver ℝ).IsExact := trivial
      obtain ⟨x, hx, hlength, hmul⟩ := exists_candidate hm hexact (Vector.length_select e b)
      obtain ⟨x', hx', hlength', hmul'⟩ := exists_candidate hm' hexact hb
      have hsame : x = Vector.select e x' := by
        apply hm.mulVec_inj hlength (Vector.length_select e x')
        rw [hmul, h.mulVec_select hlength', hmul']
      rw [hx, hx', hsame]
      rfl
    · -- Neither has a factor.
      have hnone : Cholesky.ofMatrix? m = none :=
        Cholesky.ofMatrix?_eq_none h.wellFormed h.symm fun hpos' => hpos (h.posDef_iff.mp hpos')
      have hnone' : Cholesky.ofMatrix? m' = none :=
        Cholesky.ofMatrix?_eq_none h.wellFormed' h.symm' hpos
      rw [prepare, prepare, hnone, hnone']
      rfl
  | conjugateGradient settings =>
    show (ConjugateGradient.solve settings m _).mapError Obstacle.search =
      Except.map _ ((ConjugateGradient.solve settings m' b).mapError Obstacle.search)
    rw [ConjugateGradient.solve_select settings h hb]
    cases ConjugateGradient.solve settings m' b with
    | error failure => rfl
    | ok x => rfl

/-- **Solving does not depend on the numbering**: what comes out in the one is what comes out in the
other, errors included. -/
theorem solve_select (solver : Solver ℝ) (h : m.IsRenumbered m' e) {b : List ℝ}
    (hb : b.length = m'.dim) : (solver.prepare m).solve (Vector.select e b) =
      ((solver.prepare m').solve b).map (Vector.select e) := by
  have hlength : (Vector.select e b).length = m.dim := Vector.length_select e b
  unfold Prepared.solve
  rw [dim_prepare, dim_prepare, hlength, hb, candidate_select solver h hb]
  simp only [bne_self_eq_false, Bool.false_eq_true, if_false, Vector.isFinite_eq, Bool.not_true,
    if_true]
  cases (solver.prepare m').candidate b with
  | error obstacle => rfl
  | ok x => rfl

end Solver

end GalaxyMarket
