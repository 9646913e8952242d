import Mathlib
import GalaxyMarket.Proofs.Linear.Cholesky.Solve
import GalaxyMarket.Proofs.Linear.ConjugateGradient

/-!
# Both solvers solve

On a symmetric positive definite matrix (`SparseMatrix.IsSolvable`) both methods find the solution,
conjugate gradients as long as they go without a tolerance (`Solver.IsExact`). There is only one
solution, so whatever the one method answers, the other answers as well (`Solver.solve_prepare_eq`).
-/

namespace GalaxyMarket

/-- A matrix that every method can solve. -/
structure SparseMatrix.IsSolvable (m : SparseMatrix ℝ) : Prop where
  wellFormed : m.WellFormed
  symm : m.IsSymm
  posDef : m.toMatrix.PosDef

/-- The product with a positive definite matrix tells vectors apart. -/
theorem SparseMatrix.IsSolvable.mulVec_inj {m : SparseMatrix ℝ} (hm : m.IsSolvable) {x y : List ℝ}
    (hx : x.length = m.dim) (hy : y.length = m.dim) (h : m.mulVec x = m.mulVec y) : x = y :=
  hm.wellFormed.mulVec_inj hm.posDef.isUnit hx hy h

namespace Solver

/-- A method that makes no error over exact numbers. -/
def IsExact : Solver ℝ → Prop
  | cholesky => True
  | conjugateGradient settings => settings.tolerance = 0

variable {solver other : Solver ℝ} {m : SparseMatrix ℝ}

/-- Positive definite matrices have a factor, and conjugate gradients need none. -/
theorem isFactorized_prepare (hm : m.IsSolvable) (solver : Solver ℝ) :
    (solver.prepare m).isFactorized = true := by
  cases solver with
  | cholesky =>
    obtain ⟨factor, hfactor, -⟩ :=
      Cholesky.exists_factor_of_posDef hm.wellFormed hm.symm hm.posDef
    change (Cholesky.ofMatrix? m).isSome = true
    rw [hfactor]
    rfl
  | conjugateGradient settings => rfl

/-- What either method proposes is the solution. -/
theorem exists_candidate (hm : m.IsSolvable) (hsolver : solver.IsExact) {b : List ℝ}
    (hb : b.length = m.dim) : ∃ x, (solver.prepare m).candidate b = .ok x ∧ x.length = m.dim ∧
      m.mulVec x = b := by
  -- Either method has its own proof that it solves.
  cases solver with
  | cholesky =>
    obtain ⟨factor, hfactor, hsolve⟩ :=
      Cholesky.exists_factor_of_posDef hm.wellFormed hm.symm hm.posDef
    refine ⟨Cholesky.solve factor b, ?_, hsolve b hb⟩
    rw [prepare, hfactor]
    rfl
  | conjugateGradient settings =>
    obtain ⟨x, hx, hsolve⟩ := ConjugateGradient.solve_eq_ok_of_tolerance_eq_zero hm.wellFormed
      hm.posDef hsolver hb
    refine ⟨x, ?_, hsolve⟩
    change (ConjugateGradient.solve settings m b).mapError Obstacle.search = _
    rw [hx]
    rfl

/-- **A right-hand side of the right length** is solved for. -/
theorem exists_solve (hm : m.IsSolvable) (hsolver : solver.IsExact) {b : List ℝ}
    (hb : b.length = m.dim) : ∃ x, (solver.prepare m).solve b = .ok x ∧ x.length = m.dim ∧
      m.mulVec x = b := by
  obtain ⟨x, hx, hsolve⟩ := exists_candidate hm hsolver hb
  refine ⟨x, ?_, hsolve⟩
  rw [Prepared.solve, dim_prepare, hx]
  simp [hb]

/-- **The methods agree**, whatever the right-hand side. -/
theorem solve_prepare_eq (hm : m.IsSolvable) (hsolver : solver.IsExact) (hother : other.IsExact)
    (b : List ℝ) : (solver.prepare m).solve b = (other.prepare m).solve b := by
  by_cases hb : b.length = m.dim
  · -- Both solutions have the right-hand side as their product.
    obtain ⟨x, hx, hlength, hsolve⟩ := exists_solve hm hsolver hb
    obtain ⟨y, hy, hlength', hsolve'⟩ := exists_solve hm hother hb
    rw [hx, hy, hm.mulVec_inj hlength hlength' (hsolve.trans hsolve'.symm)]
  · rw [solve_of_length_ne hb, solve_of_length_ne hb]

/-- A solve that fails was asked for the wrong length. -/
theorem solve_ne_notFactorized (hm : m.IsSolvable) (hsolver : solver.IsExact) (b : List ℝ)
    (obstacle : Obstacle) : (solver.prepare m).solve b ≠ .error (.notFactorized obstacle) := by
  -- Only a right-hand side of the right length is looked at by a method.
  by_cases hb : b.length = m.dim
  · obtain ⟨x, hx, -⟩ := exists_solve hm hsolver hb
    rw [hx]
    exact fun h => nomatch h
  · rw [solve_of_length_ne hb]
    exact fun h => nomatch h

end Solver

end GalaxyMarket
