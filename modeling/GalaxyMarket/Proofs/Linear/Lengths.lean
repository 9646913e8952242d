import Mathlib
import GalaxyMarket.Linear.Solver
import GalaxyMarket.Proofs.Linear.Sparse

/-!
# Solutions are as long as their right-hand sides

Whatever the arithmetic and the method: a prepared matrix knows how many rows it has
(`Solver.dim_prepare`), refuses a right-hand side of another length
(`Solver.solve_of_length_ne`), and what it answers has the length of what it was asked
(`Prepared.length_of_solve`). Nothing here asks whether an answer is right.
-/

namespace GalaxyMarket

variable {α : Type} [Scalar α]

/-- Adding a multiple of one vector to another of the same length leaves the length. -/
@[simp] theorem Vector.length_addScaled {n : ℕ} {x y : List α} (a : α) (hx : x.length = n)
    (hy : y.length = n) : (addScaled a x y).length = n := by
  rw [addScaled, List.length_zipWith, hx, hy, min_self]

/-- A product has one entry for each row, whatever the length of the vector. -/
theorem SparseMatrix.length_mulVec (m : SparseMatrix α) (x : List α) :
    (m.mulVec x).length = m.dim := by
  simp [mulVec]

/-! ### Both substitutions keep the size -/

namespace Cholesky

/-- Subtracting the multiples of a column changes entries in place. -/
theorem size_foldl_modify (y : α) (below : List (Nat × α)) (b : Array α) :
    (below.foldl (fun b (row, value) => b.modify row (· - value * y)) b).size = b.size := by
  induction below generalizing b with
  | nil => rfl
  | cons first below ih => rw [List.foldl_cons, ih, Array.size_modify]

theorem size_forwardStep (y : Array α) (column : Column α × Nat) :
    (forwardStep y column).size = y.size := by
  rw [forwardStep]
  -- A column without entries leaves the vector alone.
  split
  · rw [size_foldl_modify, Array.size_setIfInBounds]
  · rfl

theorem size_backwardStep (column : Column α × Nat) (y : Array α) :
    (backwardStep column y).size = y.size := by
  rw [backwardStep]
  split
  · rw [Array.size_setIfInBounds]
  · rfl

/-- **A factor answers in kind**: both substitutions go along the columns of the factor, and neither
makes the vector longer or shorter. -/
theorem length_solve (factor : List (Column α)) (b : List α) :
    (solve factor b).length = b.length := by
  -- By induction on the columns, from the front and then from the back.
  have hforward : ∀ (columns : List (Column α × Nat)) (y : Array α),
      (columns.foldl forwardStep y).size = y.size := by
    intro columns
    induction columns with
    | nil => intro y; rfl
    | cons column columns ih =>
      intro y
      rw [List.foldl_cons, ih, size_forwardStep]
  have hbackward : ∀ (columns : List (Column α × Nat)) (y : Array α),
      (columns.foldr backwardStep y).size = y.size := by
    intro columns y
    induction columns with
    | nil => rfl
    | cons column columns ih => rw [List.foldr_cons, size_backwardStep, ih]
  rw [solve, Array.length_toList, backward, hbackward, forward, hforward, List.size_toArray]

end Cholesky

/-! ### A search never leaves its space -/

namespace ConjugateGradient

/-- All vectors of a point have `n` entries. -/
structure Point.HasLength (n : ℕ) (p : Point α) : Prop where
  x : p.x.length = n
  residual : p.residual.length = n
  direction : p.direction.length = n

variable {m : SparseMatrix α} {p next : Point α}

/-- **A step stays in the space**: what it adds to the point and takes off the residual are vectors
of as many entries. -/
theorem Point.HasLength.advance (h : p.HasLength m.dim) (hnext : p.advance? m = some next) :
    next.HasLength m.dim := by
  rw [Point.advance?] at hnext
  split at hnext
  · cases hnext
    exact ⟨Vector.length_addScaled _ h.direction h.x,
      Vector.length_addScaled _ (m.length_mulVec _) h.residual, h.direction⟩
  · cases hnext

/-- A step measures what it leaves. -/
theorem Point.residualSq_advance (hnext : p.advance? m = some next) :
    next.residualSq = Vector.normSq next.residual := by
  rw [Point.advance?] at hnext
  split at hnext
  · cases hnext
    rfl
  · cases hnext

/-- So does the turn to the next direction. -/
theorem Point.HasLength.turn {n : ℕ} (h : next.HasLength n) : (p.turn next).HasLength n :=
  ⟨h.x, h.residual, Vector.length_addScaled _ h.direction h.residual⟩

/-- **A search that succeeds** ends at a point of the space in which it began. -/
theorem length_search {goal : α} {steps : ℕ} {x : List α} {fuel : ℕ} (h : p.HasLength m.dim)
    (hx : search m goal steps fuel p = .ok x) : x.length = m.dim := by
  -- The point changes from step to step, its length does not.
  induction fuel generalizing p with
  | zero => cases hx
  | succ fuel ih =>
    rw [search] at hx
    cases hadvance : p.advance? m with
    | none =>
      rw [hadvance] at hx
      cases hx
    | some next =>
      rw [hadvance] at hx
      have hnext := h.advance hadvance
      dsimp only at hx
      split at hx
      · cases hx
        exact hnext.x
      · exact ih hnext.turn hx

/-- What a solve answers is as long as its right-hand side, also if that is zero and not searched
for. -/
theorem length_solve {settings : Settings α} {b x : List α} (hb : b.length = m.dim)
    (hx : solve settings m b = .ok x) : x.length = b.length := by
  rw [solve] at hx
  dsimp only at hx
  split at hx
  · cases hx
    exact List.length_map _
  · have hstart : (Point.start b).HasLength m.dim := ⟨by simp [Point.start, hb], hb, hb⟩
    rw [hb]
    exact length_search hstart hx

end ConjugateGradient

/-! ### Solvers -/

namespace Solver

variable {solver : Solver α} {m : SparseMatrix α}

/-- Preparing a matrix keeps the number of its rows, also when no factor was found. -/
@[simp] theorem dim_prepare (solver : Solver α) (m : SparseMatrix α) :
    (solver.prepare m).dim = m.dim := by
  cases solver <;> rfl

/-- **A right-hand side of another length** is refused before anything is worked out. -/
theorem solve_of_length_ne {b : List α} (hb : b.length ≠ m.dim) :
    (solver.prepare m).solve b = .error (.dimensionMismatch m.dim b.length) := by
  rw [Prepared.solve, dim_prepare]
  exact if_pos (bne_iff_ne.mpr hb)

end Solver

namespace Prepared

variable {p : Prepared α} {b : List α}

/-- A right-hand side of the right length is never refused for its length. -/
theorem solve_ne_dimensionMismatch (hb : b.length = p.dim) (expected actual : ℕ) :
    p.solve b ≠ .error (.dimensionMismatch expected actual) := by
  intro h
  rw [solve, if_neg (by simpa using hb)] at h
  -- What is left are refusals of other sorts.
  split at h
  · cases h
  · split at h
    · cases h
    · split at h <;> cases h

/-- **What is answered** is a finite candidate, for a finite right-hand side of the right length. -/
theorem solve_eq_ok_iff {x : List α} : p.solve b = .ok x ↔ b.length = p.dim ∧
    Vector.isFinite b = true ∧ p.candidate b = .ok x ∧ Vector.isFinite x = true := by
  constructor
  -- The tests of a solve are gone through in their order, and each has to let the right-hand side
  -- pass.
  · intro h
    rw [solve] at h
    split at h
    · cases h
    next hdim =>
    split at h
    · cases h
    next hfinite =>
    split at h
    · cases h
    next candidate hcandidate =>
    split at h
    · next hsolution =>
      cases h
      exact ⟨by simpa using hdim, by simpa using hfinite, hcandidate, hsolution⟩
    · cases h
  · rintro ⟨hdim, hfinite, hcandidate, hsolution⟩
    rw [solve, if_neg (by simpa using hdim), if_neg (by simpa using hfinite), hcandidate]
    exact if_pos hsolution

/-- A candidate has the length of what was asked, whichever method it comes from. -/
theorem length_of_candidate {x : List α} (hb : b.length = p.dim) (h : p.candidate b = .ok x) :
    x.length = b.length := by
  cases p with
  | factored dim factor? =>
    cases factor? with
    -- Without a factor there is no candidate.
    | none => cases h
    | some factor =>
      cases h
      exact Cholesky.length_solve factor b
  | iterative settings m =>
    change (ConjugateGradient.solve settings m b).mapError Obstacle.search = .ok x at h
    cases hsolve : ConjugateGradient.solve settings m b with
    | error failure =>
      rw [hsolve] at h
      cases h
    | ok y =>
      rw [hsolve] at h
      cases h
      exact ConjugateGradient.length_solve hb hsolve

/-- **An answer has the length of the right-hand side.** -/
theorem length_of_solve {x : List α} (h : p.solve b = .ok x) : x.length = b.length := by
  obtain ⟨hb, -, hcandidate, -⟩ := solve_eq_ok_iff.mp h
  exact length_of_candidate hb hcandidate

end Prepared

end GalaxyMarket
