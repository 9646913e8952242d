import Mathlib
import GalaxyMarket.Proofs.Linear.ConjugateGradient

/-!
# What conjugate gradients answer

Two statements about the solver as it is asked, over exact numbers. On a symmetric positive definite
matrix it never refuses for the matrix or for want of steps, and goes through its loop at most as
often as there are rows, however few steps its settings grant (`Solver.conjugateGradient_solves`).
On any matrix at all it answers nothing that leaves more of the right-hand side than the tolerance
allows (`Solver.conjugateGradient_sound`).

How often a search goes through its loop is counted by `ConjugateGradient.passes`. That this is the
count of the loop itself is seen from what a solve does with any other number of steps
(`ConjugateGradient.solveWithin_eq`): with fewer it is given up, and with as many or more it has the
same answer.
-/

namespace GalaxyMarket

open Matrix

/-! ### Counting passes -/

namespace ConjugateGradient

section Passes

variable {α : Type} [Scalar α]

/-- How often a search of at most `fuel` steps goes through its loop. -/
def passes (m : SparseMatrix α) (goal : α) : Nat → Point α → Nat
  | 0, _ => 0
  | fuel + 1, p =>
    match p.advance? m with
    | none => 1
    | some next =>
      if Scalar.le (Scalar.sqrt next.residualSq) goal then 1
      else passes m goal fuel (p.turn next) + 1

/-- How often a solve goes through its loop. A right-hand side of length zero is not searched for.
-/
def solvePasses (settings : Settings α) (m : SparseMatrix α) (b : List α) : Nat :=
  let norm := Vector.norm b
  if Scalar.le norm 0 then 0
  else passes m (settings.tolerance * norm) (max settings.maxSteps b.length) (.start b)

/-- A solve that is granted `k` steps. -/
def solveWithin (settings : Settings α) (m : SparseMatrix α) (b : List α) (k : Nat) :
    Except Failure (List α) :=
  let norm := Vector.norm b
  if Scalar.le norm 0 then .ok (b.map fun _ => 0)
  else search m (settings.tolerance * norm) k k (.start b)

/-- The solver grants as many steps as its settings say, and never fewer than there are rows. -/
theorem solve_eq_solveWithin (settings : Settings α) (m : SparseMatrix α) (b : List α) :
    solve settings m b = solveWithin settings m b (max settings.maxSteps b.length) := rfl

variable {m : SparseMatrix α} {goal : α} {steps k : ℕ}

/-- **A search needs all its passes**: granted fewer, it is given up. -/
theorem search_of_lt_passes {fuel : ℕ} {p : Point α} (hk : k < passes m goal fuel p) :
    search m goal steps k p = .error (.notConverged steps) := by
  -- Over the steps that are granted, with the count of passes beside them.
  induction k generalizing fuel p with
  | zero => rfl
  | succ k ih =>
    cases fuel with
    | zero => cases hk
    | succ fuel =>
      rw [passes] at hk
      rw [search]
      -- A search that ends in its first pass has no second one to miss.
      cases hadvance : p.advance? m with
      | none =>
        rw [hadvance] at hk
        change k + 1 < 1 at hk
        omega
      | some next =>
        rw [hadvance] at hk
        dsimp only at hk ⊢
        split at hk
        · omega
        · next hgoes =>
          rw [if_neg hgoes]
          exact ih (Nat.lt_of_succ_lt_succ hk)

/-- **A search needs no more than its passes**: granted as many, it finds what it would have found.
-/
theorem search_eq_ok_of_passes_le {fuel steps' : ℕ} {p : Point α} {x : List α}
    (hx : search m goal steps fuel p = .ok x) (hk : passes m goal fuel p ≤ k) :
    search m goal steps' k p = .ok x := by
  -- Over the steps of the search that succeeded. The other one keeps up with it.
  induction fuel generalizing k p with
  | zero => cases hx
  | succ fuel ih =>
    rw [passes] at hk
    rw [search] at hx
    cases hadvance : p.advance? m with
    | none =>
      rw [hadvance] at hx
      cases hx
    | some next =>
      rw [hadvance] at hk hx
      dsimp only at hk hx
      -- It goes through its loop at least once, so that `k` is not zero.
      obtain ⟨k, rfl⟩ : ∃ fewer, k = fewer + 1 := ⟨k - 1, by split at hk <;> omega⟩
      rw [search, hadvance]
      dsimp only
      split at hk
      · next hdone =>
        rw [if_pos hdone] at hx ⊢
        exact hx
      · next hgoes =>
        rw [if_neg hgoes] at hx ⊢
        exact ih hx (Nat.le_of_succ_le_succ hk)

/-- A search that succeeds within some steps goes through its loop no more often. -/
theorem passes_le_of_search_eq_ok {fuel : ℕ} {p : Point α} {x : List α}
    (hx : search m goal steps k p = .ok x) : passes m goal fuel p ≤ k := by
  by_contra hlt
  rw [search_of_lt_passes (not_le.mp hlt)] at hx
  cases hx

/-- **The passes of a solve that succeeds** are the steps that it has to be granted. -/
theorem solveWithin_eq {settings : Settings α} {b x : List α} (hx : solve settings m b = .ok x)
    (k : ℕ) : solveWithin settings m b k =
      if k < solvePasses settings m b then .error (.notConverged k) else .ok x := by
  rw [solve_eq_solveWithin, solveWithin] at hx
  rw [solveWithin, solvePasses]
  split at hx
  · next hzero =>
    rw [if_pos hzero, if_pos hzero, if_neg (Nat.not_lt_zero k)]
    exact hx
  · next hnonzero =>
    rw [if_neg hnonzero, if_neg hnonzero]
    split
    · next hlt => exact search_of_lt_passes hlt
    · next hle => exact search_eq_ok_of_passes_le hx (Nat.le_of_not_lt hle)

end Passes

/-- **As many passes as there are rows** are enough for a symmetric positive definite matrix. -/
theorem solvePasses_le {m : SparseMatrix ℝ} (hm : m.WellFormed) (hpos : m.toMatrix.PosDef)
    {settings : Settings ℝ} (htolerance : 0 ≤ settings.tolerance) {b : List ℝ}
    (hb : b.length = m.dim) : solvePasses settings m b ≤ m.dim := by
  rw [solvePasses]
  by_cases hzero : Vector.norm b ≤ 0
  · exact (if_pos (decide_eq_true hzero)).trans_le (Nat.zero_le _)
  · have hgoal : 0 ≤ settings.tolerance * Vector.norm b :=
      mul_nonneg htolerance (Real.sqrt_nonneg _)
    obtain ⟨x, hx⟩ := search_start_eq_ok hm hpos hb hzero hgoal 0 le_rfl
    exact (if_neg (by simpa using hzero)).trans_le (passes_le_of_search_eq_ok hx)

end ConjugateGradient

/-! ### The solver -/

open GalaxyMarket.Vector (coords)

namespace Solver

variable {m : SparseMatrix ℝ} {settings : ConjugateGradient.Settings ℝ} {b x : List ℝ}

/-- Over exact numbers the solver answers what was found, for a right-hand side of the right
length. -/
theorem solve_conjugateGradient_eq_ok_iff :
    ((conjugateGradient settings).prepare m).solve b = .ok x ↔
      b.length = m.dim ∧ ConjugateGradient.solve settings m b = .ok x := by
  have hcandidate : ((conjugateGradient settings).prepare m).candidate b = .ok x ↔
      ConjugateGradient.solve settings m b = .ok x := by
    change (ConjugateGradient.solve settings m b).mapError Obstacle.search = .ok x ↔ _
    cases ConjugateGradient.solve settings m b <;> simp [Except.mapError]
  rw [Prepared.solve_eq_ok_iff, hcandidate]
  simp

/-- **Conjugate gradients reject no usable system.** A symmetric positive definite matrix is never
found at fault, and the steps never run out: a right-hand side of the right length is solved for
within as many passes as there are rows, and these passes are just the steps that the solve has to
be granted. -/
theorem conjugateGradient_solves {dim : ℕ} {entries : List (Entry ℝ)}
    (hm : SparseMatrix.ofEntries dim entries = .ok m) (hpos : m.toMatrix.PosDef)
    (htolerance : 0 ≤ settings.tolerance) (b : List ℝ) :
    (∀ obstacle, ((conjugateGradient settings).prepare m).solve b ≠
        .error (.notFactorized obstacle)) ∧
      (b.length = m.dim →
        ∃ x, ((conjugateGradient settings).prepare m).solve b = .ok x ∧
          ConjugateGradient.solvePasses settings m b ≤ m.dim ∧
          ∀ k, ConjugateGradient.solveWithin settings m b k =
            if k < ConjugateGradient.solvePasses settings m b then .error (.notConverged k)
            else .ok x) := by
  have hwell : m.WellFormed := SparseMatrix.wellFormed_of_ofEntries hm
  by_cases hb : b.length = m.dim
  · obtain ⟨x, hx, -, -⟩ := ConjugateGradient.solve_eq_ok hwell hpos htolerance hb
    have hsolve := solve_conjugateGradient_eq_ok_iff.mpr ⟨hb, hx⟩
    refine ⟨fun obstacle hobstacle => ?_, fun _ => ⟨x, hsolve, ?_, ?_⟩⟩
    · rw [hsolve] at hobstacle
      cases hobstacle
    · exact ConjugateGradient.solvePasses_le hwell hpos htolerance hb
    · exact ConjugateGradient.solveWithin_eq hx
  · -- The length is looked at before the matrix.
    refine ⟨fun obstacle hobstacle => ?_, fun h => absurd h hb⟩
    rw [solve_of_length_ne hb] at hobstacle
    cases hobstacle

/-- Two rows that are coupled, with some number on the diagonal. -/
def coupled (d : ℝ) : SparseMatrix ℝ := ⟨2, [⟨0, 0, d⟩, ⟨1, 0, 1⟩, ⟨0, 1, 1⟩, ⟨1, 1, d⟩]⟩

/-- They are the matrix that their own entries make. -/
theorem ofEntries_coupled (d : ℝ) :
    SparseMatrix.ofEntries 2 (coupled d).entries = .ok (coupled d) := by
  refine SparseMatrix.ofEntries_eq_ok_iff.mpr ⟨by simp [coupled], ?_⟩
  -- The entries are in order, so that sorting leaves them alone.
  unfold SparseMatrix.gather
  rw [List.mergeSort_of_pairwise (by simp [coupled, Entry.precedes])]
  rfl

/-- With two on the diagonal they are positive definite, as the identity and a square are. -/
theorem posDef_coupled : (coupled 2).toMatrix.PosDef := by
  have hsum : (!![2, 1; 1, 2] : Matrix (Fin 2) (Fin 2) ℝ) =
      1 + vecMulVec ![1, 1] (star ![1, 1]) := by
    ext i j
    fin_cases i <;> fin_cases j <;> norm_num [vecMulVec]
  have hmatrix : (coupled 2).toMatrix = (!![2, 1; 1, 2] : Matrix (Fin 2) (Fin 2) ℝ) := by
    ext i j
    fin_cases i <;> fin_cases j <;> rfl
  rw [hmatrix, hsum]
  exact PosDef.one.add_posSemidef (posSemidef_vecMulVec_self_star _)

/-- The coupled rows are solved for within two passes, though the settings grant none, and so two
steps are enough. -/
theorem conjugateGradient_solves_coupled :
    ∃ x, ((conjugateGradient ⟨0, 0⟩).prepare (coupled 2)).solve [1, 0] = .ok x ∧
      ConjugateGradient.solvePasses ⟨0, 0⟩ (coupled 2) [1, 0] ≤ 2 ∧
      ConjugateGradient.solveWithin ⟨0, 0⟩ (coupled 2) [1, 0] 2 = .ok x := by
  obtain ⟨x, hx, hpasses, hwithin⟩ :=
    (@conjugateGradient_solves (coupled 2) ⟨0, 0⟩ _ _ (ofEntries_coupled 2) posDef_coupled le_rfl
      [1, 0]).2 rfl
  have htwo : ¬2 < ConjugateGradient.solvePasses ⟨0, 0⟩ (coupled 2) [1, 0] := not_lt.mpr hpasses
  exact ⟨x, hx, hpasses, (hwithin 2).trans (if_neg htwo)⟩

/-- **Conjugate gradients accept no wrong answer**, whatever the matrix. What an answer leaves of
the right-hand side is within the tolerance, relative to the right-hand side. So only zero is
answered by zero below a tolerance of one, and without a tolerance the answer is exact. -/
theorem conjugateGradient_sound {dim : ℕ} {entries : List (Entry ℝ)}
    (hm : SparseMatrix.ofEntries dim entries = .ok m)
    (hx : ((conjugateGradient settings).prepare m).solve b = .ok x) :
    x.length = m.dim ∧
      ‖WithLp.toLp 2 (coords m.dim b - m.toMatrix *ᵥ coords m.dim x)‖ ≤
        settings.tolerance * ‖WithLp.toLp 2 (coords m.dim b)‖ ∧
      (settings.tolerance < 1 → (∃ value ∈ b, value ≠ 0) → ∃ value ∈ x, value ≠ 0) ∧
      (settings.tolerance = 0 → m.toMatrix *ᵥ coords m.dim x = coords m.dim b) := by
  obtain ⟨hb, hsolve⟩ := solve_conjugateGradient_eq_ok_iff.mp hx
  have hlength : x.length = m.dim := (ConjugateGradient.length_solve hb hsolve).trans hb
  have hleft : ‖WithLp.toLp 2 (coords m.dim b - m.toMatrix *ᵥ coords m.dim x)‖ ≤
      settings.tolerance * ‖WithLp.toLp 2 (coords m.dim b)‖ := by
    have := ConjugateGradient.solve_sound (SparseMatrix.wellFormed_of_ofEntries hm) hb hsolve
    rwa [Vector.norm_eq hb, Vector.sqrt_dotProduct_self, Vector.sqrt_dotProduct_self] at this
  refine ⟨hlength, hleft, fun htolerance ⟨value, hvalue, hne⟩ => ?_, fun htolerance => ?_⟩
  · -- Zero leaves all of the right-hand side, which is more than the tolerance allows.
    by_contra! hzero
    have hx0 : coords m.dim x = 0 := (Vector.coords_eq_zero_iff hlength).mpr hzero
    rw [hx0, mulVec_zero, sub_zero] at hleft
    have hpos : 0 < ‖WithLp.toLp 2 (coords m.dim b)‖ := by
      rw [norm_pos_iff, Ne, WithLp.toLp_eq_zero, Vector.coords_eq_zero_iff hb]
      exact fun h => hne (h value hvalue)
    exact absurd hleft (not_le.mpr (mul_lt_of_lt_one_left hpos htolerance))
  · rw [htolerance, zero_mul, norm_le_zero_iff, WithLp.toLp_eq_zero] at hleft
    exact (sub_eq_zero.mp hleft).symm

/-- A matrix that is neither symmetric nor definite, and stretches the first axis. -/
def lopsided (stretch : ℝ) : SparseMatrix ℝ := ⟨2, [⟨0, 0, stretch⟩, ⟨0, 1, 1⟩, ⟨1, 1, -1⟩]⟩

/-- It is the matrix that its own entries make. -/
theorem ofEntries_lopsided (stretch : ℝ) :
    SparseMatrix.ofEntries 2 (lopsided stretch).entries = .ok (lopsided stretch) := by
  refine SparseMatrix.ofEntries_eq_ok_iff.mpr ⟨by simp [lopsided], ?_⟩
  unfold SparseMatrix.gather
  rw [List.mergeSort_of_pairwise (by simp [lopsided, Entry.precedes])]
  rfl

/-- A right-hand side that the matrix only stretches is answered, and rightly so. -/
theorem conjugateGradient_sound_lopsided :
    ∃ x, ((conjugateGradient ⟨0, 0⟩).prepare (lopsided 2)).solve [1, 0] = .ok x ∧
      (∃ value ∈ x, value ≠ 0) ∧
      (lopsided 2).toMatrix *ᵥ coords 2 x = coords 2 [1, 0] := by
  have hstretch : (lopsided 2).mulVec [1, 0] = [1, 0].map (2 * ·) := by
    simp [SparseMatrix.mulVec, lopsided, collect]
  have hx : ((conjugateGradient ⟨0, 0⟩).prepare (lopsided 2)).solve [1, 0] =
      .ok ([1, 0].map (2⁻¹ * ·)) :=
    solve_conjugateGradient_eq_ok_iff.mpr
      ⟨rfl, ConjugateGradient.solve_of_mulVec_eq le_rfl two_pos hstretch⟩
  obtain ⟨-, -, hnonzero, hexact⟩ := conjugateGradient_sound (ofEntries_lopsided 2) hx
  exact ⟨_, hx, hnonzero one_pos ⟨1, List.mem_cons_self, one_ne_zero⟩, hexact rfl⟩

end Solver

end GalaxyMarket
