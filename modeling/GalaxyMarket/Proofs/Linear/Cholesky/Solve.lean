import Mathlib
import GalaxyMarket.Proofs.Linear.Cholesky.Start
import GalaxyMarket.Proofs.Linear.Dense

/-!
# Solving with a Cholesky factor

Over exact numbers a symmetric positive definite matrix has a factor, and solving with it solves the
system (`exists_factor_of_posDef`). No other symmetric matrix has one (`posDef_of_ofMatrix?`).

Both substitutions work in place, one column after the other. With `k` columns done, going forward,

`b i = ∑ c < k, L i c * y c + (y i, unless i < k)`,

and going backward, with the columns from `k` on done, `∑ i, L i c * x i = y c` for each of them.
-/

namespace GalaxyMarket.Cholesky

open Finset Matrix

/-! ### One column -/

/-- Changing one place changes what is read there. -/
theorem getD_modify (b : Array ℝ) (row : Nat) (f : ℝ → ℝ) {i : Nat} (hi : i < b.size) :
    (b.modify row f).getD i 0 = if i = row then f (b.getD i 0) else b.getD i 0 := by
  rw [Array.getD_eq_getD_getElem?, Array.getD_eq_getD_getElem?, Array.getElem?_modify,
    Array.getElem?_eq_getElem hi]
  by_cases h : i = row
  · rw [if_pos h.symm, if_pos h]
    rfl
  · rw [if_neg (Ne.symm h), if_neg h]

theorem getD_set (b : Array ℝ) {k : Nat} (hk : k < b.size) (value : ℝ) (i : Nat) :
    (b.setIfInBounds k value).getD i 0 = if i = k then value else b.getD i 0 := by
  rw [Array.getD_eq_getD_getElem?, Array.getElem?_setIfInBounds, Array.getD_eq_getD_getElem?]
  by_cases h : i = k
  · rw [if_pos h.symm, if_pos hk, if_pos h]
    rfl
  · rw [if_neg (Ne.symm h), if_neg h]

theorem getElem?_eq_getD {b : Array ℝ} {k : Nat} (hk : k < b.size) :
    b[k]? = some (b.getD k 0) := by
  rw [Array.getD_eq_getD_getElem?, Array.getElem?_eq_getElem hk]
  rfl

theorem getD_toList (b : Array ℝ) (i : Nat) : b.toList.getD i 0 = b.getD i 0 := by
  rw [List.getD_eq_getElem?_getD, Array.getElem?_toList, Array.getD_eq_getD_getElem?]

/-- A column takes its products away in every row. -/
theorem getD_foldl_modify (y : ℝ) {below : List (Nat × ℝ)}
    (hsorted : (below.map Prod.fst).Pairwise (· < ·)) (b : Array ℝ) {i : Nat} (hi : i < b.size) :
    (below.foldl (fun b (row, value) => b.modify row (· - value * y)) b).getD i 0 =
      b.getD i 0 - valueAt below i * y := by
  induction below generalizing b with
  | nil => simp [valueAt]
  | cons first below ih =>
    obtain ⟨row, value⟩ := first
    rw [List.map_cons, List.pairwise_cons] at hsorted
    rw [List.foldl_cons, ih hsorted.2 _ (by rwa [Array.size_modify]), getD_modify b row _ hi,
      valueAt_cons]
    by_cases h : i = row
    · -- Rows ascend, so this one does not come again.
      have hout : i ∉ below.map Prod.fst := fun hmem => absurd (hsorted.1 i hmem) (by omega)
      rw [if_pos h, if_pos h, valueAt_of_notMem hout, zero_mul, sub_zero]
    · rw [if_neg h, if_neg h]

/-- The products that the backward substitution takes away. -/
theorem foldl_products {below : List (Nat × ℝ)} (x : Array ℝ)
    (hsorted : (below.map Prod.fst).Pairwise (· < ·))
    (hsize : ∀ row ∈ below.map Prod.fst, row < x.size) (rest : ℝ) :
    below.foldl (fun rest (row, value) => x[row]?.elim rest (rest - value * ·)) rest =
      rest - ∑ i ∈ range x.size, valueAt below i * x.getD i 0 := by
  -- The first row is taken away first, and then the others.
  induction below generalizing rest with
  | nil => simp [valueAt]
  | cons first below ih =>
    obtain ⟨row, value⟩ := first
    rw [List.map_cons, List.pairwise_cons] at hsorted
    have hrow : row < x.size := hsize row List.mem_cons_self
    -- The first row is set apart from the sum.
    have hsum : ∑ i ∈ range x.size, valueAt ((row, value) :: below) i * x.getD i 0 =
        value * x.getD row 0 + ∑ i ∈ range x.size, valueAt below i * x.getD i 0 := by
      have hterm : ∀ i, valueAt ((row, value) :: below) i * x.getD i 0 =
          (if i = row then value * x.getD row 0 else 0) + valueAt below i * x.getD i 0 := by
        intro i
        rw [valueAt_cons]
        by_cases h : i = row
        · have hout : i ∉ below.map Prod.fst := fun hmem => absurd (hsorted.1 i hmem) (by omega)
          rw [if_pos h, if_pos h, valueAt_of_notMem hout, zero_mul, add_zero, h]
        · rw [if_neg h, if_neg h, zero_add]
      rw [sum_congr rfl fun i _ => hterm i, sum_add_distrib, sum_ite_eq',
        if_pos (mem_range.mpr hrow)]
    rw [List.foldl_cons, ih hsorted.2 fun r hr => hsize r (List.mem_cons_of_mem _ hr), hsum]
    change x[row]?.elim rest (rest - value * ·) - _ = _
    rw [getElem?_eq_getD hrow, Option.elim_some]
    ring

/-! ### The substitutions -/

/-- A lower triangular matrix of size `n` that can be solved: its pivots are not zero. -/
structure IsFactor (factor : List (Column ℝ)) (n : Nat) : Prop
    extends IsLower (patternOf factor.toArray) where
  length_eq : factor.length = n
  pivots : ∀ j < n, entry factor.toArray j j ≠ 0

variable {factor : List (Column ℝ)} {n k : Nat}

/-- Each column of a factor has its rows in order, below its diagonal. -/
theorem IsFactor.getElem?_eq (h : IsFactor factor n) (hk : k < n) :
    ∃ column, factor[k]? = some column ∧ factor.toArray[k]? = some column ∧
      (column.below.map Prod.fst).Pairwise (· < ·) ∧
      ∀ row ∈ column.below.map Prod.fst, k < row ∧ row < n := by
  have hlt : k < factor.length := h.length_eq ▸ hk
  have hcolumn : factor.toArray[k]? = some factor[k] := by
    rw [List.getElem?_toArray, List.getElem?_eq_getElem hlt]
  have hrows := rowsOf_patternOf hcolumn
  refine ⟨factor[k], List.getElem?_eq_getElem hlt, hcolumn, hrows ▸ h.sorted k, fun row hrow => ?_⟩
  have := h.lower k row (hrows ▸ hrow)
  rwa [patternOf, Array.size_map, List.size_toArray, h.length_eq] at this

/-- One column forward: its own entry is solved, and its products are taken away below. -/
theorem getD_forwardStep (column : Column ℝ) {y : Array ℝ} (hk : k < y.size)
    (hsorted : (column.below.map Prod.fst).Pairwise (· < ·))
    (hrows : ∀ row ∈ column.below.map Prod.fst, k < row) {i : Nat} (hi : i < y.size) :
    (forwardStep y (column, k)).getD i 0 =
      if i = k then y.getD k 0 / column.diagonal
      else y.getD i 0 - valueAt column.below i * (y.getD k 0 / column.diagonal) := by
  rw [forwardStep, getElem?_eq_getD hk]
  change (Array.getD (column.below.foldl _ _) i 0 : ℝ) = _
  rw [getD_foldl_modify _ hsorted _ (by rwa [Array.size_setIfInBounds]), getD_set y hk]
  split
  · next h =>
    have hout : i ∉ column.below.map Prod.fst := fun hmem => absurd (hrows i hmem) (by omega)
    rw [valueAt_of_notMem hout, zero_mul, sub_zero]
  · rfl

/-- One column backward: the products below are taken away, and what is left is solved. -/
theorem backwardStep_eq (column : Column ℝ) {x : Array ℝ} (hk : k < x.size)
    (hsorted : (column.below.map Prod.fst).Pairwise (· < ·))
    (hrows : ∀ row ∈ column.below.map Prod.fst, row < x.size) :
    backwardStep (column, k) x = x.setIfInBounds k
      ((x.getD k 0 - ∑ i ∈ range x.size, valueAt column.below i * x.getD i 0) /
        column.diagonal) := by
  rw [backwardStep, getElem?_eq_getD hk]
  exact congrArg (fun rest => x.setIfInBounds k (rest / column.diagonal))
    (foldl_products x hsorted hrows (x.getD k 0))

/-- **Going forward.** -/
theorem IsFactor.forward_invariant (h : IsFactor factor n) {b : Array ℝ} (hb : b.size = n) :
    ∀ k ≤ n, ∃ y, (factor.zipIdx.take k).foldl forwardStep b = y ∧ y.size = n ∧ ∀ i < n,
      b.getD i 0 = ∑ c ∈ range k, entry factor.toArray i c * y.getD c 0 +
        if k ≤ i then y.getD i 0 else 0 := by
  intro k hk
  -- From column to column. The entry that is solved next is what is left in its row.
  induction k with
  | zero =>
    refine ⟨b, rfl, hb, fun i _ => ?_⟩
    rw [range_zero, sum_empty, zero_add, if_pos (Nat.zero_le i)]
  | succ k ih =>
    obtain ⟨y, hy, hsize, hvalue⟩ := ih (by omega)
    obtain ⟨column, hcolumn, hentry, hsorted, hrows⟩ := h.getElem?_eq (k := k) (by omega)
    have htake : factor.zipIdx.take (k + 1) = factor.zipIdx.take k ++ [(column, k)] := by
      rw [List.take_add_one, List.getElem?_zipIdx, hcolumn, Option.map_some, Nat.zero_add]
      rfl
    have hpivot := h.pivots k (by omega)
    rw [entry_self hentry] at hpivot
    have hstep := fun {i} (hi : i < n) => getD_forwardStep column (k := k) (y := y)
      (by omega) hsorted (fun row hrow => (hrows row hrow).1) (i := i) (hsize ▸ hi)
    -- The column is empty down to its diagonal, so that what is solved stays.
    have houter : ∀ i ≤ k, valueAt column.below i = 0 := fun i hi =>
      valueAt_of_notMem fun hmem => absurd (hrows i hmem).1 (by omega)
    refine ⟨forwardStep y (column, k), ?_, by rw [size_forwardStep, hsize], fun i hi => ?_⟩
    · rw [htake, List.foldl_append, hy]
      rfl
    · have hsum : ∑ c ∈ range k, entry factor.toArray i c * (forwardStep y (column, k)).getD c 0 =
          ∑ c ∈ range k, entry factor.toArray i c * y.getD c 0 := by
        refine sum_congr rfl fun c hc => ?_
        have hc := mem_range.mp hc
        rw [hstep (by omega), if_neg (by omega), houter c hc.le, zero_mul, sub_zero]
      -- In row `k` the rest becomes a product with the pivot; further down the product is added to
      -- the sum and taken away from the rest.
      rw [hvalue i hi, sum_range_succ, hsum, hstep (by omega : k < n), if_pos rfl, hstep hi]
      rcases lt_trichotomy i k with hlt | rfl | hlt
      · rw [if_neg (by omega), if_neg (by omega), entry_of_lt h.toIsLower hlt, zero_mul, add_zero,
          add_zero]
      · rw [if_pos le_rfl, if_neg (by omega), entry_self hentry, mul_div_cancel₀ _ hpivot,
          add_zero]
      · rw [if_pos hlt.le, if_pos (by omega), if_neg (by omega), entry_of_ne hentry (by omega)]
        ring

/-- **Going backward.** -/
theorem IsFactor.backward_invariant (h : IsFactor factor n) {y : Array ℝ} (hy : y.size = n) :
    ∀ d ≤ n, ∃ x, (factor.zipIdx.drop (n - d)).foldr backwardStep y = x ∧ x.size = n ∧
      (∀ c < n - d, x.getD c 0 = y.getD c 0) ∧ ∀ c < n, n - d ≤ c →
        ∑ i ∈ range n, entry factor.toArray i c * x.getD i 0 = y.getD c 0 := by
  intro d hd
  -- The induction is on the number of columns that are done, from the last on.
  induction d with
  | zero =>
    refine ⟨y, ?_, hy, fun _ _ => rfl, fun c hc hle => absurd hle (by omega)⟩
    rw [List.drop_eq_nil_of_le (by rw [List.length_zipIdx, h.length_eq]; omega)]
    rfl
  | succ d ih =>
    obtain ⟨x, hx, hsize, hleft, hright⟩ := ih (by omega)
    obtain ⟨k, hk⟩ : ∃ k, k = n - (d + 1) := ⟨_, rfl⟩
    have hk' : n - d = k + 1 := by omega
    rw [hk'] at hx hleft hright
    rw [← hk]
    obtain ⟨column, hcolumn, hentry, hsorted, hrows⟩ := h.getElem?_eq (k := k) (by omega)
    have hdrop : factor.zipIdx.drop k = (column, k) :: factor.zipIdx.drop (k + 1) := by
      refine List.drop_eq_getElem?_toList_append.trans ?_
      rw [List.getElem?_zipIdx, hcolumn, Option.map_some, Nat.zero_add]
      rfl
    have hpivot := h.pivots k (by omega)
    rw [entry_self hentry] at hpivot
    let taken := ∑ i ∈ range n, valueAt column.below i * x.getD i 0
    have hstep : backwardStep (column, k) x =
        x.setIfInBounds k ((x.getD k 0 - taken) / column.diagonal) := by
      rw [backwardStep_eq column (hsize.symm ▸ by omega : k < x.size) hsorted
        fun row hrow => hsize.symm ▸ (hrows row hrow).2, hsize]
    have hvalue := getD_set x (k := k) (by omega) ((x.getD k 0 - taken) / column.diagonal)
    refine ⟨backwardStep (column, k) x, ?_, ?_, fun c hc => ?_, fun c hc hle => ?_⟩
    · rw [hdrop, List.foldr_cons, hx]
    · rw [hstep, Array.size_setIfInBounds, hsize]
    · rw [hstep, hvalue, if_neg (by omega), hleft c (by omega)]
    · rw [hstep]
      -- The other columns do not see the row: `L k c` is zero for `c` behind `k`.
      rcases Nat.eq_or_lt_of_le hle with rfl | hlt
      · -- The row that has just been solved.
        have hterm : ∀ i, entry factor.toArray i k *
            (x.setIfInBounds k ((x.getD k 0 - taken) / column.diagonal)).getD i 0 =
            (if i = k then x.getD k 0 - taken else 0) + valueAt column.below i * x.getD i 0 := by
          intro i
          rw [hvalue]
          by_cases hi : i = k
          · have hout : i ∉ column.below.map Prod.fst := fun hmem =>
              absurd (hrows i hmem).1 (by omega)
            rw [if_pos hi, if_pos hi, hi, entry_self hentry, mul_div_cancel₀ _ hpivot, ← hi,
              valueAt_of_notMem hout, zero_mul, add_zero]
          · rw [if_neg hi, if_neg hi, entry_of_ne hentry hi, zero_add]
        rw [sum_congr rfl fun i _ => hterm i, sum_add_distrib, sum_ite_eq',
          if_pos (mem_range.mpr hc), sub_add_cancel, hleft k (by omega)]
      · rw [← hright c hc (by omega)]
        refine sum_congr rfl fun i _ => ?_
        rw [hvalue]
        split
        · next hi => rw [hi, entry_of_lt h.toIsLower (by omega), zero_mul, zero_mul]
        · rfl

/-- **Both substitutions together** solve `L Lᵀ x = b`. -/
theorem IsFactor.solve_eq (h : IsFactor factor n) {b : List ℝ} (hb : b.length = n) :
    (solve factor b).length = n ∧ ∀ i < n, b.getD i 0 =
      ∑ j ∈ range n, (∑ c ∈ range n, entry factor.toArray i c * entry factor.toArray j c) *
        (solve factor b).getD j 0 := by
  have hlength : factor.zipIdx.length = n := by rw [List.length_zipIdx, h.length_eq]
  obtain ⟨y, hy, hysize, hforward⟩ := h.forward_invariant (b := b.toArray) hb n le_rfl
  rw [← hlength, List.take_length] at hy
  obtain ⟨x, hx, hxsize, -, hbackward⟩ := h.backward_invariant hysize n le_rfl
  rw [Nat.sub_self, List.drop_zero] at hx
  have hsolve : solve factor b = x.toList := by
    rw [solve, forward, hy, backward, hx]
  rw [hsolve]
  refine ⟨hxsize, fun i hi => ?_⟩
  -- Forward substitution has found `y` with `L y = b`, backward substitution `x` with `Lᵀ x = y`.
  calc b.getD i 0 = ∑ c ∈ range n, entry factor.toArray i c * y.getD c 0 := by
        have := hforward i hi
        rwa [if_neg (by omega), add_zero, ← getD_toList] at this
    _ = ∑ c ∈ range n, entry factor.toArray i c *
        ∑ j ∈ range n, entry factor.toArray j c * x.getD j 0 :=
        sum_congr rfl fun c hc => by rw [hbackward c (mem_range.mp hc) (by omega)]
    _ = ∑ j ∈ range n, (∑ c ∈ range n, entry factor.toArray i c * entry factor.toArray j c) *
        x.toList.getD j 0 := by
        simp only [mul_sum, sum_mul]
        rw [sum_comm]
        refine sum_congr rfl fun j _ => sum_congr rfl fun c _ => ?_
        rw [mul_assoc, getD_toList]

/-! ### Positive definite matrices -/

/-- The quadratic form of a sparse matrix, written with the entries of the list. -/
theorem isPositive_of_posDef {m : SparseMatrix ℝ} (hsymm : m.IsSymm) (hpos : m.toMatrix.PosDef) :
    IsPositive m.dim m.get := by
  refine ⟨fun i j => by rw [SparseMatrix.get, SparseMatrix.get, hsymm i j], fun x hx => ?_⟩
  obtain ⟨k, hk, hne⟩ := hx
  have hform := hpos.dotProduct_mulVec_pos (x := fun i : Fin m.dim => x i)
    (Function.ne_iff.mpr ⟨⟨k, hk⟩, hne⟩)
  calc 0 < ∑ i : Fin m.dim, x i * ∑ j : Fin m.dim, m.get i j * x j := hform
    _ = ∑ i : Fin m.dim, ∑ j : Fin m.dim, m.get i j * (x i * x j) :=
      sum_congr rfl fun i _ => by rw [mul_sum]; exact sum_congr rfl fun j _ => by ring
    _ = ∑ i ∈ range m.dim, ∑ j ∈ range m.dim, m.get i j * (x i * x j) := by
      rw [sum_range]
      exact sum_congr rfl fun i _ => (sum_range fun j => m.get i j * (x i * x j)).symm

/-- At the end of an elimination nothing is left, so that the matrix is `L Lᵀ`. -/
theorem Eliminated.get_eq {m : SparseMatrix ℝ} {pattern : Array (List Nat)}
    {columns : Array (Column ℝ)} (h : Eliminated pattern m.get columns m.dim) (hsymm : m.IsSymm)
    (i j : Nat) (hi : i < m.dim) (hj : j < m.dim) :
    m.get i j = ∑ c ∈ range m.dim, entry columns i c * entry columns j c := by
  -- The invariant speaks of the lower triangle.
  have hlower : ∀ i j, j < m.dim → j ≤ i →
      m.get i j = ∑ c ∈ range m.dim, entry columns i c * entry columns j c := by
    intro i j hj hij
    rw [h.value i j hij, if_neg (Nat.not_le_of_lt hj), add_zero]
  rcases le_total j i with hij | hij
  · exact hlower i j hj hij
  · have hswap : m.get i j = m.get j i := by rw [SparseMatrix.get, hsymm i j, SparseMatrix.get]
    rw [hswap, hlower j i hi hij]
    exact sum_congr rfl fun c _ => mul_comm ..

/-- **A symmetric positive definite matrix is solved by its factor.** -/
theorem exists_factor_of_posDef {m : SparseMatrix ℝ} (hm : m.WellFormed) (hsymm : m.IsSymm)
    (hpos : m.toMatrix.PosDef) : ∃ factor, ofMatrix? m = some factor ∧
      ∀ b : List ℝ, b.length = m.dim →
        (solve factor b).length = m.dim ∧ m.mulVec (solve factor b) = b := by
  have hclosed := isClosed_fill (isLower_transposedUpper hm)
  have hsize : (fill (transposedUpper m)).size = m.dim := by
    rw [(handed_fill (isLower_transposedUpper hm)).size_eq, size_transposedUpper]
  obtain ⟨columns, hcolumns, heliminated⟩ := exists_factor hclosed
    (hsize ▸ isPositive_of_posDef hsymm hpos) (eliminated_start hm hsymm)
  rw [hsize] at hcolumns heliminated
  -- What the elimination leaves has the pattern of the start, and the pivots of the invariant.
  have hfactor : IsFactor columns.toList m.dim := by
    refine ⟨?_, ?_, fun j hj => (heliminated.pivots j hj).ne'⟩
    · rw [Array.toArray_toList, heliminated.pattern_eq]
      exact hclosed.toIsLower
    · rw [Array.length_toList, heliminated.size_eq, hsize]
  refine ⟨columns.toList, by rw [ofMatrix?, hcolumns]; rfl, fun b hb => ?_⟩
  obtain ⟨hlength, hsolve⟩ := hfactor.solve_eq hb
  have hvalue := heliminated.get_eq hsymm
  rw [Array.toArray_toList] at hsolve
  refine ⟨hlength, (Vector.coords_inj (m.length_mulVec _) hb).mp ?_⟩
  rw [SparseMatrix.coords_mulVec hm hlength]
  funext i
  calc (m.toMatrix *ᵥ Vector.coords m.dim (solve columns.toList b)) i
      = ∑ j : Fin m.dim, m.get i j * (solve columns.toList b).getD j 0 := rfl
    _ = ∑ j : Fin m.dim, (∑ c ∈ range m.dim, entry columns i c * entry columns j c) *
          (solve columns.toList b).getD j 0 :=
        sum_congr rfl fun j _ => by rw [hvalue i j i.isLt j.isLt]
    _ = b.getD i 0 := ((hsolve i i.isLt).trans (sum_range _)).symm

/-- **Only positive definite matrices have a factor**: they are the product of a triangular matrix
with positive pivots and its transpose. -/
theorem posDef_of_ofMatrix? {m : SparseMatrix ℝ} (hm : m.WellFormed) (hsymm : m.IsSymm)
    {factor : List (Column ℝ)} (hfactor : ofMatrix? m = some factor) : m.toMatrix.PosDef := by
  obtain ⟨columns, hcolumns, -⟩ := Option.map_eq_some_iff.mp hfactor
  have hclosed := isClosed_fill (isLower_transposedUpper hm)
  have hsize : (fill (transposedUpper m)).size = m.dim := by
    rw [(handed_fill (isLower_transposedUpper hm)).size_eq, size_transposedUpper]
  have heliminated := Eliminated.of_foldlM hclosed (eliminated_start hm hsymm) hsize.ge hcolumns
  have hlower : IsLower (patternOf columns) := heliminated.pattern_eq ▸ hclosed.toIsLower
  let lower : Matrix (Fin m.dim) (Fin m.dim) ℝ := .of fun i c => entry columns i c
  have hproduct : m.toMatrix = lower * lowerᴴ := by
    ext i j
    show m.get i j = ∑ c : Fin m.dim, entry columns i c * entry columns j c
    rw [heliminated.get_eq hsymm i j i.isLt j.isLt, sum_range]
  -- The determinant of a triangular matrix is the product of its pivots.
  have hunit : IsUnit lower := by
    apply (isUnit_iff_isUnit_det lower).mpr
    have hdet : lower.det = ∏ i, lower i i := by
      apply det_of_isLowerTriangular
      intro i j hij
      exact entry_of_lt hlower hij
    rw [hdet]
    apply IsUnit.mk0
    apply prod_ne_zero_iff.mpr
    intro i _
    exact (heliminated.pivots i i.isLt).ne'
  rw [hproduct]
  exact PosDef.mul_conjTranspose_self lower (vecMul_injective_iff_isUnit.mpr hunit)

/-- So no other symmetric matrix has one. -/
theorem ofMatrix?_eq_none {m : SparseMatrix ℝ} (hm : m.WellFormed) (hsymm : m.IsSymm)
    (hpos : ¬m.toMatrix.PosDef) : ofMatrix? m = none := by
  apply Option.eq_none_iff_forall_ne_some.mpr
  intro factor hfactor
  exact hpos (posDef_of_ofMatrix? hm hsymm hfactor)

end GalaxyMarket.Cholesky
