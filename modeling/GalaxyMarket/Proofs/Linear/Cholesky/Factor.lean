import Mathlib
import GalaxyMarket.Proofs.Exact
import GalaxyMarket.Proofs.Linear.Cholesky.Pattern

/-!
# The Cholesky factor

Over exact numbers, and with a closed pattern, elimination finds the factor of every positive
definite matrix. Columns are read as a lower triangular matrix by `entry`. When `k` columns are
eliminated, the others hold what remains of the matrix `A`, so that the invariant (`Eliminated`) is
one equation,

`A i j = ∑ c < k, L i c * L j c + (the entry of column j, unless j < k)`.

* `entry_reduce` — taking the products of a column away from the columns to its right does so at
  every place, because the pattern is closed.
* `exists_eliminate?`, `Eliminated.eliminate` — what one step does, and that it keeps the invariant.
* `Eliminated.pivot_pos` — what remains of a positive definite matrix has a positive pivot: with the
  vector that `Lᵀ` sends to zero left of the pivot, the quadratic form of `A` is the pivot.
* `exists_factor` — hence the elimination comes to an end, and its result is a factor.
* `Eliminated.of_foldlM` — where it comes to an end, the invariant was kept and all pivots are
  positive.
-/

namespace GalaxyMarket.Cholesky

open Finset

/-! ### Columns as a matrix -/

/-- The value in a row of a column, zero where it has no place. -/
def valueAt (below : List (Nat × ℝ)) (row : Nat) : ℝ := (below.lookup row).getD 0

/-- The entry of a lower triangular matrix, by its columns. -/
def entry (columns : Array (Column ℝ)) (i j : Nat) : ℝ :=
  columns[j]?.elim 0 fun column => if i = j then column.diagonal else valueAt column.below i

/-- The places of some columns below their diagonal. -/
def patternOf (columns : Array (Column ℝ)) : Array (List Nat) :=
  columns.map fun column => column.below.map Prod.fst

/-- The first row is looked at first. -/
theorem valueAt_cons (row i : Nat) (value : ℝ) (below : List (Nat × ℝ)) :
    valueAt ((row, value) :: below) i = if i = row then value else valueAt below i := by
  rw [valueAt, List.lookup_cons]
  by_cases h : i = row
  · simp [h]
  · rw [if_neg h, beq_false_of_ne h]
    rfl

/-- Where there is no place there is zero. -/
theorem valueAt_of_notMem {below : List (Nat × ℝ)} {i : Nat} (h : i ∉ below.map Prod.fst) :
    valueAt below i = 0 := by
  induction below with
  | nil => rfl
  | cons first below ih =>
    rw [List.map_cons, List.mem_cons, not_or] at h
    rw [valueAt_cons, if_neg h.1, ih h.2]

/-- Dividing a column divides its values. -/
theorem valueAt_map_div (below : List (Nat × ℝ)) (root : ℝ) (i : Nat) :
    valueAt (below.map fun e => (e.1, e.2 / root)) i = valueAt below i / root := by
  induction below with
  | nil => simp [valueAt]
  | cons first below ih =>
    rw [List.map_cons, valueAt_cons, ih, valueAt_cons]
    split <;> rfl

/-- The places of a column are its rows. -/
theorem rowsOf_patternOf {columns : Array (Column ℝ)} {j : Nat} {column : Column ℝ}
    (h : columns[j]? = some column) :
    rowsOf (patternOf columns) j = column.below.map Prod.fst := by
  rw [rowsOf, patternOf, Array.getElem?_map, h]
  rfl

/-- On the diagonal there is the diagonal of the column, -/
theorem entry_self {columns : Array (Column ℝ)} {j : Nat} {column : Column ℝ}
    (h : columns[j]? = some column) : entry columns j j = column.diagonal := by
  rw [entry, h]
  exact if_pos rfl

/-- and elsewhere its value. -/
theorem entry_of_ne {columns : Array (Column ℝ)} {i j : Nat} {column : Column ℝ}
    (h : columns[j]? = some column) (hij : i ≠ j) : entry columns i j = valueAt column.below i := by
  rw [entry, h]
  exact if_neg hij

/-- Above the diagonal there is nothing. -/
theorem entry_of_lt {columns : Array (Column ℝ)} (hlower : IsLower (patternOf columns)) {i j : Nat}
    (hij : i < j) : entry columns i j = 0 := by
  cases hj : columns[j]? with
  | none => rw [entry, hj]; rfl
  | some column =>
    rw [entry_of_ne hj (by omega)]
    refine valueAt_of_notMem fun hmem => ?_
    rw [← rowsOf_patternOf hj] at hmem
    have := (hlower.lower j i hmem).1
    omega

/-! ### Taking products away -/

/-- Taking products away keeps the places. -/
theorem map_fst_subtract (value : ℝ) (below others : List (Nat × ℝ)) :
    (subtract value below others).map Prod.fst = below.map Prod.fst := by
  fun_induction subtract value below others with
  | case1 row entry below place other others heq ih => rw [List.map_cons, List.map_cons, ih]
  | case2 row entry below place other others hne ih => rw [List.map_cons, List.map_cons, ih]
  | case3 => rfl

/-- The products are taken away in every row, provided that each has its place. -/
theorem valueAt_subtract (value : ℝ) {below others : List (Nat × ℝ)}
    (hbelow : (below.map Prod.fst).Pairwise (· < ·))
    (hothers : (others.map Prod.fst).Pairwise (· < ·))
    (hsub : others.map Prod.fst ⊆ below.map Prod.fst) (i : Nat) :
    valueAt (subtract value below others) i = valueAt below i - value * valueAt others i := by
  fun_induction subtract value below others with
  | case1 row entry below place other others heq ih =>
    -- The two rows are the same: one product is taken away here.
    obtain rfl : row = place := by simpa using heq
    rw [List.map_cons, List.pairwise_cons] at hbelow hothers
    -- The other products lie further down.
    have hsub' : others.map Prod.fst ⊆ below.map Prod.fst := by
      intro x hx
      rcases List.mem_cons.mp (hsub (List.mem_cons_of_mem _ hx)) with rfl | hx'
      · exact absurd (hothers.1 x hx) (lt_irrefl x)
      · exact hx'
    rw [valueAt_cons, ih hbelow.2 hothers.2 hsub', valueAt_cons, valueAt_cons]
    split
    · ring
    · rfl
  -- No product in this row. As each has its place, they all lie further down.
  | case2 row entry below place other others hne ih =>
    rw [List.map_cons, List.pairwise_cons] at hbelow
    have hplace : place ∈ below.map Prod.fst := by
      rcases List.mem_cons.mp (hsub List.mem_cons_self) with rfl | h
      · simp at hne
      · exact h
    have hafter : ∀ x ∈ ((place, other) :: others).map Prod.fst, row < x := by
      intro x hx
      have hfirst := hbelow.1 place hplace
      rcases List.mem_cons.mp hx with rfl | hx
      · exact hfirst
      · exact hfirst.trans ((List.pairwise_cons.mp hothers).1 x hx)
    have hsub' : ((place, other) :: others).map Prod.fst ⊆ below.map Prod.fst := by
      intro x hx
      rcases List.mem_cons.mp (hsub hx) with rfl | hx'
      · exact absurd (hafter _ hx) (lt_irrefl _)
      · exact hx'
    rw [valueAt_cons, ih hbelow.2 hothers hsub', valueAt_cons row]
    split
    · next heq =>
      subst heq
      rw [valueAt_of_notMem fun hmem => absurd (hafter i hmem) (lt_irrefl i), mul_zero, sub_zero]
    · rfl
  | case3 others below hshape =>
    -- One list is at its end, and it is that of the products.
    have hnil : others = [] := by
      rcases others with _ | ⟨⟨place, other⟩, others⟩
      · rfl
      · rcases below with _ | ⟨⟨row, entry⟩, below⟩
        · exact absurd (hsub List.mem_cons_self) (by simp)
        · exact (hshape row entry below place other others rfl rfl).elim
    rw [hnil]
    simp [valueAt]

/-- The pattern depends on places alone. -/
theorem patternOf_modify (columns : Array (Column ℝ)) (row : Nat) (f : Column ℝ → Column ℝ)
    (hf : ∀ column, (f column).below.map Prod.fst = column.below.map Prod.fst) :
    patternOf (columns.modify row f) = patternOf columns := by
  refine Array.ext_getElem? fun j => ?_
  rw [patternOf, patternOf, Array.getElem?_map, Array.getElem?_map, Array.getElem?_modify]
  split
  · cases columns[j]? with
    | none => rfl
    | some column => exact congrArg some (hf column)
  · rfl

/-- Changing one column leaves the others. -/
theorem entry_modify_of_ne (columns : Array (Column ℝ)) {row j : Nat} (h : j ≠ row)
    (f : Column ℝ → Column ℝ) (i : Nat) : entry (columns.modify row f) i j = entry columns i j := by
  rw [entry, entry, Array.getElem?_modify, if_neg (Ne.symm h)]

/-- **The products of a column with itself** are taken away at each place to its right: where there
is no place there is no product. -/
theorem entry_reduce {pattern : Array (List Nat)} {below : List (Nat × ℝ)}
    (hsorted : (below.map Prod.fst).Pairwise (· < ·))
    (hsize : ∀ row ∈ below.map Prod.fst, row < pattern.size)
    (hclosed : ∀ r ∈ below.map Prod.fst, ∀ s ∈ below.map Prod.fst, r < s → s ∈ rowsOf pattern r)
    (hrows : ∀ col, (rowsOf pattern col).Pairwise (· < ·))
    {columns : Array (Column ℝ)} (hpattern : patternOf columns = pattern) :
    patternOf (reduce below columns) = pattern ∧ ∀ i j, j ≤ i →
      entry (reduce below columns) i j = entry columns i j - valueAt below i * valueAt below j := by
  -- The induction is on the rows of the column, whose own column is changed by each.
  induction below generalizing columns with
  | nil =>
    refine ⟨hpattern, fun i j _ => ?_⟩
    rw [reduce, valueAt_of_notMem List.not_mem_nil, zero_mul, sub_zero]
  | cons first below ih =>
    obtain ⟨row, value⟩ := first
    rw [List.map_cons, List.pairwise_cons] at hsorted
    obtain ⟨hfirst, hsorted⟩ := hsorted
    have hnil : ∀ i ≤ row, valueAt below i = 0 := fun i hi =>
      valueAt_of_notMem fun hmem => absurd (hfirst i hmem) (by omega)
    have hlt : row < columns.size := by
      have := hsize row List.mem_cons_self
      rwa [← hpattern, patternOf, Array.size_map] at this
    have hcolumn : columns[row]? = some columns[row] := Array.getElem?_eq_getElem hlt
    have hplaces := rowsOf_patternOf hcolumn
    -- The other rows have their places in the column of this one.
    have hsub : below.map Prod.fst ⊆ columns[row].below.map Prod.fst := by
      intro s hs
      rw [← hplaces, hpattern]
      exact hclosed row List.mem_cons_self s (List.mem_cons_of_mem _ hs) (hfirst s hs)
    have hascend : (columns[row].below.map Prod.fst).Pairwise (· < ·) := by
      rw [← hplaces, hpattern]
      exact hrows row
    let step (column : Column ℝ) : Column ℝ :=
      { diagonal := column.diagonal + value * -value, below := subtract value column.below below }
    have hstep : (columns.modify row step)[row]? = some (step columns[row]) := by
      rw [Array.getElem?_modify, if_pos rfl, hcolumn]
      rfl
    have hpattern_step : patternOf (columns.modify row step) = pattern := by
      rw [patternOf_modify columns row step fun column => map_fst_subtract .., hpattern]
    obtain ⟨hpattern', hentry⟩ := ih hsorted (fun r hr => hsize r (List.mem_cons_of_mem _ hr))
      (fun r hr s hs => hclosed r (List.mem_cons_of_mem _ hr) s (List.mem_cons_of_mem _ hs))
      hpattern_step
    -- The step changed column `row`, the rest of the products change the columns behind it.
    refine ⟨hpattern', fun i j hij => ?_⟩
    change entry (reduce below (columns.modify row step)) i j = _
    rw [hentry i j hij, valueAt_cons, valueAt_cons]
    by_cases hj : j = row
    · subst hj
      rw [hnil j le_rfl, mul_zero, sub_zero, if_pos rfl]
      by_cases hi : i = j
      · subst hi
        rw [entry_self hstep, entry_self hcolumn, if_pos rfl]
        change columns[i].diagonal + value * -value = _
        ring
      · rw [entry_of_ne hstep hi, entry_of_ne hcolumn hi, if_neg hi]
        change valueAt (subtract value columns[j].below below) i = _
        rw [valueAt_subtract value hascend hsorted hsub, mul_comm]
    · rw [entry_modify_of_ne columns hj, if_neg hj]
      by_cases hi : i = row
      · -- Left of the row there is nothing of this column.
        rw [hnil j (by omega), mul_zero, mul_zero]
      · rw [if_neg hi]

/-! ### One step of the elimination -/

variable {pattern : Array (List Nat)} {columns : Array (Column ℝ)} {k : Nat}

/-- A column divided by a number. -/
noncomputable def Column.scale (column : Column ℝ) (root : ℝ) : Column ℝ :=
  { diagonal := column.diagonal / root, below := column.below.map fun e => (e.1, e.2 / root) }

/-- Dividing a column keeps its places. -/
theorem map_fst_scale (column : Column ℝ) (root : ℝ) :
    (column.scale root).below.map Prod.fst = column.below.map Prod.fst := by
  rw [Column.scale, List.map_map]
  rfl

/-- A divided column is put back at its place. -/
theorem entry_set_scale {column : Column ℝ} (hcolumn : columns[k]? = some column) (root : ℝ)
    (i j : Nat) : entry (columns.setIfInBounds k (column.scale root)) i j =
      if j = k then entry columns i k / root else entry columns i j := by
  by_cases hj : j = k
  · have hscaled :
        (columns.setIfInBounds k (column.scale root))[k]? = some (column.scale root) := by
      rw [Array.getElem?_setIfInBounds, if_pos rfl,
        if_pos (Array.getElem?_eq_some_iff.mp hcolumn).1]
    rw [if_pos hj, hj]
    by_cases hi : i = k
    · rw [hi, entry_self hscaled, entry_self hcolumn]
      rfl
    · rw [entry_of_ne hscaled hi, entry_of_ne hcolumn hi]
      exact valueAt_map_div column.below root i
  · rw [if_neg hj, entry, entry, Array.getElem?_setIfInBounds_ne (Ne.symm hj)]

/-- So the pattern is what it was. -/
theorem patternOf_set_scale {column : Column ℝ} (hcolumn : columns[k]? = some column) (root : ℝ) :
    patternOf (columns.setIfInBounds k (column.scale root)) = patternOf columns := by
  refine Array.ext_getElem? fun j => ?_
  rw [patternOf, patternOf, Array.getElem?_map, Array.getElem?_map, Array.getElem?_setIfInBounds]
  by_cases hj : j = k
  · rw [if_pos hj.symm, if_pos (Array.getElem?_eq_some_iff.mp hcolumn).1, hj, hcolumn,
      Option.map_some, Option.map_some, map_fst_scale]
  · rw [if_neg (Ne.symm hj)]

/-- **What eliminating a column does**, as long as its pivot is positive: the column is divided by
the root of the pivot, and its products with itself are taken away from the columns to its right. -/
theorem exists_eliminate? (hclosed : IsClosed pattern) (hpattern : patternOf columns = pattern)
    (hk : k < pattern.size) (hpivot : 0 < entry columns k k) :
    ∃ next, eliminate? columns k = some next ∧ patternOf next = pattern ∧
      (∀ i, ∀ j < k, entry next i j = entry columns i j) ∧
      (∀ i, entry next i k = entry columns i k / √(entry columns k k)) ∧
      ∀ i j, k < j → j ≤ i →
        entry next i j = entry columns i j - entry next i k * entry next j k := by
  have hlt : k < columns.size := by rwa [← hpattern, patternOf, Array.size_map] at hk
  have hcolumn : columns[k]? = some columns[k] := Array.getElem?_eq_getElem hlt
  have hself := entry_self hcolumn
  rw [hself] at hpivot ⊢
  let root := √columns[k].diagonal
  let below := (columns[k].scale root).below
  let scaled := columns.setIfInBounds k (columns[k].scale root)
  have hrows : below.map Prod.fst = rowsOf pattern k := by
    rw [← hpattern, rowsOf_patternOf hcolumn, map_fst_scale]
  have hscaled : patternOf scaled = pattern := by rw [patternOf_set_scale hcolumn, hpattern]
  -- Two rows of the column are a place, so that no product falls outside.
  obtain ⟨hnext, hreduce⟩ := entry_reduce (hrows ▸ hclosed.sorted k)
    (fun r hr => (hclosed.lower k r (hrows ▸ hr)).2)
    (fun r hr s hs => hclosed.closed k r (hrows ▸ hr) s (hrows ▸ hs)) hclosed.sorted hscaled
  have hbelow_self : ∀ i ≤ k, valueAt below i = 0 := by
    refine fun i hi => valueAt_of_notMem fun hmem => ?_
    have := (hclosed.lower k i (hrows ▸ hmem)).1
    omega
  have hbelow : ∀ i, k < i → valueAt below i = entry columns i k / root := by
    intro i hi
    rw [entry_of_ne hcolumn (by omega)]
    exact valueAt_map_div columns[k].below root i
  -- Up to column `k` no products are taken away.
  have hkept : ∀ i, ∀ j ≤ k, entry (reduce below scaled) i j = entry scaled i j := by
    intro i j hj
    by_cases hij : j ≤ i
    · rw [hreduce i j hij, hbelow_self j hj, mul_zero, sub_zero]
    · rw [entry_of_lt (hnext ▸ hclosed.toIsLower) (by omega),
        entry_of_lt (hscaled ▸ hclosed.toIsLower) (by omega)]
  have hhere : ∀ i, entry (reduce below scaled) i k = entry columns i k / root := by
    intro i
    rw [hkept i k le_rfl, entry_set_scale hcolumn, if_pos rfl]
  refine ⟨reduce below scaled, ?_, hnext, fun i j hj => ?_, hhere, fun i j hkj hji => ?_⟩
  · rw [eliminate?, hcolumn]
    exact if_pos (decide_eq_true hpivot)
  · rw [hkept i j hj.le, entry_set_scale hcolumn, if_neg hj.ne]
  · rw [hreduce i j hji, entry_set_scale hcolumn, if_neg hkj.ne', hhere, hhere,
      hbelow i (hkj.trans_le hji), hbelow j hkj]

/-! ### Elimination -/

/-- The invariant of the elimination: what the first `k` columns of the factor make of the matrix
`a`, and what is left of it in the others. -/
structure Eliminated (pattern : Array (List Nat)) (a : Nat → Nat → ℝ) (columns : Array (Column ℝ))
    (k : Nat) : Prop where
  pattern_eq : patternOf columns = pattern
  pivots : ∀ j < k, 0 < entry columns j j
  value : ∀ i j, j ≤ i → a i j =
    ∑ c ∈ range k, entry columns i c * entry columns j c + if k ≤ j then entry columns i j else 0

variable {a : Nat → Nat → ℝ}

theorem Eliminated.size_eq (h : Eliminated pattern a columns k) : columns.size = pattern.size := by
  rw [← h.pattern_eq, patternOf, Array.size_map]

/-- **One step keeps the invariant.** -/
theorem Eliminated.eliminate (h : Eliminated pattern a columns k) (hclosed : IsClosed pattern)
    (hk : k < pattern.size) (hpivot : 0 < entry columns k k) :
    ∃ next, eliminate? columns k = some next ∧ Eliminated pattern a next (k + 1) := by
  obtain ⟨next, heliminate, hpattern, hleft, hhere, hright⟩ :=
    exists_eliminate? hclosed h.pattern_eq hk hpivot
  have hroot : 0 < √(entry columns k k) := Real.sqrt_pos.mpr hpivot
  have hself : entry next k k = √(entry columns k k) := by
    rw [hhere, Real.div_sqrt]
  refine ⟨next, heliminate, hpattern, fun j hj => ?_, fun i j hij => ?_⟩
  · rcases Nat.lt_succ_iff_lt_or_eq.mp hj with hlt | rfl
    · rw [hleft j j hlt]
      exact h.pivots j hlt
    · rw [hself]
      exact hroot
  · have hsum : ∑ c ∈ range k, entry next i c * entry next j c =
        ∑ c ∈ range k, entry columns i c * entry columns j c :=
      sum_congr rfl fun c hc => by
        rw [hleft i c (mem_range.mp hc), hleft j c (mem_range.mp hc)]
    rw [h.value i j hij, sum_range_succ, hsum]
    -- The equation for `a i j`, by where `j` lies.
    rcases lt_trichotomy j k with hj | rfl | hj
    · rw [entry_of_lt (hpattern ▸ hclosed.toIsLower) hj, if_neg (by omega), if_neg (by omega),
        mul_zero, add_zero, add_zero]
    · -- The rest becomes a product.
      rw [if_pos le_rfl, if_neg (by omega), hself, hhere, div_mul_cancel₀ _ hroot.ne', add_zero]
    · -- The product is added to the sum and taken away from the rest.
      rw [if_pos hj.le, if_pos (by omega), hright i j hj hij]
      ring

/-! ### The pivots -/

/-- Columns with positive pivots have a vector that they send to zero, one column after the other
from right to left. -/
theorem exists_annihilated (hlower : IsLower (patternOf columns)) {n : Nat} (hk : k < n)
    (hpivots : ∀ j < k, 0 < entry columns j j) : ∃ x : Nat → ℝ, x k = 1 ∧ (∀ i, k < i → x i = 0) ∧
      ∀ c < k, ∑ i ∈ range n, entry columns i c * x i = 0 := by
  -- From the right: with `d` columns sent to zero, one more entry of `x` sends the next there, and
  -- the columns further right do not see it.
  have hrun : ∀ d ≤ k, ∃ x : Nat → ℝ, x k = 1 ∧ (∀ i, k < i → x i = 0) ∧
      ∀ c < k, k - d ≤ c → ∑ i ∈ range n, entry columns i c * x i = 0 := by
    intro d hd
    induction d with
    | zero =>
      exact ⟨fun i => if i = k then 1 else 0, if_pos rfl, fun i hi => if_neg (by omega),
        fun c hc hle => absurd hle (by omega)⟩
    | succ d ih =>
      obtain ⟨x, hxk, hxi, hx⟩ := ih (by omega)
      obtain ⟨j, hj⟩ : ∃ j, j = k - (d + 1) := ⟨_, rfl⟩
      let shift := -(∑ i ∈ range n, entry columns i j * x i) / entry columns j j
      have hsum : ∀ c, ∑ i ∈ range n, entry columns i c * (x i + if i = j then shift else 0) =
          ∑ i ∈ range n, entry columns i c * x i + entry columns j c * shift := by
        intro c
        simp only [mul_add, sum_add_distrib, mul_ite, mul_zero, sum_ite_eq']
        rw [if_pos (mem_range.mpr (by omega))]
      refine ⟨fun i => x i + if i = j then shift else 0, ?_, fun i hi => ?_, fun c hc hle => ?_⟩
      · change x k + (if k = j then shift else 0) = 1
        rw [if_neg (by omega), hxk, add_zero]
      · change x i + (if i = j then shift else 0) = 0
        rw [if_neg (by omega), hxi i hi, add_zero]
      · rw [hsum c]
        rcases Nat.eq_or_lt_of_le hle with heq | hlt
        · -- This is the column that the shift is made for.
          obtain rfl : j = c := by omega
          rw [mul_div_cancel₀ _ (hpivots j hc).ne', add_neg_cancel]
        · rw [hx c hc (by omega), entry_of_lt hlower (by omega), zero_mul, add_zero]
  obtain ⟨x, hxk, hxi, hx⟩ := hrun k le_rfl
  exact ⟨x, hxk, hxi, fun c hc => hx c hc (by omega)⟩

/-- A symmetric matrix on the numbers below `n` whose quadratic form is positive. -/
structure IsPositive (n : Nat) (a : Nat → Nat → ℝ) : Prop where
  symm : ∀ i j, a i j = a j i
  pos : ∀ x : Nat → ℝ, (∃ i < n, x i ≠ 0) → 0 < ∑ i ∈ range n, ∑ j ∈ range n, a i j * (x i * x j)

/-- **What is left of a positive matrix has a positive pivot**: the pivot is its quadratic form at
the vector that the columns of the factor send to zero. -/
theorem Eliminated.pivot_pos (h : Eliminated pattern a columns k) (hclosed : IsClosed pattern)
    (ha : IsPositive pattern.size a) (hk : k < pattern.size) : 0 < entry columns k k := by
  have hlower : IsLower (patternOf columns) := h.pattern_eq ▸ hclosed.toIsLower
  obtain ⟨x, hxk, hxi, hx⟩ := exists_annihilated hlower hk h.pivots
  let n := pattern.size
  let left (i j : Nat) : ℝ := if k ≤ min i j then entry columns (max i j) (min i j) else 0
  -- The invariant speaks of the lower triangle, the form of both.
  have hvalue : ∀ i j, a i j =
      ∑ c ∈ range k, entry columns i c * entry columns j c + left i j := by
    intro i j
    rcases le_total j i with hij | hij
    · rw [h.value i j hij]
      simp only [left, min_eq_right hij, max_eq_left hij]
    · rw [ha.symm i j, h.value j i hij]
      simp only [left, min_eq_left hij, max_eq_right hij, mul_comm]
  -- The products are a sum of squares, and each square is that of a column at `x`.
  have hproducts : ∑ i ∈ range n, ∑ j ∈ range n,
      (∑ c ∈ range k, entry columns i c * entry columns j c) * (x i * x j) = 0 := by
    calc ∑ i ∈ range n, ∑ j ∈ range n,
          (∑ c ∈ range k, entry columns i c * entry columns j c) * (x i * x j)
        = ∑ i ∈ range n, ∑ j ∈ range n,
          ∑ c ∈ range k, (entry columns i c * x i) * (entry columns j c * x j) := by
          refine sum_congr rfl fun i _ => sum_congr rfl fun j _ => ?_
          rw [sum_mul]
          exact sum_congr rfl fun c _ => by ring
      _ = ∑ c ∈ range k, (∑ i ∈ range n, entry columns i c * x i) *
          ∑ j ∈ range n, entry columns j c * x j := by
          rw [sum_congr rfl fun i _ => sum_comm, sum_comm]
          exact sum_congr rfl fun c _ => (sum_mul_sum ..).symm
      _ = 0 := sum_eq_zero fun c hc => by rw [hx c (mem_range.mp hc), zero_mul]
  -- What is left lies at `k` and behind, where `x` is zero but at `k`.
  have hleft : ∑ i ∈ range n, ∑ j ∈ range n, left i j * (x i * x j) = entry columns k k := by
    have hnone : ∀ i j, i ≠ k ∨ j ≠ k → left i j * (x i * x j) = 0 := by
      intro i j hij
      by_cases hmin : k ≤ min i j
      · have hzero : x i = 0 ∨ x j = 0 := by
          rcases hij with hi | hj
          · exact Or.inl (hxi i (by omega))
          · exact Or.inr (hxi j (by omega))
        rw [mul_eq_zero.mpr hzero, mul_zero]
      · rw [show left i j = 0 from if_neg hmin, zero_mul]
    rw [sum_eq_single_of_mem k (mem_range.mpr hk) fun i _ hi =>
        sum_eq_zero fun j _ => hnone i j (Or.inl hi),
      sum_eq_single_of_mem k (mem_range.mpr hk) fun j _ hj => hnone k j (Or.inr hj)]
    simp [left, hxk]
  have hform := ha.pos x ⟨k, hk, by rw [hxk]; exact one_ne_zero⟩
  simp only [hvalue, add_mul, sum_add_distrib] at hform
  rwa [hproducts, hleft, zero_add] at hform

/-- **The elimination comes to an end** on a positive matrix. -/
theorem exists_factor (hclosed : IsClosed pattern) (ha : IsPositive pattern.size a)
    (hstart : Eliminated pattern a columns 0) :
    ∃ factor, (List.range pattern.size).foldlM eliminate? columns = some factor ∧
      Eliminated pattern a factor pattern.size := by
  have hrun : ∀ k ≤ pattern.size, ∃ next, (List.range k).foldlM eliminate? columns = some next ∧
      Eliminated pattern a next k := by
    intro k hk
    induction k with
    | zero => exact ⟨columns, rfl, hstart⟩
    | succ k ih =>
      obtain ⟨next, hnext, heliminated⟩ := ih (by omega)
      obtain ⟨next', hnext', heliminated'⟩ :=
        heliminated.eliminate hclosed hk (heliminated.pivot_pos hclosed ha hk)
      refine ⟨next', ?_, heliminated'⟩
      rw [List.range_succ, List.foldlM_append, hnext]
      change ([k].foldlM eliminate? next) = _
      rw [List.foldlM_cons, hnext']
      rfl
  exact hrun pattern.size le_rfl

/-! ### What an elimination that came to an end shows -/

/-- A column is only eliminated if its pivot is positive. -/
theorem pivot_pos_of_eliminate? {next : Array (Column ℝ)} (hk : k < columns.size)
    (h : eliminate? columns k = some next) : 0 < entry columns k k := by
  have hcolumn : columns[k]? = some columns[k] := Array.getElem?_eq_getElem hk
  rw [eliminate?, hcolumn] at h
  obtain ⟨hpivot, -⟩ := Option.ite_none_right_eq_some.mp h
  rw [entry_self hcolumn]
  exact of_decide_eq_true hpivot

/-- Whatever the matrix, a factor that was found is one. -/
theorem Eliminated.of_foldlM (hclosed : IsClosed pattern) (hstart : Eliminated pattern a columns 0)
    {factor : Array (Column ℝ)} (hk : k ≤ pattern.size)
    (hfactor : (List.range k).foldlM eliminate? columns = some factor) :
    Eliminated pattern a factor k := by
  induction k generalizing factor with
  | zero =>
    cases hfactor
    exact hstart
  | succ k ih =>
    rw [List.range_succ, List.foldlM_append] at hfactor
    obtain ⟨next, hnext, hlast⟩ := Option.bind_eq_some_iff.mp hfactor
    rw [List.foldlM_cons] at hlast
    obtain ⟨last, hstep, hlast⟩ := Option.bind_eq_some_iff.mp hlast
    cases hlast
    have heliminated := ih (by omega) hnext
    have hpivot : 0 < entry next k k :=
      pivot_pos_of_eliminate? (heliminated.size_eq ▸ hk) hstep
    obtain ⟨last, hstep', hnext'⟩ := heliminated.eliminate hclosed hk hpivot
    cases hstep.symm.trans hstep'
    exact hnext'

end GalaxyMarket.Cholesky
