import Mathlib
import GalaxyMarket.Proofs.Linear.Sparse
import GalaxyMarket.Proofs.Linear.Cholesky.Factor

/-!
# What the factor starts from

In a matrix that is stored symmetrically every entry below the diagonal has its transposed place,
and so a place in the pattern of the factor. Nothing is then set aside, and the columns that the
elimination starts from hold the lower triangle of the matrix (`entry_start`).
-/

namespace GalaxyMarket

/-- At each place there stands what stands at the transposed one. -/
def SparseMatrix.IsSymm {α : Type} (m : SparseMatrix α) : Prop := ∀ i j, m.get? i j = m.get? j i

namespace Cholesky

/-! ### The stored columns -/

/-- What is stored in a column. -/
def stored {α : Type} (m : SparseMatrix α) (col : Nat) : List (Nat × α) :=
  (m.entries.filter fun e => e.col == col).map fun e => (e.row, e.value)

/-- Columns are collected from the entries, in the order of rows. -/
theorem getElem?_columns {α : Type} {m : SparseMatrix α} {col : Nat} (h : col < m.dim) :
    m.columns[col]? = some (stored m col) := by
  rw [SparseMatrix.columns, getElem?_collect h, List.filter_map, List.map_map]
  rfl

/-- What is found in a column is what is found in the matrix. -/
theorem lookup_stored {α : Type} (m : SparseMatrix α) (row col : Nat) :
    (stored m col).lookup row = m.get? row col := by
  rw [stored, SparseMatrix.get?]
  induction m.entries with
  | nil => rfl
  | cons e es ih =>
    -- Only entries of this column are kept, and among them the row decides.
    by_cases hcol : e.col = col
    · rw [List.filter_cons_of_pos (by simpa using hcol), List.map_cons, List.lookup_cons, ih]
      by_cases hrow : row = e.row
      · rw [List.find?_cons_of_pos (by simp [hrow, hcol]), beq_iff_eq.mpr hrow]
        rfl
      · rw [List.find?_cons_of_neg (by simp [Ne.symm hrow]), beq_false_of_ne hrow]
    · rw [List.filter_cons_of_neg (by simpa using hcol), ih,
        List.find?_cons_of_neg (by simp [hcol])]

/-- Leaving out what is not further down than `col` does not change what is found there. -/
theorem lookup_filter_lt {α : Type} (entries : List (Nat × α)) {col row : Nat} (h : col < row) :
    (entries.filter (col < ·.1)).lookup row = entries.lookup row := by
  induction entries with
  | nil => rfl
  | cons e entries ih =>
    obtain ⟨place, value⟩ := e
    by_cases hplace : col < place
    · rw [List.filter_cons_of_pos (by simpa using hplace), List.lookup_cons, List.lookup_cons, ih]
    · rw [List.filter_cons_of_neg (by simpa using hplace), List.lookup_cons, ih,
        beq_false_of_ne (by omega)]

/-! ### The pattern at the start -/

section Given

variable {α : Type} {m : SparseMatrix α}

/-- The pattern starts from the entries above the diagonal, with rows and columns exchanged. -/
theorem rowsOf_transposedUpper {col : Nat} (hcol : col < m.dim) :
    rowsOf (transposedUpper m) col =
      (m.entries.filter fun e => e.row == col && e.row < e.col).map Entry.col := by
  rw [rowsOf, transposedUpper, getElem?_collect hcol, List.filter_map, List.map_map,
    List.filter_filter]
  rfl

theorem size_transposedUpper (m : SparseMatrix α) : (transposedUpper m).size = m.dim := by
  rw [transposedUpper, size_collect]

/-- A row is in the pattern exactly if the transposed place is stored. -/
theorem mem_transposedUpper (hm : m.WellFormed) {row col : Nat} (hcol : col < m.dim) :
    row ∈ rowsOf (transposedUpper m) col ↔ col < row ∧ (m.get? col row).isSome := by
  rw [rowsOf_transposedUpper hcol, List.mem_map]
  constructor
  · rintro ⟨e, he, rfl⟩
    obtain ⟨hmem, hat⟩ := List.mem_filter.mp he
    obtain ⟨rfl, hlt⟩ : e.row = col ∧ e.row < e.col := by simpa using hat
    rw [hm.get?_eq_some_iff.mpr hmem]
    exact ⟨hlt, rfl⟩
  · rintro ⟨hlt, hsome⟩
    obtain ⟨value, hvalue⟩ := Option.isSome_iff_exists.mp hsome
    exact ⟨⟨col, row, value⟩, List.mem_filter.mpr
      ⟨hm.get?_eq_some_iff.mp hvalue, by simpa using hlt⟩, rfl⟩

/-- So the pattern lies below the diagonal. -/
theorem isLower_transposedUpper (hm : m.WellFormed) : IsLower (transposedUpper m) := by
  have hnil : ∀ col, m.dim ≤ col → rowsOf (transposedUpper m) col = [] := by
    intro col hcol
    rw [rowsOf, Array.getElem?_eq_none (by rwa [size_transposedUpper])]
    rfl
  refine ⟨fun col => ?_, fun col row hrow => ?_⟩
  · rcases Nat.lt_or_ge col m.dim with hcol | hcol
    · rw [rowsOf_transposedUpper hcol, List.pairwise_map]
      -- Entries of one row come by ascending column.
      refine List.Pairwise.imp_of_mem (fun {a b} ha hb hab => ?_) (hm.sorted.filter _)
      have hrows : a.row = col ∧ b.row = col := by
        have ha := (List.mem_filter.mp ha).2
        have hb := (List.mem_filter.mp hb).2
        simp only [Bool.and_eq_true, beq_iff_eq] at ha hb
        exact ⟨ha.1, hb.1⟩
      rcases hab with hlt | ⟨-, hlt⟩
      · exact hlt
      · omega
    · rw [hnil col hcol]
      exact List.Pairwise.nil
  · rcases Nat.lt_or_ge col m.dim with hcol | hcol
    · obtain ⟨hlt, hsome⟩ := (mem_transposedUpper hm hcol).mp hrow
      obtain ⟨value, hvalue⟩ := Option.isSome_iff_exists.mp hsome
      rw [size_transposedUpper]
      exact ⟨hlt, (hm.lt_of_get?_eq_some hvalue).2⟩
    · rw [hnil col hcol] at hrow
      cases hrow

end Given

/-! ### The columns at the start -/

variable {m : SparseMatrix ℝ}

/-- As long as all that is stored below the diagonal has its place, nothing is set aside. -/
theorem getElem?_startFrom {pairs : List (List Nat × List (Nat × ℝ))} {first : Nat}
    (hplace : ∀ k, ∀ pair, pairs[k]? = some pair →
      ∀ e ∈ pair.2, first + k < e.1 → e.1 ∈ pair.1) (k : Nat) :
    (startFrom first [] pairs)[k]? = pairs[k]?.map fun pair =>
      { diagonal := (pair.2.lookup (first + k)).getD 0
        below := pair.1.map fun row =>
          (row, ((pair.2.filter (first + k < ·.1)).lookup row).getD 0) } := by
  -- Nothing set aside is what the induction passes on to the next column.
  induction pairs generalizing first k with
  | nil => rfl
  | cons pair pairs ih =>
    obtain ⟨places, values⟩ := pair
    -- All that is stored below the diagonal has its place.
    have haside : (values.filter (first < ·.1)).filter (fun e => !places.contains e.1) = [] := by
      refine List.filter_eq_nil_iff.mpr fun e he => ?_
      obtain ⟨he, hlt⟩ := List.mem_filter.mp he
      have := hplace 0 _ rfl e he (by simpa using hlt)
      simpa using this
    rw [startFrom, List.append_nil]
    cases k with
    | zero => simp
    | succ k =>
      have hrest : ∀ k, ∀ pair, pairs[k]? = some pair →
          ∀ e ∈ pair.2, first + 1 + k < e.1 → e.1 ∈ pair.1 := fun k pair hpair e he hlt =>
        hplace (k + 1) pair hpair e he (by omega)
      rw [List.getElem?_cons_succ]
      change (startFrom (first + 1) _ pairs)[k]? = _
      rw [haside, ih hrest, List.getElem?_cons_succ, Nat.add_right_comm, Nat.add_assoc]

/-- The column that the factor of a symmetric matrix starts from. -/
theorem getElem?_start (hm : m.WellFormed) (hsymm : m.IsSymm) {col : Nat} (hcol : col < m.dim) :
    (start m).toArray[col]? = some
      { diagonal := m.get col col
        below := (rowsOf (fill (transposedUpper m)) col).map fun row => (row, m.get row col) } := by
  have hfill := handed_fill (isLower_transposedUpper hm)
  let pattern := fill (transposedUpper m)
  have hsize : pattern.size = m.dim := by rw [hfill.size_eq, size_transposedUpper]
  have hpairs : ∀ k < m.dim, (pattern.toList.zip m.columns.toList)[k]? =
      some (rowsOf pattern k, stored m k) := by
    intro k hk
    rw [List.getElem?_zip_eq_some, Array.getElem?_toList, Array.getElem?_toList,
      getElem?_columns hk, rowsOf, Array.getElem?_eq_getElem (hsize ▸ hk)]
    exact ⟨rfl, rfl⟩
  have hplace : ∀ k, ∀ pair, (pattern.toList.zip m.columns.toList)[k]? = some pair →
      ∀ e ∈ pair.2, 0 + k < e.1 → e.1 ∈ pair.1 := by
    intro k pair hpair e he hlt
    have hk : k < m.dim := by
      have hbound := (List.getElem?_eq_some_iff.mp hpair).1
      rw [List.length_zip, Array.length_toList, hsize] at hbound
      omega
    rw [hpairs k hk] at hpair
    obtain rfl := Option.some.inj hpair
    obtain ⟨entry, hentry, rfl⟩ := List.mem_map.mp he
    obtain ⟨hmem, hcol⟩ := List.mem_filter.mp hentry
    obtain rfl : entry.col = k := by simpa using hcol
    -- The transposed place is stored as well, and the pattern starts with it.
    refine hfill.subset entry.col ((mem_transposedUpper hm hk).mpr ⟨by simpa using hlt, ?_⟩)
    rw [← hsymm, hm.get?_eq_some_iff.mpr hmem]
    rfl
  rw [List.getElem?_toArray, start, getElem?_startFrom hplace, hpairs col hcol, Option.map_some,
    Nat.zero_add]
  refine congrArg some (congrArg₂ Column.mk ?_ (List.map_congr_left fun row hrow => ?_))
  · rw [lookup_stored]
    rfl
  · have hlt : col < row := (hfill.lower col row hrow).1
    rw [lookup_filter_lt _ hlt, lookup_stored]
    rfl

/-- There is a column for each pair, -/
theorem length_startFrom (first : Nat) (aside : List (Nat × ℝ))
    (pairs : List (List Nat × List (Nat × ℝ))) :
    (startFrom first aside pairs).length = pairs.length := by
  induction pairs generalizing first aside with
  | nil => rfl
  | cons pair pairs ih => rw [startFrom, List.length_cons, List.length_cons, ih]

/-- and so one for each column of the matrix. -/
theorem length_start (hm : m.WellFormed) : (start m).length = m.dim := by
  rw [start, length_startFrom, List.length_zip, Array.length_toList, Array.length_toList,
    (handed_fill (isLower_transposedUpper hm)).size_eq, size_transposedUpper, SparseMatrix.columns,
    size_collect, min_self]

/-- A column that is filled by a function has its values where there is a row. -/
theorem valueAt_map (rows : List Nat) (f : Nat → ℝ) (i : Nat) :
    valueAt (rows.map fun row => (row, f row)) i = if i ∈ rows then f i else 0 := by
  induction rows with
  | nil => rfl
  | cons row rows ih =>
    rw [List.map_cons, valueAt_cons, ih]
    by_cases h : i = row
    · rw [if_pos h, if_pos (List.mem_cons.mpr (Or.inl h)), h]
    · simp [h]

/-- **The elimination starts from the matrix.** -/
theorem eliminated_start (hm : m.WellFormed) (hsymm : m.IsSymm) :
    Eliminated (fill (transposedUpper m)) m.get (start m).toArray 0 := by
  have hfill := handed_fill (isLower_transposedUpper hm)
  have hsize : (fill (transposedUpper m)).size = m.dim := by
    rw [hfill.size_eq, size_transposedUpper]
  have hnone : ∀ col, m.dim ≤ col → (start m).toArray[col]? = none := fun col hcol =>
    Array.getElem?_eq_none (by rwa [List.size_toArray, length_start hm])
  refine ⟨Array.ext_getElem? fun j => ?_, fun j hj => absurd hj (by omega), fun i j hij => ?_⟩
  · rw [patternOf, Array.getElem?_map]
    -- Behind the last column there is nothing on either side.
    rcases Nat.lt_or_ge j m.dim with hj | hj
    · rw [getElem?_start hm hsymm hj, Option.map_some, List.map_map, rowsOf,
        Array.getElem?_eq_getElem (hsize ▸ hj)]
      exact congrArg some (List.map_id _)
    · rw [hnone j hj, Array.getElem?_eq_none (by rwa [hsize])]
      rfl
  · rw [Finset.range_zero, Finset.sum_empty, zero_add, if_pos (Nat.zero_le j)]
    rcases Nat.lt_or_ge j m.dim with hj | hj
    · have hcolumn := getElem?_start hm hsymm hj
      by_cases heq : i = j
      · rw [heq, entry_self hcolumn]
      · rw [entry_of_ne hcolumn heq, valueAt_map]
        split
        · rfl
        · next hout =>
          -- What has no place is not stored.
          cases hvalue : m.get? i j with
          | none => rw [SparseMatrix.get, hvalue]; rfl
          | some value =>
            refine absurd (hfill.subset j ((mem_transposedUpper hm hj).mpr ⟨by omega, ?_⟩)) hout
            rw [← hsymm, hvalue]
            rfl
    · rw [entry, hnone j hj]
      cases hvalue : m.get? i j with
      | none => rw [SparseMatrix.get, hvalue]; rfl
      | some value => exact absurd (hm.lt_of_get?_eq_some hvalue).2 (by omega)

end Cholesky

end GalaxyMarket
