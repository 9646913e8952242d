import Mathlib
import GalaxyMarket.Linear.Cholesky

/-!
# The pattern of a Cholesky factor

`Cholesky.fill` hands the rows of each column on to the column of the first of them, from left to
right. That is enough to make the pattern closed: each two rows of a column are a place of the
pattern (`IsClosed`, `isClosed_fill`), so that no product of a column with itself falls outside.

A pattern is read as the function `rowsOf` from columns to their rows. The argument has two parts.

* After `k` columns have been handed on, each of them shows its rows but the first in the column of
  the first (`Handed`). One more step keeps this: it only adds rows to a column further right
  (`Handed.spread`).
* Two rows `r < s` of a column meet in the column of `r`: the rows wander from column to column,
  always to that of the first row, and `s` is in all of them until `r` is the first
  (`Handed.mem_of_lt`).
-/

namespace GalaxyMarket.Cholesky

/-- The rows of a column of a pattern. -/
def rowsOf (columns : Array (List Nat)) (col : Nat) : List Nat := columns[col]?.getD []

/-- A pattern below the diagonal: the rows of each column ascend, and they lie below the diagonal
and inside the matrix. -/
structure IsLower (columns : Array (List Nat)) : Prop where
  sorted : ∀ col, (rowsOf columns col).Pairwise (· < ·)
  lower : ∀ col, ∀ row ∈ rowsOf columns col, col < row ∧ row < columns.size

/-- A pattern in which each two rows of a column are a place. -/
structure IsClosed (columns : Array (List Nat)) : Prop extends IsLower columns where
  closed : ∀ col, ∀ r ∈ rowsOf columns col, ∀ s ∈ rowsOf columns col, r < s →
    s ∈ rowsOf columns r

/-! ### Merging rows -/

/-- Inserting a row adds this row and no other. -/
theorem mem_insertRow {x row : Nat} {rows : List Nat} :
    x ∈ insertRow row rows ↔ x = row ∨ x ∈ rows := by
  induction rows with
  | nil => simp [insertRow]
  | cons first rows ih =>
    rw [insertRow]
    split
    · exact List.mem_cons
    · split
      · next heq =>
        rw [beq_iff_eq.mp heq, List.mem_cons]
        tauto
      · rw [List.mem_cons, ih, List.mem_cons]
        tauto

/-- Rows that ascend still ascend with a new one among them. -/
theorem pairwise_insertRow {row : Nat} {rows : List Nat} (h : rows.Pairwise (· < ·)) :
    (insertRow row rows).Pairwise (· < ·) := by
  induction rows with
  | nil => exact List.pairwise_singleton _ _
  | cons first rows ih =>
    obtain ⟨hfirst, hrows⟩ := List.pairwise_cons.mp h
    rw [insertRow]
    -- In front of the first row, on it or behind it.
    split
    · next hlt =>
      refine List.pairwise_cons.mpr ⟨fun x hx => ?_, h⟩
      rcases List.mem_cons.mp hx with rfl | hx
      · exact hlt
      · exact hlt.trans (hfirst x hx)
    · next hge =>
      split
      · exact h
      · next hne =>
        refine List.pairwise_cons.mpr ⟨fun x hx => ?_, ih hrows⟩
        rcases mem_insertRow.mp hx with rfl | hx
        · have : x ≠ first := by simpa using hne
          omega
        · exact hfirst x hx

/-- The same of several rows, -/
theorem mem_foldr_insertRow {x : Nat} {rows column : List Nat} :
    x ∈ rows.foldr insertRow column ↔ x ∈ rows ∨ x ∈ column := by
  induction rows with
  | nil => simp
  | cons row rows ih =>
    rw [List.foldr_cons, mem_insertRow, ih, List.mem_cons]
    tauto

/-- which need not ascend themselves. -/
theorem pairwise_foldr_insertRow {rows column : List Nat} (h : column.Pairwise (· < ·)) :
    (rows.foldr insertRow column).Pairwise (· < ·) := by
  induction rows with
  | nil => exact h
  | cons row rows ih => exact pairwise_insertRow ih

/-! ### Handing a column on -/

@[simp] theorem size_spread (columns : Array (List Nat)) (col : Nat) :
    (spread columns col).size = columns.size := by
  rw [spread]
  split
  · exact Array.size_modify ..
  · rfl

/-- What handing a column on does: its rows but the first join those of the column of the first. -/
theorem rowsOf_spread {columns : Array (List Nat)} (hlower : IsLower columns) {col first : Nat}
    {rest : List Nat} (hcol : rowsOf columns col = first :: rest) (other : Nat) :
    rowsOf (spread columns col) other =
      if other = first then rest.foldr insertRow (rowsOf columns first)
      else rowsOf columns other := by
  have hstored : columns[col]? = some (first :: rest) := by
    rw [rowsOf] at hcol
    cases h : columns[col]? with
    | none => simp [h] at hcol
    | some rows => simpa [h] using hcol
  have hfirst : first < columns.size := (hlower.lower col first (by simp [hcol])).2
  rw [rowsOf, spread, hstored]
  change ((columns.modify first fun column => rest.foldr insertRow column)[other]?).getD [] = _
  rw [Array.getElem?_modify]
  by_cases h : other = first
  · subst h
    rw [if_pos rfl, if_pos rfl, rowsOf, Array.getElem?_eq_getElem hfirst]
    rfl
  · rw [if_neg (Ne.symm h), if_neg h, rowsOf]

/-- A column without rows below the diagonal is handed on to nobody. -/
theorem spread_of_nil {columns : Array (List Nat)} {col : Nat} (hcol : rowsOf columns col = []) :
    spread columns col = columns := by
  rw [rowsOf] at hcol
  rw [spread]
  split
  · next h => simp [h] at hcol
  · rfl

/-- The invariant of `fill` after `k` columns: their rows but the first stand in the column of the
first, and all rows of the pattern `given` at the start are still there. -/
structure Handed (given columns : Array (List Nat)) (k : Nat) : Prop extends IsLower columns where
  size_eq : columns.size = given.size
  subset : ∀ col, rowsOf given col ⊆ rowsOf columns col
  handed : ∀ col < k, ∀ first rest, rowsOf columns col = first :: rest →
    rest ⊆ rowsOf columns first

/-- **One step of `fill`.** -/
theorem Handed.spread {given columns : Array (List Nat)} {k : Nat} (h : Handed given columns k) :
    Handed given (spread columns k) (k + 1) := by
  cases hk : rowsOf columns k with
  | nil =>
    rw [spread_of_nil hk]
    -- There is nothing to hand on.
    refine { h with handed := fun col hcol first rest hrows => ?_ }
    rcases Nat.lt_succ_iff_lt_or_eq.mp hcol with hlt | rfl
    · exact h.handed col hlt first rest hrows
    · rw [hk] at hrows
      cases hrows
  | cons first rest =>
    have hrows := rowsOf_spread h.toIsLower hk
    have hbelow : k < first := (h.lower k first (by simp [hk])).1
    have hafter : ∀ s ∈ rest, first < s := by
      have := h.sorted k
      rw [hk] at this
      exact (List.pairwise_cons.mp this).1
    -- Rows are only ever added, and to the column of `first` alone.
    have hgrow : ∀ col, rowsOf columns col ⊆ rowsOf (Cholesky.spread columns k) col := by
      intro col x hx
      rw [hrows]
      split
      · next heq => exact mem_foldr_insertRow.mpr (Or.inr (heq ▸ hx))
      · exact hx
    -- The columns that were handed on already do not change.
    have hsame : ∀ col ≤ k, rowsOf (Cholesky.spread columns k) col = rowsOf columns col :=
      fun col hcol => by rw [hrows, if_neg (by omega)]
    refine ⟨⟨fun col => ?_, fun col row hrow => ?_⟩, ?_, fun col => ?_, ?_⟩
    · rw [hrows]
      split
      · exact pairwise_foldr_insertRow (h.sorted first)
      · exact h.sorted col
    · rw [hrows] at hrow
      rw [size_spread]
      split at hrow
      · next heq =>
        rcases mem_foldr_insertRow.mp hrow with hrow | hrow
        · have := h.lower k row (by simp [hk, hrow])
          have := hafter row hrow
          omega
        · exact heq ▸ h.lower first row hrow
      · exact h.lower col row hrow
    · rw [size_spread, h.size_eq]
    · exact List.Subset.trans (h.subset col) (hgrow col)
    · intro col hcol first' rest' hrows'
      rw [hsame col (by omega)] at hrows'
      rcases Nat.lt_succ_iff_lt_or_eq.mp hcol with hlt | rfl
      · exact List.Subset.trans (h.handed col hlt first' rest' hrows') (hgrow first')
      · obtain ⟨rfl, rfl⟩ := List.cons.inj (hk.symm.trans hrows')
        rw [hrows, if_pos rfl]
        exact fun x hx => mem_foldr_insertRow.mpr (Or.inl hx)

/-- **All of `fill`.** -/
theorem handed_fill {given : Array (List Nat)} (h : IsLower given) :
    Handed given (fill given) given.size := by
  -- The induction is on the number of columns handed on.
  have hrun : ∀ k, Handed given ((List.range k).foldl spread given) k := by
    intro k
    induction k with
    | zero => exact ⟨h, rfl, fun _ => List.Subset.refl _, fun _ hcol => absurd hcol (by omega)⟩
    | succ k ih =>
      rw [List.range_succ, List.foldl_append]
      exact ih.spread
  exact hrun given.size

/-- **Two rows of a column meet in the column of the first of them.** The induction is on the way
from the column to the row `r`. -/
theorem Handed.mem_of_lt {given columns : Array (List Nat)} (h : Handed given columns columns.size)
    {r s : Nat} (hrs : r < s) : ∀ {col : Nat}, r ∈ rowsOf columns col → s ∈ rowsOf columns col →
      s ∈ rowsOf columns r := by
  intro col
  induction hway : r - col using Nat.strong_induction_on generalizing col with
  | _ way ih =>
    intro hr hs
    cases hrows : rowsOf columns col with
    | nil =>
      rw [hrows] at hr
      cases hr
    | cons first rest =>
      have hlt : col < columns.size := by
        have := h.lower col r hr
        omega
      have hhanded := h.handed col hlt first rest hrows
      have hfirst := h.lower col first (by simp [hrows])
      have hsorted : ∀ x ∈ rest, first < x := by
        have := h.sorted col
        rw [hrows] at this
        exact (List.pairwise_cons.mp this).1
      rw [hrows] at hr hs
      rcases List.mem_cons.mp hr with rfl | hr
      · -- `r` is the first row, so `s` was handed on to it.
        rcases List.mem_cons.mp hs with rfl | hs
        · omega
        · exact hhanded hs
      · -- Both rows were handed on to a column nearer to `r`.
        have := hsorted r hr
        have hs : s ∈ rest := by
          rcases List.mem_cons.mp hs with rfl | hs
          · omega
          · exact hs
        exact ih (r - first) (by omega) rfl (hhanded hr) (hhanded hs)

/-- **The filled pattern is closed.** -/
theorem isClosed_fill {given : Array (List Nat)} (h : IsLower given) : IsClosed (fill given) := by
  have hfill := handed_fill h
  rw [← hfill.size_eq] at hfill
  exact ⟨hfill.toIsLower, fun col r hr s hs hrs => hfill.mem_of_lt hrs hr hs⟩

end GalaxyMarket.Cholesky
