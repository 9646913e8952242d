import GalaxyMarket.Proofs.Exact
import GalaxyMarket.Proofs.Linear.Sparse

/-!
# Which matrix some entries make

What `SparseMatrix.ofEntries` answers, in terms of the entries alone. A list is refused because of
the first entry that lies outside, whatever comes behind it (`SparseMatrix.ofEntries_eq_error_iff`).
Any other list makes a matrix that stores each place of the list once, column by column, whatever
the values are: a sum that is zero is stored, and what was never put in is not
(`SparseMatrix.Stores`).

Over exact numbers the value of a place is the sum of what was put in there. A matrix is settled by
its values (`SparseMatrix.WellFormed.entries_eq`), so that the order of the entries makes no
difference (`SparseMatrix.entries_sum_by_place`).
-/

namespace GalaxyMarket

variable {α : Type}

namespace Entry

/-- An entry lies inside a square matrix. -/
def Inside (dim : ℕ) (e : Entry α) : Prop := e.row < dim ∧ e.col < dim

/-- What some entries put in at a place, in order. -/
def valuesAt (es : List (Entry α)) (row col : ℕ) : List α :=
  (es.filter (isAt row col)).map value

variable {es : List (Entry α)} {row col : ℕ}

/-- Something was put in at a place if an entry stands there. -/
theorem mem_places_iff : (row, col) ∈ es.map place ↔ es.filter (isAt row col) ≠ [] := by
  constructor
  · intro hmem hnil
    obtain ⟨e, he, hplace⟩ := List.mem_map.mp hmem
    obtain ⟨hrow, hcol⟩ := Prod.mk.inj hplace
    exact List.filter_eq_nil_iff.mp hnil e he (isAt_iff.mpr ⟨hrow, hcol⟩)
  · intro hne
    obtain ⟨e, he⟩ := List.exists_mem_of_ne_nil _ hne
    obtain ⟨hmem, hat⟩ := List.mem_filter.mp he
    obtain ⟨hrow, hcol⟩ := isAt_iff.mp hat
    exact List.mem_map.mpr ⟨e, hmem, Prod.ext hrow hcol⟩

/-- Entries make a sum unless there are none. -/
theorem sum?_eq_none_iff [Scalar α] : sum? es = none ↔ es = [] := by
  cases es with
  | nil => exact iff_of_true rfl rfl
  | cons e es => exact iff_of_false nofun nofun

/-- Over exact numbers, entries at one place make the sum of their values. -/
theorem value_of_sum? {es : List (Entry ℝ)} {s : Entry ℝ} (h : sum? es = some s) :
    s.value = (es.map value).sum := by
  cases es with
  | nil => cases h
  | cons e es =>
    obtain rfl := Option.some.inj h
    show es.foldl (fun a e => a + e.value) e.value = (e.value :: es.map value).sum
    rw [List.sum_cons, ← Scalar.foldl_add_eq, List.foldl_map]

end Entry

namespace SparseMatrix

/-! ### What a matrix is settled by -/

/-- **A matrix is settled by its values**, stored zeros included. -/
theorem WellFormed.entries_eq {m m' : SparseMatrix α} (hm : m.WellFormed) (hm' : m'.WellFormed)
    (hget : ∀ row col, m.get? row col = m'.get? row col) : m.entries = m'.entries := by
  have hasymm : ∀ {a b : Entry α}, a.Before b → ¬b.Before a := by
    intro a b hab hba
    unfold Entry.Before at hab hba
    omega
  have hperm : m.entries.Perm m'.entries := by
    refine (List.perm_ext_iff_of_nodup (List.Nodup.of_map _ (Entry.nodup_place hm.sorted))
      (List.Nodup.of_map _ (Entry.nodup_place hm'.sorted))).mpr fun e => ?_
    -- An entry is stored if its value is found at its place.
    calc e ∈ m.entries
        ↔ m.get? e.row e.col = some e.value := hm.get?_eq_some_iff.symm
      _ ↔ m'.get? e.row e.col = some e.value := by rw [hget]
      _ ↔ e ∈ m'.entries := hm'.get?_eq_some_iff
  -- Both lists ascend.
  exact hperm.eq_of_pairwise (fun a b _ _ hab hba => absurd hba (hasymm hab)) hm.sorted hm'.sorted

variable [Scalar α]

/-! ### Refusals -/

/-- **A refusal names the first entry outside.** -/
theorem ofEntries_eq_error_iff {dim : ℕ} {es : List (Entry α)} {e : Entry α} :
    ofEntries dim es = .error e ↔ ∃ front back, es = front ++ e :: back ∧ ¬e.Inside dim ∧
      ∀ e' ∈ front, e'.Inside dim := by
  have hinside : ∀ e : Entry α, (decide (dim ≤ e.row) || decide (dim ≤ e.col)) = true ↔
      ¬e.Inside dim := by
    intro e
    rw [Bool.or_eq_true, decide_eq_true_eq, decide_eq_true_eq, Entry.Inside]
    omega
  -- The check goes through the list from the front and stops at the first entry that fails.
  have hfind : ofEntries dim es = .error e ↔
      es.find? (fun e => dim ≤ e.row || dim ≤ e.col) = some e := by
    rw [ofEntries]
    split
    · next outside houtside => rw [houtside, Except.error.injEq, Option.some.injEq]
    · next hnone => simp [hnone]
  rw [hfind, List.find?_eq_some_iff_append, hinside]
  constructor
  · rintro ⟨hout, front, back, rfl, hfront⟩
    refine ⟨front, back, rfl, hout, fun e' he' => ?_⟩
    have hfalse := hfront e' he'
    rw [Bool.not_eq_true', ← Bool.not_eq_true, hinside, not_not] at hfalse
    exact hfalse
  · rintro ⟨front, back, rfl, hout, hfront⟩
    refine ⟨hout, front, back, rfl, fun e' he' => ?_⟩
    rw [Bool.not_eq_true', ← Bool.not_eq_true, hinside, not_not]
    exact hfront e' he'

/-! ### What is stored -/

/-- What the matrix of some entries stores. -/
structure Stores (dim : ℕ) (es : List (Entry α)) (m : SparseMatrix α) : Prop where
  dim_eq : m.dim = dim
  /-- The places ascend strictly, column by column and in each column by row. -/
  sorted : m.entries.Pairwise Entry.Before
  /-- A place is stored exactly if something was put in there. -/
  mem_places_iff : ∀ place, place ∈ m.entries.map Entry.place ↔ place ∈ es.map Entry.place
  /-- Each place counts once, however often something was put in there. -/
  size_eq : m.size = (es.map Entry.place).toFinset.card
  /-- The value of a place is what was put in there, added up in order. -/
  get?_eq : ∀ row col,
    m.get? row col = (Entry.sum? (es.filter (Entry.isAt row col))).map Entry.value
  /-- There is nothing else, -/
  get_of_notMem : ∀ row col, (row, col) ∉ es.map Entry.place → m.get row col = 0
  /-- least of all outside. -/
  get_of_le : ∀ row col, dim ≤ row ∨ dim ≤ col → m.get row col = 0

/-- The matrix of some entries stores these. -/
theorem stores_of_ofEntries {dim : ℕ} {es : List (Entry α)} {m : SparseMatrix α}
    (h : ofEntries dim es = .ok m) : m.Stores dim es := by
  have hm := wellFormed_of_ofEntries h
  have hget := get?_of_ofEntries h
  obtain ⟨hin, rfl⟩ := ofEntries_eq_ok_iff.mp h
  -- Gathering neither loses a place nor adds one.
  have hplaces : ∀ place, place ∈ (gather es).map Entry.place ↔ place ∈ es.map Entry.place := by
    rintro ⟨row, col⟩
    calc (row, col) ∈ (gather es).map Entry.place
        ↔ (gather es).find? (Entry.isAt row col) ≠ none := by
          rw [Entry.mem_places_iff, Ne, Ne, List.filter_eq_nil_iff, List.find?_eq_none]
      _ ↔ es.filter (Entry.isAt row col) ≠ [] := by
          rw [find?_gather, Ne, Entry.sum?_eq_none_iff]
      _ ↔ (row, col) ∈ es.map Entry.place := Entry.mem_places_iff.symm
  have hzero : ∀ row col, (row, col) ∉ es.map Entry.place →
      ({ dim, entries := gather es } : SparseMatrix α).get row col = 0 := by
    intro row col hnot
    rw [Entry.mem_places_iff, not_not] at hnot
    rw [get, hget, hnot]
    rfl
  refine ⟨rfl, hm.sorted, hplaces, ?_, hget, hzero, fun row col hout => hzero row col ?_⟩
  · rw [size, ← List.length_map Entry.place, ← List.toFinset_card_of_nodup
      (Entry.nodup_place hm.sorted)]
    congr 1
    ext place
    rw [List.mem_toFinset, List.mem_toFinset, hplaces]
  · intro hmem
    obtain ⟨e, he, hplace⟩ := List.mem_map.mp hmem
    obtain ⟨rfl, rfl⟩ := Prod.mk.inj hplace
    have := hin e he
    omega

/-! ### Exact values -/

section Exact

variable {dim : ℕ} {es es' : List (Entry ℝ)} {m : SparseMatrix ℝ}

/-- Over exact numbers a place holds a sum exactly if something was put in there. -/
theorem Stores.get?_eq_sum (h : m.Stores dim es) (row col : ℕ) :
    m.get? row col = if (row, col) ∈ es.map Entry.place then
      some (Entry.valuesAt es row col).sum else none := by
  rw [h.get?_eq]
  split
  · next hmem =>
    obtain ⟨s, hs⟩ := Option.ne_none_iff_exists'.mp
      (mt Entry.sum?_eq_none_iff.mp (Entry.mem_places_iff.mp hmem))
    rw [hs, Option.map_some, Entry.value_of_sum? hs, Entry.valuesAt]
  · next hnot =>
    rw [Entry.mem_places_iff, not_not] at hnot
    rw [hnot]
    rfl

/-- A place that is not stored holds the sum of nothing. -/
theorem Stores.get_eq_sum (h : m.Stores dim es) (row col : ℕ) :
    m.get row col = (Entry.valuesAt es row col).sum := by
  rw [get, h.get?_eq_sum]
  split
  · rfl
  · next hnot =>
    rw [Entry.mem_places_iff, not_not] at hnot
    rw [Entry.valuesAt, hnot]
    rfl

/-- **The order of the entries makes no difference** to a matrix over exact numbers. -/
theorem ofEntries_of_perm (h : ofEntries dim es = .ok m) (hperm : es.Perm es') :
    ofEntries dim es' = .ok m := by
  have hin : ∀ e ∈ es', e.row < dim ∧ e.col < dim := fun e he =>
    (ofEntries_eq_ok_iff.mp h).1 e (hperm.mem_iff.mpr he)
  obtain ⟨m', hm'⟩ : ∃ m', ofEntries dim es' = .ok m' := ⟨_, ofEntries_eq_ok_iff.mpr ⟨hin, rfl⟩⟩
  have hstores := stores_of_ofEntries h
  have hstores' := stores_of_ofEntries hm'
  -- Every place holds the same sum, and the values settle the matrix.
  have hentries : m.entries = m'.entries := by
    refine (wellFormed_of_ofEntries h).entries_eq (wellFormed_of_ofEntries hm') fun row col => ?_
    have hvalues : (Entry.valuesAt es row col).sum = (Entry.valuesAt es' row col).sum :=
      ((hperm.filter _).map Entry.value).sum_eq
    have hplaces : (row, col) ∈ es.map Entry.place ↔ (row, col) ∈ es'.map Entry.place :=
      (hperm.map Entry.place).mem_iff
    simp only [hstores.get?_eq_sum, hstores'.get?_eq_sum, hvalues, hplaces]
  obtain ⟨d, entries⟩ := m
  obtain ⟨d', entries'⟩ := m'
  obtain rfl : d = dim := hstores.dim_eq
  obtain rfl : d' = d := hstores'.dim_eq
  obtain rfl : entries = entries' := hentries
  exact hm'

end Exact

/-- **Entries are added up by place.** A list of entries makes a matrix unless one of them lies
outside, and then the first such entry is named. The matrix stores exactly the places of the list,
each once and in order, also where the values cancel. Over exact numbers its values are the sums of
what was put in at each place, in whatever order the list has its entries. -/
theorem entries_sum_by_place :
    (∀ {α : Type} [Scalar α] (dim : ℕ) (es : List (Entry α)),
      ((∃ e, ofEntries dim es = .error e) ↔ ∃ e ∈ es, ¬e.Inside dim) ∧
      (∀ e, ofEntries dim es = .error e ↔ ∃ front back, es = front ++ e :: back ∧
        ¬e.Inside dim ∧ ∀ e' ∈ front, e'.Inside dim) ∧
      ((∀ e ∈ es, e.Inside dim) → ∃ m, ofEntries dim es = .ok m ∧ m.Stores dim es)) ∧
    ∀ (dim : ℕ) (es : List (Entry ℝ)) (m : SparseMatrix ℝ), ofEntries dim es = .ok m →
      (∀ e ∈ m.entries, e.value = (Entry.valuesAt es e.row e.col).sum) ∧
      (∀ row col, m.get row col = (Entry.valuesAt es row col).sum) ∧
      ∀ es', es.Perm es' → ofEntries dim es' = .ok m := by
  refine ⟨fun {α} _ dim es => ⟨⟨?_, ?_⟩, fun e => ofEntries_eq_error_iff, ?_⟩, ?_⟩
  · rintro ⟨e, he⟩
    obtain ⟨front, back, rfl, hout, -⟩ := ofEntries_eq_error_iff.mp he
    exact ⟨e, List.mem_append_right _ List.mem_cons_self, hout⟩
  · rintro ⟨e, he, hout⟩
    cases hm : ofEntries dim es with
    | error e' => exact ⟨e', rfl⟩
    | ok m => exact absurd ((ofEntries_eq_ok_iff.mp hm).1 e he) hout
  · intro hin
    have hm : ofEntries dim es = .ok { dim, entries := gather es } :=
      ofEntries_eq_ok_iff.mpr ⟨hin, rfl⟩
    exact ⟨_, hm, stores_of_ofEntries hm⟩
  · -- An entry that is stored is what is found at its place, and that is the sum.
    intro dim es m hm
    have hstores := stores_of_ofEntries hm
    refine ⟨fun e he => ?_, hstores.get_eq_sum, fun es' => ofEntries_of_perm hm⟩
    have hvalue : m.get? e.row e.col = some e.value :=
      (wellFormed_of_ofEntries hm).get?_eq_some_iff.mpr he
    rw [← hstores.get_eq_sum, get, hvalue, Option.getD_some]

/-- Five entries for three places of a matrix with two rows; those at one place cancel. -/
def cancelling : List (Entry ℝ) :=
  [⟨1, 0, 1⟩, ⟨0, 0, 1⟩, ⟨1, 0, -1⟩, ⟨1, 1, 1⟩, ⟨0, 0, 1⟩]

/-- Three places of the matrix are stored, one of them with a zero, also if the list is reversed.
With two entries outside behind them the first of the two is named. -/
theorem entries_sum_by_place_cancelling :
    (∃ m, ofEntries 2 cancelling = .ok m ∧ m.size = 3 ∧ m.get 0 0 = 2 ∧ m.get? 1 0 = some 0 ∧
      m.get 0 1 = 0 ∧ m.get 7 7 = 0 ∧ ofEntries 2 cancelling.reverse = .ok m) ∧
    ofEntries 2 (cancelling ++ [⟨2, 1, 1⟩, ⟨0, 9, 1⟩]) = .error ⟨2, 1, 1⟩ := by
  obtain ⟨hany, hexact⟩ := entries_sum_by_place
  have hin : ∀ e ∈ cancelling, e.Inside 2 := by simp [cancelling, Entry.Inside]
  constructor
  · obtain ⟨m, hm, hstores⟩ := (hany 2 cancelling).2.2 hin
    obtain ⟨-, hget, hperm⟩ := hexact 2 cancelling m hm
    refine ⟨m, hm, ?_, ?_, ?_, ?_, ?_, hperm _ (List.reverse_perm _).symm⟩
    · rw [hstores.size_eq]
      decide +kernel
    · rw [hget]
      norm_num [cancelling, Entry.valuesAt, Entry.isAt]
    · rw [hstores.get?_eq_sum]
      norm_num [cancelling, Entry.valuesAt, Entry.isAt, Entry.place]
    · exact hstores.get_of_notMem 0 1 (by simp [cancelling, Entry.place])
    · exact hstores.get_of_le 7 7 (by decide)
  · exact ((hany 2 _).2.1 _).mpr ⟨cancelling, [⟨0, 9, 1⟩], rfl, by simp [Entry.Inside], hin⟩

end SparseMatrix

end GalaxyMarket
