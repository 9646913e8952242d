import Mathlib
import GalaxyMarket.Linear.Sparse

/-!
# Assembling a sparse matrix

What `SparseMatrix.ofEntries` makes of a list of entries, over any arithmetic. The list is sorted by
place, split into runs of one place, and each run is added up; the sort is stable, so a run holds
the entries of its place in the order in which they were put in.

* `gather_pairwise` — the places of a matrix ascend strictly, column by column: no place is stored
  twice.
* `find?_gather` — the value at a place is the sum of what was put in there, from the first on, and
  nothing is stored where nothing was put in.
* `ofEntries_eq_ok_iff` — a list is accepted exactly if all of it lies inside the matrix.
* `getElem?_collect` — what `collect` holds under a number.

The first two rest on `runs_pairwise`: two runs of a sorted list never share a place, so a place is
found in one run only, and this run is all that the list holds of it (`find?_filterMap_sum?`).
-/

namespace GalaxyMarket

variable {α : Type}

/-! ### Places -/

namespace Entry

/-- Whether an entry stands at a given place. -/
def isAt (row col : Nat) (e : Entry α) : Bool := e.row == row && e.col == col

/-- The row and the column of an entry. -/
def place (e : Entry α) : Nat × Nat := (e.row, e.col)

/-- An entry stands strictly in front of another: in an earlier column, or higher in the same. -/
def Before (a b : Entry α) : Prop := a.col < b.col ∨ a.col = b.col ∧ a.row < b.row

@[simp] theorem isAt_iff {row col : Nat} {e : Entry α} :
    e.isAt row col = true ↔ e.row = row ∧ e.col = col := by
  simp [isAt]

/-- Entries share their place if they agree in row and column. -/
theorem samePlace_iff {a b : Entry α} : samePlace a b = true ↔ a.row = b.row ∧ a.col = b.col := by
  simp [samePlace]

/-- The order goes by column first. -/
theorem precedes_iff {a b : Entry α} :
    precedes a b = true ↔ a.col < b.col ∨ a.col = b.col ∧ a.row ≤ b.row := by
  simp [precedes]

/-- It is an order of places, -/
theorem precedes_trans (a b c : Entry α) (hab : precedes a b = true) (hbc : precedes b c = true) :
    precedes a c = true := by
  rw [precedes_iff] at *
  omega

/-- and any two can be compared. -/
theorem precedes_total (a b : Entry α) : (precedes a b || precedes b a) = true := by
  rw [Bool.or_eq_true, precedes_iff, precedes_iff]
  omega

/-- Of two entries in order, the first is strictly in front unless they share their place. -/
theorem before_of_precedes {a b : Entry α} (h : precedes a b = true) (hne : samePlace a b = false) :
    Before a b := by
  have hne' : ¬(a.row = b.row ∧ a.col = b.col) := by
    rw [← samePlace_iff, hne]
    exact Bool.false_ne_true
  rw [precedes_iff] at h
  unfold Before
  omega

/-- What stands strictly behind a place is not at it. -/
theorem Before.isAt_eq_false {a b : Entry α} (h : Before a b) {row col : Nat}
    (ha : a.isAt row col = true) : b.isAt row col = false := by
  rw [isAt_iff] at ha
  rw [Bool.eq_false_iff, Ne, isAt_iff]
  unfold Before at h
  omega

/-- Entries in strict order stand at different places. -/
theorem nodup_place {es : List (Entry α)} (h : es.Pairwise Before) : (es.map place).Nodup := by
  rw [List.Nodup, List.pairwise_map]
  refine h.imp fun {a b} hab heq => ?_
  have hrow : a.row = b.row := congrArg Prod.fst heq
  have hcol : a.col = b.col := congrArg Prod.snd heq
  unfold Before at hab
  omega

variable [Scalar α]

/-- The sum of a run stands where its entries stand. -/
theorem place_of_sum? {es : List (Entry α)} {s : Entry α} (h : sum? es = some s) :
    ∃ e ∈ es, s.row = e.row ∧ s.col = e.col := by
  cases es with
  | nil => cases h
  | cons e es =>
    obtain rfl : { e with value := es.foldl (· + ·.value) e.value } = s := Option.some.inj h
    exact ⟨e, List.mem_cons_self, rfl, rfl⟩

end Entry

/-! ### Runs of one place -/

/-- Whether lists of entries are runs: none is empty, and the entries of each share their place. -/
def AreRuns (runs : List (List (Entry α))) : Prop :=
  ∀ run ∈ runs, run ≠ [] ∧ ∀ a ∈ run, ∀ b ∈ run, a.samePlace b = true

/-- A list is split into runs. -/
theorem areRuns_splitBy (es : List (Entry α)) : AreRuns (es.splitBy Entry.samePlace) := by
  intro run hrun
  refine ⟨List.ne_nil_of_mem_splitBy hrun, ?_⟩
  have : IsTrans (Entry α) (fun a b => a.samePlace b = true) :=
    ⟨fun a b c hab hbc => by rw [Entry.samePlace_iff] at *; omega⟩
  have : Std.Symm (fun a b : Entry α => a.samePlace b = true) :=
    ⟨fun a b hab => by rw [Entry.samePlace_iff] at *; omega⟩
  have hpair : run.Pairwise fun a b => a.samePlace b = true :=
    (List.isChain_of_mem_splitBy hrun).pairwise
  have hself : ∀ a ∈ run, a.samePlace a = true := fun a _ => Entry.samePlace_iff.mpr ⟨rfl, rfl⟩
  exact fun a ha b hb => hpair.forall_of_forall hself ha hb

/-- **Runs of a sorted list share no place.** Where one run ends and the next begins the place
changes, and from there on the order only moves forward. -/
theorem runs_pairwise {runs : List (List (Entry α))} (hruns : AreRuns runs)
    (hsorted : runs.flatten.Pairwise fun a b => a.precedes b = true)
    (hchain : runs.IsChain fun r s =>
      ∃ hr hs, Entry.samePlace (r.getLast hr) (s.head hs) = false) :
    runs.Pairwise fun r s => ∀ a ∈ r, ∀ b ∈ s, a.Before b := by
  -- One run more in front: it is strictly in front of the next, and thus of all that follow.
  induction runs with
  | nil => exact List.Pairwise.nil
  | cons run rest ih =>
    rw [List.flatten_cons, List.pairwise_append] at hsorted
    obtain ⟨-, hrest, hcross⟩ := hsorted
    refine List.pairwise_cons.mpr
      ⟨?_, ih (fun r hr => hruns r (List.mem_cons_of_mem _ hr)) hrest hchain.tail⟩
    intro s hs a ha b hb
    obtain ⟨next, later, rfl⟩ := List.exists_cons_of_ne_nil (List.ne_nil_of_mem hs)
    obtain ⟨hlast, hhead, hne⟩ := (List.isChain_cons_cons.mp hchain).1
    -- `a` shares its place with the end of its run, which is in front of the next run's head.
    have hsame := Entry.samePlace_iff.mp
      ((hruns run List.mem_cons_self).2 a ha _ (List.getLast_mem hlast))
    have hnext : (next.head hhead) ∈ (next :: later).flatten :=
      List.mem_flatten.mpr ⟨next, List.mem_cons_self, List.head_mem hhead⟩
    have hbefore := Entry.before_of_precedes (hcross _ (List.getLast_mem hlast) _ hnext) hne
    -- `b` is that head or comes after it.
    have hafter : b = next.head hhead ∨ (next.head hhead).precedes b = true := by
      have hb' : b ∈ (next :: later).flatten := List.mem_flatten.mpr ⟨s, hs, hb⟩
      obtain ⟨first, more, rfl⟩ := List.exists_cons_of_ne_nil hhead
      rw [List.flatten_cons, List.cons_append] at hrest hb'
      rcases List.mem_cons.mp hb' with rfl | hb'
      · exact Or.inl rfl
      · exact Or.inr ((List.pairwise_cons.mp hrest).1 b hb')
    unfold Entry.Before at hbefore ⊢
    rcases hafter with rfl | hafter
    · omega
    · rw [Entry.precedes_iff] at hafter
      omega

section Sum

variable [Scalar α]

/-- **A place is found in one run only.** Adding up the runs and looking for a place gives the sum
of all entries at this place. -/
theorem find?_filterMap_sum? {runs : List (List (Entry α))} (hruns : AreRuns runs)
    (hpair : runs.Pairwise fun r s => ∀ a ∈ r, ∀ b ∈ s, a.Before b) (row col : Nat) :
    (runs.filterMap Entry.sum?).find? (Entry.isAt row col) =
      Entry.sum? (runs.flatten.filter (Entry.isAt row col)) := by
  -- Either the first run is the one at the place, or it has no part in it.
  induction runs with
  | nil => rfl
  | cons run rest ih =>
    obtain ⟨hne, hsame⟩ := hruns run List.mem_cons_self
    obtain ⟨hcross, hrest⟩ := List.pairwise_cons.mp hpair
    obtain ⟨e, es, rfl⟩ := List.exists_cons_of_ne_nil hne
    rw [List.flatten_cons, List.filter_append]
    -- The sum of a run stands where its first entry stands.
    let s : Entry α := { e with value := es.foldl (· + ·.value) e.value }
    change List.find? _ (s :: rest.filterMap Entry.sum?) = _
    have hs : s.isAt row col = e.isAt row col := rfl
    by_cases he : e.isAt row col = true
    · -- The whole run stands at the place, and nothing behind it does.
      have hall : (e :: es).filter (Entry.isAt row col) = e :: es := by
        refine List.filter_eq_self.mpr fun a ha => ?_
        have h := Entry.samePlace_iff.mp (hsame a ha e List.mem_cons_self)
        rw [Entry.isAt_iff] at he ⊢
        omega
      have hnone : rest.flatten.filter (Entry.isAt row col) = [] := by
        refine List.filter_eq_nil_iff.mpr fun b hb => ?_
        obtain ⟨s, hs, hb⟩ := List.mem_flatten.mp hb
        rw [(hcross s hs e List.mem_cons_self b hb).isAt_eq_false he]
        exact Bool.false_ne_true
      rw [hall, hnone, List.append_nil, List.find?_cons_of_pos (hs.trans he)]
      rfl
    · -- No entry of the run stands at the place.
      have hnone : (e :: es).filter (Entry.isAt row col) = [] := by
        refine List.filter_eq_nil_iff.mpr fun a ha hat => he ?_
        have h := Entry.samePlace_iff.mp (hsame a ha e List.mem_cons_self)
        rw [Entry.isAt_iff] at hat ⊢
        omega
      rw [hnone, List.nil_append, List.find?_cons_of_neg (hs ▸ he)]
      exact ih (fun r hr => hruns r (List.mem_cons_of_mem _ hr)) hrest

/-- Sums of runs in strict order are in strict order. -/
theorem pairwise_filterMap_sum? {runs : List (List (Entry α))}
    (hpair : runs.Pairwise fun r s => ∀ a ∈ r, ∀ b ∈ s, a.Before b) :
    (runs.filterMap Entry.sum?).Pairwise Entry.Before := by
  refine List.pairwise_filterMap.mpr (hpair.imp fun {r s} hrs a ha b hb => ?_)
  obtain ⟨a', ha', hrow, hcol⟩ := Entry.place_of_sum? ha
  obtain ⟨b', hb', hrow', hcol'⟩ := Entry.place_of_sum? hb
  have h := hrs a' ha' b' hb'
  unfold Entry.Before at h ⊢
  omega

end Sum

/-! ### The stable sort -/

/-- Entries at one place keep their order when a list is sorted: they are already in order among
themselves, and the sort is stable. -/
theorem filter_mergeSort (es : List (Entry α)) (row col : Nat) :
    (es.mergeSort Entry.precedes).filter (Entry.isAt row col) =
      es.filter (Entry.isAt row col) := by
  have hordered : (es.filter (Entry.isAt row col)).Pairwise fun a b => a.precedes b = true := by
    refine List.pairwise_of_forall_mem_list fun a ha b hb => ?_
    have ha := Entry.isAt_iff.mp (List.mem_filter.mp ha).2
    have hb := Entry.isAt_iff.mp (List.mem_filter.mp hb).2
    rw [Entry.precedes_iff]
    omega
  have hsub := (List.sublist_mergeSort Entry.precedes_trans Entry.precedes_total hordered
    List.filter_sublist).filter (Entry.isAt row col)
  rw [List.filter_filter] at hsub
  simp only [Bool.and_self] at hsub
  refine (hsub.eq_of_length ?_).symm
  exact ((List.mergeSort_perm es Entry.precedes).filter (Entry.isAt row col)).length_eq.symm

/-! ### The matrix of a list of entries -/

/-- The runs of a sorted list are in strict order. -/
theorem runs_mergeSort_pairwise (es : List (Entry α)) :
    ((es.mergeSort Entry.precedes).splitBy Entry.samePlace).Pairwise
      fun r s => ∀ a ∈ r, ∀ b ∈ s, a.Before b := by
  refine runs_pairwise (areRuns_splitBy _) ?_ (List.isChain_getLast_head_splitBy _ _)
  rw [List.flatten_splitBy]
  exact List.pairwise_mergeSort Entry.precedes_trans Entry.precedes_total es

namespace SparseMatrix

variable [Scalar α]

/-- The entries of a list with those at one place added up, in order of their places. -/
def gather (es : List (Entry α)) : List (Entry α) :=
  ((es.mergeSort Entry.precedes).splitBy Entry.samePlace).filterMap Entry.sum?

/-- **No place is stored twice**, and the places ascend column by column. -/
theorem gather_pairwise (es : List (Entry α)) : (gather es).Pairwise Entry.Before :=
  pairwise_filterMap_sum? (runs_mergeSort_pairwise es)

/-- **What is stored at a place** is the sum of what was put in there. -/
theorem find?_gather (es : List (Entry α)) (row col : Nat) :
    (gather es).find? (Entry.isAt row col) = Entry.sum? (es.filter (Entry.isAt row col)) := by
  rw [gather, find?_filterMap_sum? (areRuns_splitBy _) (runs_mergeSort_pairwise es),
    List.flatten_splitBy,
    filter_mergeSort]

/-- What is stored comes from what was put in. -/
theorem exists_of_mem_gather {es : List (Entry α)} {s : Entry α} (h : s ∈ gather es) :
    ∃ e ∈ es, s.row = e.row ∧ s.col = e.col := by
  obtain ⟨run, hrun, hs⟩ := List.mem_filterMap.mp h
  obtain ⟨e, he, hplace⟩ := Entry.place_of_sum? hs
  have hmem : e ∈ ((es.mergeSort Entry.precedes).splitBy Entry.samePlace).flatten :=
    List.mem_flatten.mpr ⟨run, hrun, he⟩
  rw [List.flatten_splitBy, List.mem_mergeSort] at hmem
  exact ⟨e, hmem, hplace⟩

/-- **A list of entries is accepted exactly if all of it lies inside the matrix**, and then it is
gathered. -/
theorem ofEntries_eq_ok_iff {dim : Nat} {es : List (Entry α)} {m : SparseMatrix α} :
    ofEntries dim es = .ok m ↔
      (∀ e ∈ es, e.row < dim ∧ e.col < dim) ∧ m = { dim, entries := gather es } := by
  rw [ofEntries]
  split
  · next outside hfind =>
    have hmem := List.mem_of_find?_eq_some hfind
    have hout := List.find?_some hfind
    simp only [Bool.or_eq_true, decide_eq_true_eq] at hout
    refine ⟨fun h => by simp at h, fun h => ?_⟩
    have := h.1 outside hmem
    omega
  · next hfind =>
    have hin : ∀ e ∈ es, e.row < dim ∧ e.col < dim := by
      intro e he
      have := List.find?_eq_none.mp hfind e he
      simp only [Bool.or_eq_true, decide_eq_true_eq] at this
      omega
    rw [Except.ok.injEq]
    exact ⟨fun h => ⟨hin, h.symm⟩, fun h => h.2.symm⟩

/-! ### Well-formed matrices -/

/-- What holds of every matrix that was made from entries: each entry lies inside the matrix, and
the places ascend strictly. -/
structure WellFormed (m : SparseMatrix α) : Prop where
  bounds : ∀ e ∈ m.entries, e.row < m.dim ∧ e.col < m.dim
  sorted : m.entries.Pairwise Entry.Before

/-- Whatever entries are accepted, their matrix is well-formed. -/
theorem wellFormed_of_ofEntries {dim : Nat} {es : List (Entry α)} {m : SparseMatrix α}
    (h : ofEntries dim es = .ok m) : m.WellFormed := by
  obtain ⟨hin, rfl⟩ := ofEntries_eq_ok_iff.mp h
  refine ⟨fun s hs => ?_, gather_pairwise es⟩
  obtain ⟨e, he, hrow, hcol⟩ := exists_of_mem_gather hs
  rw [hrow, hcol]
  exact hin e he

/-- **The value at a place** of a matrix made from entries: the sum of what was put in there. -/
theorem get?_of_ofEntries {dim : Nat} {es : List (Entry α)} {m : SparseMatrix α}
    (h : ofEntries dim es = .ok m) (row col : Nat) :
    m.get? row col = (Entry.sum? (es.filter (Entry.isAt row col))).map Entry.value := by
  obtain ⟨-, rfl⟩ := ofEntries_eq_ok_iff.mp h
  exact congrArg (Option.map Entry.value) (find?_gather es row col)

omit [Scalar α] in
/-- A place holds a value exactly if the entry is stored. -/
theorem WellFormed.get?_eq_some_iff {m : SparseMatrix α} (hm : m.WellFormed) {row col : Nat}
    {value : α} : m.get? row col = some value ↔ ⟨row, col, value⟩ ∈ m.entries := by
  rw [get?, Option.map_eq_some_iff]
  constructor
  · rintro ⟨e, he, rfl⟩
    obtain ⟨hrow, hcol⟩ := Entry.isAt_iff.mp (List.find?_some he)
    subst hrow hcol
    exact List.mem_of_find?_eq_some he
  · intro hmem
    cases hfind : m.entries.find? (Entry.isAt row col) with
    | none =>
      have := List.find?_eq_none.mp hfind _ hmem
      exact absurd (Entry.isAt_iff.mpr ⟨rfl, rfl⟩) this
    | some e =>
      refine ⟨e, hfind, ?_⟩
      obtain ⟨hrow, hcol⟩ := Entry.isAt_iff.mp (List.find?_some hfind)
      -- Both entries stand at this place, and no place is stored twice.
      have hplace : e.place = (⟨row, col, value⟩ : Entry α).place := by
        rw [Entry.place, Entry.place, hrow, hcol]
      rw [List.inj_on_of_nodup_map (Entry.nodup_place hm.sorted)
        (List.mem_of_find?_eq_some hfind) hmem hplace]

omit [Scalar α] in
/-- Nothing is stored outside the matrix. -/
theorem WellFormed.lt_of_get?_eq_some {m : SparseMatrix α} (hm : m.WellFormed) {row col : Nat}
    {value : α} (h : m.get? row col = some value) : row < m.dim ∧ col < m.dim :=
  hm.bounds _ (hm.get?_eq_some_iff.mp h)

end SparseMatrix

/-! ### Collecting by number -/

/-- There is a list for each number below the bound. -/
@[simp] theorem size_collect {β : Type} (count : Nat) (items : List (Nat × β)) :
    (collect count items).size = count := by
  induction items with
  | nil => exact Array.size_replicate
  | cons item items ih =>
    rw [collect, List.foldr_cons, Array.size_modify]
    exact ih

/-- What is collected under a number below the bound: its items, in order. -/
theorem getElem?_collect {β : Type} {count i : Nat} (hi : i < count) (items : List (Nat × β)) :
    (collect count items)[i]? = some ((items.filter fun item => item.1 == i).map Prod.snd) := by
  -- Items are taken in from the last to the first, each in front of those with its number.
  induction items with
  | nil => simp [collect, hi]
  | cons item items ih =>
    rw [collect, List.foldr_cons, Array.getElem?_modify]
    change (if item.1 = i then (collect count items)[i]?.map (item.2 :: ·)
      else (collect count items)[i]?) = _
    rw [ih]
    by_cases h : item.1 = i
    · simp [h]
    · simp [h]

end GalaxyMarket
