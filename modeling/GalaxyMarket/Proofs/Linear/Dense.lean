import Mathlib
import GalaxyMarket.Proofs.Exact
import GalaxyMarket.Proofs.Linear.Lengths

/-!
# Sparse matrices as matrices

Over exact numbers a sparse matrix is a matrix: `SparseMatrix.toMatrix` fills in zeros where nothing
is stored, and `SparseMatrix.coords_mulVec` says that the sparse product is the product with it.
The coordinates of the other operations on vectors stand beside it.
-/

namespace GalaxyMarket

open Matrix

/-! ### Vectors -/

namespace Vector

variable {n : ℕ}

/-- **The inner product of vectors of one length** is that of their coordinates. -/
theorem dot_eq_dotProduct {x y : List ℝ} (hx : x.length = n) (hy : y.length = n) :
    dot x y = coords n x ⬝ᵥ coords n y := by
  have hproducts : x.zipWith (· * ·) y = List.ofFn fun i => coords n x i * coords n y i := by
    refine List.ext_getElem (by simp [hx, hy]) fun i hi _ => ?_
    have hi' : i < x.length ∧ i < y.length := by simpa using hi
    simp [coords, hi'.1, hi'.2]
  rw [dot_eq, hproducts, List.sum_ofFn, dotProduct]

/-- The length of a vector is that of its coordinates. -/
theorem norm_eq {x : List ℝ} (hx : x.length = n) : norm x = √(coords n x ⬝ᵥ coords n x) :=
  congrArg Real.sqrt (dot_eq_dotProduct hx hx)

/-- The length of coordinates is the Euclidean norm. -/
theorem sqrt_dotProduct_self (v : Fin n → ℝ) : √(v ⬝ᵥ v) = ‖WithLp.toLp 2 v‖ := by
  rw [EuclideanSpace.norm_eq, dotProduct]
  simp [sq]

/-- Coordinates vanish if all entries do. -/
theorem coords_eq_zero_iff {x : List ℝ} (hx : x.length = n) :
    coords n x = 0 ↔ ∀ value ∈ x, value = 0 := by
  rw [List.forall_mem_iff_getElem]
  refine ⟨fun h i hi => ?_, fun h => funext fun i => ?_⟩
  · have hentry := congrFun h ⟨i, hx ▸ hi⟩
    simpa [coords, hi] using hentry
  · simpa [coords, hx] using h i (hx ▸ i.isLt)

/-- Coordinates of a sum. -/
theorem coords_addScaled {x y : List ℝ} (a : ℝ) (hx : x.length = n) (hy : y.length = n) :
    coords n (addScaled a x y) = a • coords n x + coords n y := by
  funext ⟨i, hi⟩
  have hx' : i < x.length := hx ▸ hi
  have hy' : i < y.length := hy ▸ hi
  simp [coords, addScaled, hx', hy']

/-- A vector is made of its coordinates. -/
theorem ofFn_coords {x : List ℝ} (hx : x.length = n) : List.ofFn (coords n x) = x := by
  refine List.ext_getElem (by rw [List.length_ofFn, hx]) fun i _ hi => ?_
  simp [coords, hi]

@[simp] theorem coords_ofFn (f : Fin n → ℝ) : coords n (List.ofFn f) = f := by
  funext i
  simp [coords]

/-- A vector sums to what its coordinates do. -/
theorem sum_coords {x : List ℝ} (hx : x.length = n) : ∑ i, coords n x i = x.sum := by
  rw [← List.sum_ofFn, ofFn_coords hx]

/-- The entries of a vector at some places. -/
noncomputable def select {k : ℕ} (e : Fin k → Fin n) (x : List ℝ) : List ℝ :=
  List.ofFn (coords n x ∘ e)

@[simp] theorem length_select {k : ℕ} (e : Fin k → Fin n) (x : List ℝ) :
    (select e x).length = k := List.length_ofFn

@[simp] theorem coords_select {k : ℕ} (e : Fin k → Fin n) (x : List ℝ) :
    coords k (select e x) = coords n x ∘ e := coords_ofFn _

/-- Zeros have the coordinates of zero. -/
theorem coords_map_zero (x : List ℝ) : coords n (x.map fun _ => 0) = 0 := by
  funext i
  rw [coords, List.getD_eq_getElem?_getD, List.getElem?_map]
  cases x[(i : ℕ)]? <;> rfl

end Vector

/-! ### Matrices -/

namespace SparseMatrix

/-- The matrix, with zeros where nothing is stored. -/
noncomputable def toMatrix (m : SparseMatrix ℝ) : Matrix (Fin m.dim) (Fin m.dim) ℝ :=
  .of fun i j => m.get i j

/-- The value at a place is the sum of the entries stored there, of which there is at most one. -/
theorem get_eq_sum {m : SparseMatrix ℝ} (hm : m.WellFormed) (row col : ℕ) :
    m.get row col = ((m.entries.filter (Entry.isAt row col)).map Entry.value).sum := by
  cases hvalue : m.get? row col with
  | none =>
    have hnone : m.entries.filter (Entry.isAt row col) = [] := by
      refine List.filter_eq_nil_iff.mpr fun e he hat => ?_
      obtain ⟨rfl, rfl⟩ := Entry.isAt_iff.mp hat
      rw [hm.get?_eq_some_iff.mpr he] at hvalue
      cases hvalue
    rw [get, hvalue, hnone]
    rfl
  | some value =>
    -- The entry is the only one at its place.
    have hsingle : m.entries.filter (Entry.isAt row col) = [⟨row, col, value⟩] := by
      have hnodup : (m.entries.filter (Entry.isAt row col)).Nodup :=
        (List.Nodup.of_map _ (Entry.nodup_place hm.sorted)).filter _
      refine List.perm_singleton.mp ((List.perm_ext_iff_of_nodup hnodup
        (List.nodup_singleton _)).mpr fun e => ?_)
      rw [List.mem_filter, List.mem_singleton, Entry.isAt_iff]
      constructor
      · rintro ⟨he, rfl, rfl⟩
        rw [hm.get?_eq_some_iff.mpr he] at hvalue
        rw [← Option.some.inj hvalue]
      · rintro rfl
        exact ⟨hm.get?_eq_some_iff.mp hvalue, rfl, rfl⟩
    rw [get, hvalue, hsingle]
    simp

/-- An entry of the product, as a sum over the stored entries of its row. -/
theorem getD_mulVec {m : SparseMatrix ℝ} (hm : m.WellFormed) {x : List ℝ} (hx : x.length = m.dim)
    {i : ℕ} (hi : i < m.dim) : (m.mulVec x).getD i 0 =
      ((m.entries.filter fun e => e.row == i).map fun e => e.value * x.getD e.col 0).sum := by
  -- No column is out of range, so that no entry is passed over.
  have hterms : (m.entries.filterMap fun e =>
      x.toArray[e.col]?.map fun y => (e.row, e.value * y)) =
      m.entries.map fun e => (e.row, e.value * x.getD e.col 0) := by
    rw [← List.filterMap_eq_map]
    refine List.filterMap_congr fun e he => ?_
    have hcol : e.col < x.length := hx ▸ (hm.bounds e he).2
    simp [hcol]
  rw [mulVec, List.getD_eq_getElem?_getD, List.getElem?_map, Array.getElem?_toList, hterms,
    getElem?_collect hi, List.filter_map, List.map_map]
  simp only [Option.map_some, Option.getD_some, Scalar.sum_eq]
  rfl

/-- Adding up by rows is adding up place by place. -/
theorem sum_row_eq (es : List (Entry ℝ)) (i n : ℕ) (hcol : ∀ e ∈ es, e.col < n) (f : ℕ → ℝ) :
    ((es.filter fun e => e.row == i).map fun e => e.value * f e.col).sum =
      ∑ j : Fin n, ((es.filter (Entry.isAt i j)).map Entry.value).sum * f j := by
  induction es with
  | nil => simp
  | cons e es ih =>
    have ih := ih fun e' he' => hcol e' (List.mem_cons_of_mem _ he')
    by_cases hrow : e.row = i
    · -- The entry is counted at its own column and nowhere else.
      let own : Fin n := ⟨e.col, hcol e List.mem_cons_self⟩
      have hterm : ∀ j : Fin n, (((e :: es).filter (Entry.isAt i j)).map Entry.value).sum * f j =
          (if j = own then e.value * f e.col else 0) +
            ((es.filter (Entry.isAt i j)).map Entry.value).sum * f j := by
        intro j
        by_cases hj : j = own
        · have hat : e.isAt i j = true := Entry.isAt_iff.mpr ⟨hrow, by rw [hj]⟩
          rw [List.filter_cons_of_pos hat, if_pos hj, List.map_cons, List.sum_cons, add_mul, hj]
        · have hat : ¬e.isAt i j = true := fun h => hj (Fin.ext (Entry.isAt_iff.mp h).2.symm)
          rw [List.filter_cons_of_neg hat, if_neg hj, zero_add]
      rw [List.filter_cons_of_pos (by simpa using hrow), List.map_cons, List.sum_cons, ih,
        Finset.sum_congr rfl fun j _ => hterm j, Finset.sum_add_distrib, Finset.sum_ite_eq',
        if_pos (Finset.mem_univ _)]
    · have hat : ∀ j : Fin n, ¬e.isAt i j = true := fun j h => hrow (Entry.isAt_iff.mp h).1
      rw [List.filter_cons_of_neg (by simpa using hrow), ih]
      exact Finset.sum_congr rfl fun j _ => by rw [List.filter_cons_of_neg (hat j)]

/-- **The sparse product is the product.** -/
theorem coords_mulVec {m : SparseMatrix ℝ} (hm : m.WellFormed) {x : List ℝ}
    (hx : x.length = m.dim) :
    Vector.coords m.dim (m.mulVec x) = m.toMatrix *ᵥ Vector.coords m.dim x := by
  funext i
  rw [Vector.coords, getD_mulVec hm hx i.isLt,
    sum_row_eq m.entries i m.dim (fun e he => (hm.bounds e he).2) fun j => x.getD j 0]
  exact Finset.sum_congr rfl fun j _ => by rw [← get_eq_sum hm]; rfl

/-- The product with an invertible matrix tells vectors apart. -/
theorem WellFormed.mulVec_inj {m : SparseMatrix ℝ} (hm : m.WellFormed) (hunit : IsUnit m.toMatrix)
    {x y : List ℝ} (hx : x.length = m.dim) (hy : y.length = m.dim)
    (h : m.mulVec x = m.mulVec y) : x = y := by
  apply (Vector.coords_inj hx hy).mp
  apply mulVec_injective_iff_isUnit.mpr hunit
  rw [← coords_mulVec hm hx, ← coords_mulVec hm hy, h]

/-- Every vector is the product of an invertible matrix with exactly one. -/
theorem WellFormed.exists_iff_eq {m : SparseMatrix ℝ} (hm : m.WellFormed)
    (hunit : IsUnit m.toMatrix) {b : List ℝ} (hb : b.length = m.dim) :
    ∃ x, ∀ y, (y.length = m.dim ∧ m.mulVec y = b) ↔ y = x := by
  obtain ⟨v, hv⟩ := mulVec_surjective_iff_isUnit.mpr hunit (Vector.coords m.dim b)
  have hlength : (List.ofFn v).length = m.dim := List.length_ofFn
  have hmul : m.mulVec (List.ofFn v) = b := by
    apply (Vector.coords_inj (m.length_mulVec _) hb).mp
    rw [coords_mulVec hm hlength, Vector.coords_ofFn, hv]
  refine ⟨List.ofFn v, fun y => ⟨?_, ?_⟩⟩
  · rintro ⟨hy, hproduct⟩
    exact hm.mulVec_inj hunit hy hlength (hproduct.trans hmul.symm)
  · rintro rfl
    exact ⟨hlength, hmul⟩

/-- A product can be read at some places if the matrices are related there. -/
theorem WellFormed.mulVec_select {m m' : SparseMatrix ℝ} (hm : m.WellFormed) (hm' : m'.WellFormed)
    {e : Fin m.dim → Fin m'.dim} (h : ∀ x, m.toMatrix *ᵥ (x ∘ e) = (m'.toMatrix *ᵥ x) ∘ e)
    {x : List ℝ} (hx : x.length = m'.dim) :
    m.mulVec (Vector.select e x) = Vector.select e (m'.mulVec x) := by
  apply (Vector.coords_inj (m.length_mulVec _) (Vector.length_select e _)).mp
  rw [coords_mulVec hm (Vector.length_select e x), Vector.coords_select, h, Vector.coords_select,
    coords_mulVec hm' hx]

end SparseMatrix

end GalaxyMarket
