import Mathlib
import GalaxyMarket.Proofs.Linear.Renumbering
import GalaxyMarket.Proofs.Market.Rescaling

/-!
# Laws of rescaling

Rescaled potentials lie between 0 and 1 and come in their old order; the lowest of them is at 0 and
the highest at 1, unless all are at one half. What is reported along with them, the least and the
greatest multiplier, is written down as a constant, but it is what the list holds
(`rescaled_to_unit_interval`).

What becomes of a potential is its share of the range, so that the unit of measurement does not
matter, a change of sign turns the scale upside down, and potentials that were rescaled before stay
(`rescaling_equivariant`). Each of these laws has to hold on either side of the border between flat
potentials and others. It does because the tolerance is measured by the potentials themselves: range
and tolerance grow by one factor, and a change of sign keeps both (`isFlat_mul`, `isFlat_neg`). The
extent follows any map that keeps the order or reverses it (`extent_map_of_monotone`,
`extent_map_of_antitone`).
-/

namespace GalaxyMarket

variable {xs : List ℝ} {lo hi : ℝ}

/-! ### The extent of what is mapped -/

/-- The ends of a range stay its ends where the order is kept, -/
theorem extent_map_of_monotone {f : ℝ → ℝ} (hf : Monotone f) (hlo : xs.min? = some lo)
    (hhi : xs.max? = some hi) :
    (xs.map f).min? = some (f lo) ∧ (xs.map f).max? = some (f hi) := by
  rw [List.min?_eq_some_iff] at hlo ⊢
  rw [List.max?_eq_some_iff] at hhi ⊢
  refine ⟨⟨List.mem_map_of_mem hlo.1, ?_⟩, List.mem_map_of_mem hhi.1, ?_⟩
  · exact List.forall_mem_map.mpr fun x hx => hf (hlo.2 x hx)
  · exact List.forall_mem_map.mpr fun x hx => hf (hhi.2 x hx)

/-- and change places where it is reversed. -/
theorem extent_map_of_antitone {f : ℝ → ℝ} (hf : Antitone f) (hlo : xs.min? = some lo)
    (hhi : xs.max? = some hi) :
    (xs.map f).min? = some (f hi) ∧ (xs.map f).max? = some (f lo) := by
  rw [List.min?_eq_some_iff] at hlo ⊢
  rw [List.max?_eq_some_iff] at hhi ⊢
  refine ⟨⟨List.mem_map_of_mem hhi.1, ?_⟩, List.mem_map_of_mem hlo.1, ?_⟩
  · exact List.forall_mem_map.mpr fun x hx => hf (hhi.2 x hx)
  · exact List.forall_mem_map.mpr fun x hx => hf (hlo.2 x hx)

/-- Some potential is the least one and some the greatest. -/
theorem exists_extent (hne : xs ≠ []) : ∃ lo hi, xs.min? = some lo ∧ xs.max? = some hi := by
  obtain ⟨lo, hi, hextent⟩ := exists_extent? hne
  exact ⟨lo, hi, extent?_eq_some_iff.mp hextent⟩

/-- The share of a range grows with the potential. -/
theorem monotone_share (h : lo < hi) : Monotone fun x => (x - lo) / (hi - lo) := by
  intro x y hxy
  exact div_le_div_of_nonneg_right (sub_le_sub_right hxy lo) (sub_pos.mpr h).le

/-! ### The unit interval -/

/-- What rescaling makes of potentials of which `lo` is the least and `hi` the greatest. -/
structure IsRescaling (xs : List ℝ) (lo hi : ℝ) (multipliers : Multipliers ℝ) : Prop where
  length_eq : multipliers.values.length = xs.length
  /-- The order is kept, weakly. -/
  mono : ∀ {i j : ℕ} {x x' y y' : ℝ}, xs[i]? = some x → xs[j]? = some x' →
    multipliers.values[i]? = some y → multipliers.values[j]? = some y' → x ≤ x' → y ≤ y'
  mem_Icc : ∀ y ∈ multipliers.values, y ∈ Set.Icc (0 : ℝ) 1
  /-- All are at one half exactly if the range vanishes beside the size of the potentials. -/
  flat_iff : hi - lo ≤ 1e-12 * max |hi| |lo| ↔
    multipliers.least = 0.5 ∧ multipliers.greatest = 0.5 ∧ ∀ y ∈ multipliers.values, y = 0.5
  /-- Otherwise the lowest are at zero and the highest at one. -/
  ends : ¬hi - lo ≤ 1e-12 * max |hi| |lo| →
    multipliers.least = 0 ∧ multipliers.greatest = 1 ∧
      ∀ i : ℕ, (xs[i]? = some lo → multipliers.values[i]? = some 0) ∧
        (xs[i]? = some hi → multipliers.values[i]? = some 1)
  /-- What is reported is what the list holds. -/
  least_eq : multipliers.values.min? = some multipliers.least
  greatest_eq : multipliers.values.max? = some multipliers.greatest

/-- What is mapped by a function that keeps the order comes in the same order. -/
theorem le_of_getElem?_map {f : ℝ → ℝ} (hf : Monotone f) {i j : ℕ} {x x' y y' : ℝ}
    (hx : xs[i]? = some x) (hx' : xs[j]? = some x') (hy : (xs.map f)[i]? = some y)
    (hy' : (xs.map f)[j]? = some y') (hle : x ≤ x') : y ≤ y' := by
  rw [List.getElem?_map, hx, Option.map_some] at hy
  rw [List.getElem?_map, hx', Option.map_some] at hy'
  rw [← Option.some.inj hy, ← Option.some.inj hy']
  exact hf hle

/-- Flat potentials all go to one half. -/
theorem isRescaling_flat (hlo : xs.min? = some lo) (hhi : xs.max? = some hi)
    (hflat : isFlat lo hi = true) : IsRescaling xs lo hi (.flat xs) := by
  have hhalf : ∀ y ∈ (Multipliers.flat xs).values, y = 0.5 := by
    intro y hy
    obtain ⟨_, -, rfl⟩ := List.mem_map.mp hy
    rfl
  obtain ⟨hmin, hmax⟩ := extent_map_of_monotone (f := fun _ => 0.5) monotone_const hlo hhi
  constructor
  case length_eq => exact List.length_map _
  case mono => exact le_of_getElem?_map monotone_const
  case mem_Icc =>
    intro y hy
    rw [hhalf y hy]
    norm_num
  case flat_iff => exact iff_of_true (isFlat_iff.mp hflat) ⟨rfl, rfl, hhalf⟩
  case ends => exact fun h => absurd (isFlat_iff.mp hflat) h
  case least_eq => exact hmin
  case greatest_eq => exact hmax

/-- All others go to their share of the range. -/
theorem isRescaling_range (hlo : xs.min? = some lo) (hhi : xs.max? = some hi)
    (hflat : ¬isFlat lo hi = true) :
    IsRescaling xs lo hi
      { least := 0, greatest := 1, values := xs.map fun x => (x - lo) / (hi - lo) } := by
  have hlt : lo < hi := lt_of_not_isFlat hflat
  have hrange : hi - lo ≠ 0 := (sub_pos.mpr hlt).ne'
  -- The ends have the shares zero and one, which are those reported.
  have hzero : (lo - lo) / (hi - lo) = 0 := by rw [sub_self, zero_div]
  have hone : (hi - lo) / (hi - lo) = 1 := div_self hrange
  obtain ⟨hmin, hmax⟩ := extent_map_of_monotone (monotone_share hlt) hlo hhi
  rw [hzero] at hmin
  rw [hone] at hmax
  constructor
  case length_eq => exact List.length_map _
  case mono => exact le_of_getElem?_map (monotone_share hlt)
  case mem_Icc =>
    intro y hy
    exact ⟨(List.min?_eq_some_iff.mp hmin).2 y hy, (List.max?_eq_some_iff.mp hmax).2 y hy⟩
  case flat_iff =>
    refine iff_of_false (mt isFlat_iff.mpr hflat) fun h => ?_
    exact absurd h.1 (by norm_num)
  case ends =>
    refine fun _ => ⟨rfl, rfl, fun i => ⟨fun hi => ?_, fun hi => ?_⟩⟩
    · rw [List.getElem?_map, hi, Option.map_some, hzero]
    · rw [List.getElem?_map, hi, Option.map_some, hone]
  case least_eq => exact hmin
  case greatest_eq => exact hmax

/-- **Rescaling goes to the unit interval.** Of any potentials it makes as many multipliers in the
same order, all at one half or else from zero to one. -/
theorem rescaled_to_unit_interval (hne : xs ≠ []) : ∃ lo hi multipliers,
    xs.min? = some lo ∧ xs.max? = some hi ∧ normalize? xs = some multipliers ∧
      IsRescaling xs lo hi multipliers := by
  obtain ⟨lo, hi, hlo, hhi⟩ := exists_extent hne
  refine ⟨lo, hi, _, hlo, hhi, normalize?_of_extent hlo hhi, ?_⟩
  split
  · next hflat => exact isRescaling_flat hlo hhi hflat
  · next hflat => exact isRescaling_range hlo hhi hflat

/-- Of 2, 4 and 3 the first goes to zero and the second to one. -/
theorem rescaled_to_unit_interval_triple : ([2, 4, 3] : List ℝ) ≠ [] ∧
    ∃ multipliers, normalize? ([2, 4, 3] : List ℝ) = some multipliers ∧
      multipliers.values.min? = some 0 ∧ multipliers.values.max? = some 1 ∧
      multipliers.values[0]? = some 0 ∧ multipliers.values[1]? = some 1 := by
  have hne : ([2, 4, 3] : List ℝ) ≠ [] := List.cons_ne_nil _ _
  obtain ⟨lo, hi, multipliers, hlo, hhi, hnormalize, h⟩ := rescaled_to_unit_interval hne
  obtain rfl : 2 = lo := by
    refine Option.some.inj (Eq.trans ?_ hlo)
    norm_num [List.min?_cons']
  obtain rfl : 4 = hi := by
    refine Option.some.inj (Eq.trans ?_ hhi)
    norm_num [List.max?_cons']
  obtain ⟨hleast, hgreatest, hends⟩ := h.ends (by norm_num)
  have hmin := h.least_eq
  have hmax := h.greatest_eq
  rw [hleast] at hmin
  rw [hgreatest] at hmax
  exact ⟨hne, multipliers, hnormalize, hmin, hmax, (hends 0).1 rfl, (hends 1).2 rfl⟩

/-! ### Another scale, another sign, another order -/

/-- The unit of measurement does not make potentials flat. -/
theorem isFlat_mul {c : ℝ} (hc : 0 < c) : isFlat (c * lo) (c * hi) = isFlat lo hi := by
  rw [Bool.eq_iff_iff, isFlat_iff, isFlat_iff]
  -- The tolerance is a share of the greatest size, which grows along.
  have hsize : max |c * hi| |c * lo| = c * max |hi| |lo| := by
    rw [abs_mul, abs_mul, abs_of_pos hc, mul_max_of_nonneg _ _ hc.le]
  rw [hsize, ← mul_sub, mul_left_comm]
  exact mul_le_mul_iff_right₀ hc

/-- Neither does their sign. -/
theorem isFlat_neg : isFlat (-hi) (-lo) = isFlat lo hi := by
  rw [Bool.eq_iff_iff, isFlat_iff, isFlat_iff, abs_neg, abs_neg, max_comm, neg_sub_neg]

namespace Multipliers

/-- The multipliers on a scale that is turned upside down. -/
noncomputable def reversed (m : Multipliers ℝ) : Multipliers ℝ where
  least := 1 - m.greatest
  greatest := 1 - m.least
  values := m.values.map fun y => 1 - y

/-- The multipliers at some places. -/
noncomputable def select {k n : ℕ} (e : Fin k → Fin n) (m : Multipliers ℝ) : Multipliers ℝ :=
  { m with values := Vector.select e m.values }

end Multipliers

/-- **Rescaled potentials** are rescaled to themselves. -/
theorem normalize?_of_normalize? {multipliers : Multipliers ℝ}
    (h : normalize? xs = some multipliers) : normalize? multipliers.values = some multipliers := by
  have hne : xs ≠ [] := by
    rintro rfl
    cases h
  obtain ⟨lo, hi, hlo, hhi⟩ := exists_extent hne
  obtain rfl := Option.some.inj (h.symm.trans (normalize?_of_extent hlo hhi))
  split
  · -- What is level is flat.
    have hlevel : ∀ y ∈ (Multipliers.flat xs).values, y = 0.5 := by
      intro y hy
      obtain ⟨_, -, rfl⟩ := List.mem_map.mp hy
      rfl
    refine (normalize?_of_level (mt List.map_eq_nil_iff.mp hne) hlevel).trans ?_
    simp only [Multipliers.flat, List.map_map, Function.comp_def]
  · next hflat =>
    -- The multipliers range from 0 to 1, so that each is its own share of the range.
    have hlt : lo < hi := lt_of_not_isFlat hflat
    obtain ⟨hmin, hmax⟩ := extent_map_of_monotone (monotone_share hlt) hlo hhi
    rw [sub_self, zero_div] at hmin
    rw [div_self (sub_pos.mpr hlt).ne'] at hmax
    have hunit : ¬isFlat (0 : ℝ) 1 = true := by
      rw [isFlat_iff]
      norm_num
    rw [normalize?_of_extent hmin hmax, if_neg hunit]
    simp only [sub_zero, div_one, List.map_id']

/-- **The unit of measurement** does not matter. -/
theorem normalize?_map_mul {c : ℝ} (hc : 0 < c) (xs : List ℝ) :
    normalize? (xs.map (c * ·)) = normalize? xs := by
  rcases eq_or_ne xs [] with rfl | hne
  · rfl
  obtain ⟨lo, hi, hlo, hhi⟩ := exists_extent hne
  have hmono : Monotone (c * · : ℝ → ℝ) := fun x y hxy => mul_le_mul_of_nonneg_left hxy hc.le
  obtain ⟨hlo', hhi'⟩ := extent_map_of_monotone hmono hlo hhi
  -- The unit cancels out, of a share as of the test for flat potentials.
  have hshare : ∀ x, (c * x - c * lo) / (c * hi - c * lo) = (x - lo) / (hi - lo) := by
    intro x
    rw [← mul_sub, ← mul_sub, mul_div_mul_left _ _ hc.ne']
  rw [normalize?_of_extent hlo' hhi', normalize?_of_extent hlo hhi, isFlat_mul hc]
  simp only [Multipliers.flat, List.map_map, Function.comp_def, hshare]

/-- **A change of sign** turns the scale upside down. -/
theorem normalize?_map_neg (xs : List ℝ) :
    normalize? (xs.map (-·)) = (normalize? xs).map Multipliers.reversed := by
  rcases eq_or_ne xs [] with rfl | hne
  · rfl
  obtain ⟨lo, hi, hlo, hhi⟩ := exists_extent hne
  obtain ⟨hlo', hhi'⟩ := extent_map_of_antitone (fun x y => neg_le_neg) hlo hhi
  rw [normalize?_of_extent hlo' hhi', normalize?_of_extent hlo hhi, isFlat_neg, Option.map_some]
  by_cases hflat : isFlat lo hi = true
  · rw [if_pos hflat, if_pos hflat]
    norm_num [Multipliers.flat, Multipliers.reversed, Function.comp_def]
  · have hrange : hi - lo ≠ 0 := (sub_pos.mpr (lt_of_not_isFlat hflat)).ne'
    -- What lies above a potential is what is not below it.
    have hshare : ∀ x, (-x - -hi) / (-lo - -hi) = 1 - (x - lo) / (hi - lo) := by
      intro x
      rw [neg_sub_neg, neg_sub_neg, eq_sub_iff_add_eq, ← add_div, sub_add_sub_cancel,
        div_self hrange]
    rw [if_neg hflat, if_neg hflat]
    simp only [Multipliers.reversed, List.map_map, Function.comp_def, hshare, sub_self, sub_zero]

/-- Places can be chosen before or after the entries are mapped. -/
theorem Vector.select_map {k n : ℕ} (e : Fin k → Fin n) (f : ℝ → ℝ) (hx : xs.length = n) :
    select e (xs.map f) = (select e xs).map f := by
  unfold select
  rw [List.map_ofFn]
  congr 1
  funext i
  have hi : (e i : ℕ) < xs.length := hx ▸ (e i).isLt
  simp [coords, hi]

/-- **The order of the potentials** does not matter, each takes its multiplier along. -/
theorem normalize?_select {k n : ℕ} {e : Fin k → Fin n} (he : Function.Bijective e)
    (hx : xs.length = n) :
    normalize? (Vector.select e xs) = (normalize? xs).map (Multipliers.select e) := by
  have hmem : ∀ x, x ∈ Vector.select e xs ↔ x ∈ xs :=
    fun x => Vector.mem_select_iff he.surjective hx
  rcases eq_or_ne xs [] with rfl | hne
  · have hnil : Vector.select e [] = [] :=
      List.eq_nil_iff_forall_not_mem.mpr fun x hx => List.not_mem_nil ((hmem x).mp hx)
    rw [hnil]
    rfl
  obtain ⟨least, greatest, f, hrescale⟩ := exists_rescaling hne
  rw [hrescale _ hmem, hrescale xs fun _ => Iff.rfl, Option.map_some, Multipliers.select,
    Vector.select_map e f hx]

/-- **Rescaling goes along with** rescaling again, another unit, another sign and another order. -/
theorem rescaling_equivariant (xs : List ℝ) :
    (∀ multipliers, normalize? xs = some multipliers →
      normalize? multipliers.values = some multipliers) ∧
    (∀ c : ℝ, 0 < c → normalize? (xs.map (c * ·)) = normalize? xs) ∧
    normalize? (xs.map (-·)) = (normalize? xs).map Multipliers.reversed ∧
    ∀ σ : Equiv.Perm (Fin xs.length),
      normalize? (Vector.select σ xs) = (normalize? xs).map (Multipliers.select σ) :=
  ⟨fun _ h => normalize?_of_normalize? h, fun _ hc => normalize?_map_mul hc xs,
    normalize?_map_neg xs, fun σ => normalize?_select σ.bijective rfl⟩

/-- Of 2, 4 and 3 the middle one goes to one half, also when they are measured in units that are so
large that all three are tiny. -/
theorem rescaling_equivariant_tiny : (0 : ℝ) < 1e-20 ∧
    normalize? ([2, 4, 3].map ((1e-20 : ℝ) * ·)) =
      some { least := 0, greatest := 1, values := [0, 1, 1 / 2] } := by
  have hunit : (0 : ℝ) < 1e-20 := by norm_num
  refine ⟨hunit, ((rescaling_equivariant [2, 4, 3]).2.1 1e-20 hunit).trans ?_⟩
  have hlo : ([2, 4, 3] : List ℝ).min? = some 2 := by norm_num [List.min?_cons']
  have hhi : ([2, 4, 3] : List ℝ).max? = some 4 := by norm_num [List.max?_cons']
  have hflat : ¬isFlat (2 : ℝ) 4 = true := by
    rw [isFlat_iff]
    norm_num
  rw [normalize?_of_extent hlo hhi, if_neg hflat]
  norm_num

end GalaxyMarket
