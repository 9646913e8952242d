import Mathlib
import GalaxyMarket.Proofs.Exact
import GalaxyMarket.Proofs.Market.Multipliers

/-!
# Rescaling exact potentials

Over exact numbers the extent of some potentials is the least and the greatest of them
(`extent?_eq_some_iff`). Between these every number already lies in the interval that it is rescaled
to, so that nothing is ever cut off (`normalize?_of_extent`). Rescaling therefore does not see in
what order potentials come, nor how often each of them does: lists with the same members are
rescaled by the same function (`exists_rescaling`). Potentials that are all the same are flat
(`normalize?_of_level`).
-/

namespace GalaxyMarket

/-- Over exact numbers, where everything is a number, these are the lesser, -/
theorem Scalar.minNum_eq (a b : ℝ) : Scalar.minNum a b = min a b := by
  unfold minNum isNumber
  rcases lt_or_ge a b with h | h
  · simp [h, h.le]
  · simp [h, not_lt.mpr h]

/-- the greater, -/
theorem Scalar.maxNum_eq (a b : ℝ) : Scalar.maxNum a b = max a b := by
  unfold maxNum isNumber
  rcases lt_or_ge b a with h | h
  · simp [h, h.le]
  · simp [h, not_lt.mpr h]

/-- and the size. -/
theorem Scalar.abs_eq (a : ℝ) : Scalar.abs a = |a| := by
  unfold Scalar.abs
  rw [Scalar.lt_eq]
  rcases lt_or_ge a 0 with h | h
  · rw [if_pos (decide_eq_true h), abs_of_neg h]
  · rw [if_neg (by simpa using h), abs_of_nonneg h]

/-- Nothing is cut off a number of the interval. -/
theorem clamp_of_mem {x : ℝ} (hlow : 0 ≤ x) (hhigh : x ≤ 1) : Scalar.clamp 0 1 x = x := by
  have hlow' : ¬Scalar.lt x 0 = true := by simpa using hlow
  have hhigh' : ¬Scalar.lt 1 x = true := by simpa using hhigh
  unfold Scalar.clamp
  rw [if_neg hlow', if_neg hhigh']

variable {xs ys : List ℝ} {lo hi : ℝ}

/-! ### The extent -/

/-- Least and greatest can be looked for one after the other. -/
theorem foldl_extent (xs : List ℝ) (lo hi : ℝ) :
    xs.foldl (fun (lo, hi) x => (Scalar.minNum lo x, Scalar.maxNum hi x)) (lo, hi) =
      (xs.foldl min lo, xs.foldl max hi) := by
  induction xs generalizing lo hi with
  | nil => rfl
  | cons x xs ih =>
    rw [List.foldl_cons, List.foldl_cons, List.foldl_cons, ← Scalar.minNum_eq, ← Scalar.maxNum_eq]
    exact ih _ _

/-- **The extent** is the least and the greatest number. -/
theorem extent?_eq_some_iff :
    extent? xs = some (lo, hi) ↔ xs.min? = some lo ∧ xs.max? = some hi := by
  cases xs with
  | nil => simp [extent?]
  | cons x xs =>
    have hnumber : Scalar.isNumber x = true := by simp [Scalar.isNumber]
    rw [extent?, if_pos hnumber, foldl_extent, List.min?_cons', List.max?_cons']
    simp only [Option.some.injEq, Prod.mk.injEq]

/-- Lists with the same members have the same extent. -/
theorem extent?_congr (h : ∀ x, x ∈ ys ↔ x ∈ xs) : extent? ys = extent? xs := by
  apply Option.ext
  rintro ⟨lo, hi⟩
  rw [extent?_eq_some_iff, extent?_eq_some_iff]
  simp only [List.min?_eq_some_iff, List.max?_eq_some_iff, h]

/-- Only an empty list has no extent. -/
theorem exists_extent? (h : xs ≠ []) : ∃ lo hi, extent? xs = some (lo, hi) := by
  cases xs with
  | nil => exact absurd rfl h
  | cons x xs => exact ⟨_, _, extent?_eq_some_iff.mpr ⟨List.min?_cons', List.max?_cons'⟩⟩

/-! ### Rescaling -/

/-- A range is flat if it vanishes beside the size of the larger end. -/
theorem isFlat_iff : isFlat lo hi = true ↔ hi - lo ≤ 1e-12 * max |hi| |lo| := by
  rw [← Scalar.abs_eq, ← Scalar.abs_eq, ← Scalar.maxNum_eq]
  simp only [isFlat, Scalar.isFinite_eq, Bool.not_true, Bool.false_or, Scalar.le_eq,
    decide_eq_true_eq]

/-- A range that is not flat is a range. -/
theorem lt_of_not_isFlat (hflat : ¬isFlat lo hi = true) : lo < hi := by
  rw [isFlat_iff, not_le] at hflat
  have htolerance : (0 : ℝ) ≤ 1e-12 * max |hi| |lo| :=
    mul_nonneg (by norm_num) (le_max_of_le_left (abs_nonneg hi))
  linarith

/-- **Rescaling** numbers of a known extent: unless the range is flat, each becomes the share of the
range that lies below it. -/
theorem normalize?_of_extent (hlo : xs.min? = some lo) (hhi : xs.max? = some hi) :
    normalize? xs = some (if isFlat lo hi then .flat xs else
      { least := 0, greatest := 1, values := xs.map fun x => (x - lo) / (hi - lo) }) := by
  have hne : xs ≠ [] := List.ne_nil_of_mem (List.min?_eq_some_iff.mp hlo).1
  unfold normalize?
  rw [List.isEmpty_eq_false_iff.mpr hne, extent?_eq_some_iff.mpr ⟨hlo, hhi⟩]
  dsimp only
  by_cases hflat : isFlat lo hi = true
  · rw [if_pos hflat, if_pos hflat]
    rfl
  · have hrange : 0 < hi - lo := sub_pos.mpr (lt_of_not_isFlat hflat)
    -- A share lies between nothing and the whole.
    have hvalues : (xs.map fun x => Scalar.clamp 0 1 ((x - lo) / (hi - lo))) =
        xs.map fun x => (x - lo) / (hi - lo) := by
      refine List.map_congr_left fun x hx => clamp_of_mem ?_ ?_
      · exact div_nonneg (sub_nonneg.mpr ((List.min?_eq_some_iff.mp hlo).2 x hx)) hrange.le
      · rw [div_le_one hrange]
        exact sub_le_sub_right ((List.max?_eq_some_iff.mp hhi).2 x hx) lo
    rw [if_neg hflat, if_neg hflat, hvalues]
    rfl

/-- **Potentials are rescaled one by one**, by a function that depends only on which potentials
there are. -/
theorem exists_rescaling (hne : xs ≠ []) : ∃ least greatest f,
    ∀ ys : List ℝ, (∀ x, x ∈ ys ↔ x ∈ xs) →
      normalize? ys = some { least, greatest, values := ys.map f } := by
  obtain ⟨lo, hi, hextent⟩ := exists_extent? hne
  have hys : ∀ ys : List ℝ, (∀ x, x ∈ ys ↔ x ∈ xs) → ys.min? = some lo ∧ ys.max? = some hi :=
    fun ys hmem => extent?_eq_some_iff.mp ((extent?_congr hmem).trans hextent)
  by_cases hflat : isFlat lo hi = true
  · refine ⟨0.5, 0.5, fun _ => 0.5, fun ys hmem => ?_⟩
    rw [normalize?_of_extent (hys ys hmem).1 (hys ys hmem).2, if_pos hflat]
    rfl
  · refine ⟨0, 1, fun x => (x - lo) / (hi - lo), fun ys hmem => ?_⟩
    rw [normalize?_of_extent (hys ys hmem).1 (hys ys hmem).2, if_neg hflat]

/-- **Level potentials** give one half everywhere, whatever their height. -/
theorem normalize?_of_level {level : ℝ} (hne : xs ≠ []) (hlevel : ∀ x ∈ xs, x = level) :
    normalize? xs = some (.flat xs) := by
  obtain ⟨lo, hi, hextent⟩ := exists_extent? hne
  obtain ⟨hlo, hhi⟩ := extent?_eq_some_iff.mp hextent
  obtain rfl : lo = level := hlevel lo (List.min?_eq_some_iff.mp hlo).1
  obtain rfl : hi = lo := hlevel hi (List.max?_eq_some_iff.mp hhi).1
  -- Nothing lies strictly between equals.
  have hflat : isFlat hi hi = true := by
    by_contra h
    exact lt_irrefl hi (lt_of_not_isFlat h)
  rw [normalize?_of_extent hlo hhi, if_pos hflat]

end GalaxyMarket
