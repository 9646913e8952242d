import GalaxyMarket.Proofs.Number.Value

/-!
# Which doubles have a reciprocal

A division rounds the exact quotient to a double, and gives an infinity if that is too large.
Subnormal numbers are so small that this happens to their reciprocals: the reciprocal of a finite
positive double is finite exactly if the double has more than `2 ^ 50` units
(`Binary64.exists_units_recip?`). That number of units has the least power of two that is too large
as its reciprocal (`Binary64.roundUnits_one_two_pow`), and the next double after it has a
reciprocal below the greatest double.
-/

namespace GalaxyMarket

namespace Binary64

/-- The reciprocal of `2 ^ 50` units is just too large, -/
theorem roundUnits_one_two_pow : roundUnits one (2 ^ 50) = overflow := by
  obtain ⟨n, hn⟩ : ∃ n, n = 1074 := ⟨_, rfl⟩
  have hden : 2 ^ 50 * 2 ^ (n - 50) = one := by
    rw [← Nat.pow_add, one_eq_two_pow hn, Nat.add_sub_cancel' (by omega)]
  have hnum : one * 2 ^ (n - 50) = 1 * 2 ^ (n + (n - 50)) := by
    rw [one_eq_two_pow hn, ← Nat.pow_add, Nat.one_mul]
  rw [← roundUnits_mul_right one _ (Nat.two_pow_pos (n - 50)), hden, hnum,
    roundUnits_mul_two_pow (by decide), Nat.one_mul]
  exact (overflow_eq_two_pow (by omega)).symm

/-- and that of one unit more is not. -/
theorem roundUnits_one_lt : roundUnits one (2 ^ 50 + 1) < overflow := by
  obtain ⟨n, hn⟩ : ∃ n, n = 1074 := ⟨_, rfl⟩
  obtain ⟨k, hk⟩ : ∃ k, k = 2045 := ⟨_, rfl⟩
  -- The exact reciprocal is not above the greatest double.
  have hle : one * one ≤ (2 ^ 53 - 1) * 2 ^ k * (2 ^ 50 + 1) := by
    have hone : one * one = 2 ^ 103 * 2 ^ k := by
      rw [one_eq_two_pow hn, ← Nat.pow_add, ← Nat.pow_add]
      congr 1
      omega
    rw [hone, Nat.mul_right_comm]
    exact Nat.mul_le_mul_right _ (by decide)
  calc roundUnits one (2 ^ 50 + 1) = roundUnits (one * one) (one * (2 ^ 50 + 1)) := by
        rw [Nat.mul_comm one (2 ^ 50 + 1), roundUnits_mul_right _ _ one_pos]
    _ ≤ roundUnits ((2 ^ 53 - 1) * 2 ^ k * (2 ^ 50 + 1)) (one * (2 ^ 50 + 1)) :=
        roundUnits_mono _ hle
    _ = (2 ^ 53 - 1) * 2 ^ k := by
        rw [roundUnits_mul_right _ _ (by decide), roundUnits_mul_two_pow (by decide)]
    _ < 2 ^ 53 * 2 ^ k := Nat.mul_lt_mul_of_pos_right (by decide) (Nat.two_pow_pos k)
    _ = 2 ^ (53 + k) := (Nat.pow_add ..).symm
    _ = overflow := (overflow_eq_two_pow (by omega)).symm

/-- **The reciprocal fits** exactly if there are more than `2 ^ 50` units. -/
theorem roundUnits_one_lt_overflow_iff {units : ℕ} (hpos : 0 < units) :
    roundUnits one units < overflow ↔ 2 ^ 50 < units := by
  constructor
  · intro hlt
    by_contra hle
    have hlarge := roundUnits_anti one hpos (Nat.not_lt.mp hle)
    rw [roundUnits_one_two_pow] at hlarge
    exact absurd hlt (Nat.not_lt.mpr hlarge)
  · intro hlt
    exact (roundUnits_anti one (by decide) hlt).trans_lt roundUnits_one_lt

/-- **A finite positive double has a finite reciprocal** exactly if it has more than `2 ^ 50` units,
which is to say that it is greater than `2 ^ (-1024)`; the reciprocal is positive then. -/
theorem exists_units_recip? {x : Float} (hfinite : Scalar.isFinite x = true)
    (hpos : Scalar.lt 0 x = true) : ∃ units, ofFloat x = .finite false units ∧
      (2 ^ 50 < units → ∃ y, Scalar.recip? x = some y ∧ Scalar.lt 0 y = true) ∧
      (units ≤ 2 ^ 50 → Scalar.recip? x = none) := by
  obtain ⟨units, hunits, hx⟩ := exists_hasValue_of_pos hfinite hpos
  refine ⟨units, hx.ofFloat_eq hunits, fun hlarge => ?_, fun hsmall => ?_⟩
  · have hy : HasValue (1 / x) (roundUnits one units) :=
      hasValue_one.div hx hunits ((roundUnits_one_lt_overflow_iff hunits).mpr hlarge)
    refine ⟨1 / x, if_pos hy.isFinite, (hasValue_zero.lt_iff hy).mpr (Int.natCast_pos.mpr ?_)⟩
    -- No double is so large that its reciprocal vanishes.
    obtain ⟨n, hn⟩ : ∃ n, n = 1074 := ⟨_, rfl⟩
    obtain ⟨k, hk⟩ : ∃ k, k = 2098 := ⟨_, rfl⟩
    refine roundUnits_pos hunits ((Nat.le_of_lt hx.lt_overflow).trans ?_)
    rw [overflow_eq_two_pow hk, one_eq_two_pow hn, ← Nat.pow_add]
    exact Nat.pow_le_pow_right (by decide) (by omega)
  · refine if_neg fun hfinite => absurd hsmall (Nat.not_le.mpr ?_)
    exact (roundUnits_one_lt_overflow_iff hunits).mp
      (hasValue_one.lt_overflow_of_div hx hunits hfinite)

end Binary64

end GalaxyMarket
