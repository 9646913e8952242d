import Mathlib
import GalaxyMarket.Market.Intensity
import GalaxyMarket.Proofs.Exact

/-!
# A tracker and its sample

A tracker drifts, and is then moved in proportion to its distance from a sample. The move is away
from the sample: with exact numbers the distance grows by the factor `1 + rate * dt`, as far as the
floor at zero lets it (`abs_track_sub_of_le`, `abs_track_sub_of_lt`). So it never shrinks
(`abs_sub_le_abs_track_sub`), and stays the same only if nothing moves or the tracker had drifted
onto the sample (`abs_track_sub_le_iff`).
-/

namespace GalaxyMarket

theorem nonnegative_eq (x : ℝ) : nonnegative x = max x 0 := by
  unfold nonnegative Scalar.maxNum Scalar.isNumber
  rcases lt_or_ge 0 x with h | h
  · simp [h, h.le]
  · simp [h, not_lt.mpr h]

section

variable {rate dt tracker sample : ℝ}

/-- With exact numbers a tracker ends at the sample plus a multiple of its distance to it. -/
theorem track_eq (rate dt tracker sample : ℝ) : track rate dt tracker sample =
    max (sample + (1 + rate * dt) * (tracker + rate * dt - sample)) 0 := by
  have hmoved : tracker + rate * dt - rate * (sample - (tracker + rate * dt)) * dt =
      sample + (1 + rate * dt) * (tracker + rate * dt - sample) := by ring
  unfold track
  rw [nonnegative_eq, hmoved]

theorem track_nonneg : 0 ≤ track rate dt tracker sample := by
  rw [track_eq]
  exact le_max_right _ _

/-- From above, the distance to the sample grows in proportion. -/
theorem abs_track_sub_of_le (hsample : 0 ≤ sample) (hmove : 0 ≤ rate * dt)
    (h : sample ≤ tracker + rate * dt) : |track rate dt tracker sample - sample| =
      (1 + rate * dt) * |tracker + rate * dt - sample| := by
  have hexcess : 0 ≤ (1 + rate * dt) * (tracker + rate * dt - sample) :=
    mul_nonneg (by linarith) (sub_nonneg.mpr h)
  rw [track_eq, max_eq_left (by linarith), add_sub_cancel_left, abs_of_nonneg hexcess,
    abs_of_nonneg (sub_nonneg.mpr h)]

/-- From below as well, until the tracker comes to the floor. -/
theorem abs_track_sub_of_lt (hsample : 0 ≤ sample) (hmove : 0 ≤ rate * dt)
    (h : tracker + rate * dt < sample) : |track rate dt tracker sample - sample| =
      min ((1 + rate * dt) * |tracker + rate * dt - sample|) sample := by
  have hlack : (1 + rate * dt) * (tracker + rate * dt - sample) ≤ 0 :=
    mul_nonpos_of_nonneg_of_nonpos (by linarith) (by linarith)
  rw [track_eq, abs_of_neg (sub_neg.mpr h), abs_of_nonpos]
  · rcases le_total (sample + (1 + rate * dt) * (tracker + rate * dt - sample)) 0 with hle | hle
    · rw [max_eq_right hle, min_eq_right (by linarith)]
      ring
    · rw [max_eq_left hle, min_eq_left (by linarith)]
      ring
  · rw [sub_nonpos]
    exact max_le (by linarith) hsample

/-- **A step does not bring a tracker nearer to the sample** than it had drifted. -/
theorem abs_sub_le_abs_track_sub (htracker : 0 ≤ tracker) (hsample : 0 ≤ sample)
    (hmove : 0 ≤ rate * dt) :
    |tracker + rate * dt - sample| ≤ |track rate dt tracker sample - sample| := by
  have hgrow : |tracker + rate * dt - sample| ≤
      (1 + rate * dt) * |tracker + rate * dt - sample| :=
    le_mul_of_one_le_left (abs_nonneg _) (by linarith)
  rcases le_or_gt sample (tracker + rate * dt) with h | h
  · rw [abs_track_sub_of_le hsample hmove h]
    exact hgrow
  · rw [abs_track_sub_of_lt hsample hmove h]
    refine le_min hgrow ?_
    -- Nothing below the sample is farther from it than zero.
    rw [abs_of_neg (sub_neg.mpr h)]
    linarith

/-- The distance stays the same only if nothing moves, or there was none. -/
theorem abs_track_sub_le_iff (htracker : 0 ≤ tracker) (hsample : 0 ≤ sample)
    (hmove : 0 ≤ rate * dt) :
    |track rate dt tracker sample - sample| ≤ |tracker + rate * dt - sample| ↔
      rate * dt = 0 ∨ tracker + rate * dt = sample := by
  constructor
  · intro hle
    -- Otherwise the factor exceeds one and has a distance to work on.
    by_contra hne
    rw [not_or] at hne
    have hpos : 0 < rate * dt := lt_of_le_of_ne hmove (Ne.symm hne.1)
    have hapart : 0 < |tracker + rate * dt - sample| := abs_pos.mpr (sub_ne_zero.mpr hne.2)
    have hgrow : |tracker + rate * dt - sample| <
        (1 + rate * dt) * |tracker + rate * dt - sample| :=
      lt_mul_of_one_lt_left hapart (by linarith)
    rcases le_or_gt sample (tracker + rate * dt) with h | h
    · rw [abs_track_sub_of_le hsample hmove h] at hle
      linarith
    · rw [abs_track_sub_of_lt hsample hmove h] at hle
      refine absurd hle (not_le.mpr (lt_min hgrow ?_))
      rw [abs_of_neg (sub_neg.mpr h)]
      linarith
  · rintro (hzero | hzero)
    · rw [track_eq, hzero]
      have : sample + (1 + 0) * (tracker + 0 - sample) = tracker := by ring
      rw [this, max_eq_left htracker, add_zero]
    · rw [track_eq, hzero, sub_self, mul_zero, add_zero, max_eq_left hsample, sub_self]

/-- When no time passes, a tracker stays. -/
theorem track_idle (rate sample : ℝ) (htracker : 0 ≤ tracker) :
    track rate 0 tracker sample = tracker := by
  rw [track_eq]
  have : sample + (1 + rate * 0) * (tracker + rate * 0 - sample) = tracker := by ring
  rw [this, max_eq_left htracker]

/-- A step at most doubles a tracker that has drifted by one. -/
theorem track_le (htracker : 0 ≤ tracker) (hsample : 0 ≤ sample) (hmove : 0 ≤ rate * dt)
    (hsmall : rate * dt ≤ 1) : track rate dt tracker sample ≤ 2 * (tracker + 1) := by
  rw [track_eq]
  refine max_le ?_ (by linarith)
  have hdrift : tracker + rate * dt ≤ tracker + 1 := by linarith
  calc sample + (1 + rate * dt) * (tracker + rate * dt - sample)
      = (1 + rate * dt) * (tracker + rate * dt) - rate * dt * sample := by ring
    _ ≤ (1 + rate * dt) * (tracker + rate * dt) := sub_le_self _ (mul_nonneg hmove hsample)
    _ ≤ 2 * (tracker + 1) := mul_le_mul (by linarith) hdrift (by linarith) (by norm_num)

/-- It does so when the sample is zero. -/
theorem track_one_zero (htracker : 0 ≤ tracker) : track 1 1 tracker 0 = 2 * (tracker + 1) := by
  rw [track_eq, max_eq_left (by linarith)]
  ring

end

end GalaxyMarket
