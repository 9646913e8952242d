import GalaxyMarket.Commodity.Source
import GalaxyMarket.Proofs.Draws

/-!
# Scattered samples

A source that scatters about a base takes 24 words for each sample, the first twelve for the supply
(`Source.draw_jittered`). Read exactly, a nearly normal number is at most six away from zero, so
that no sample is further from the base than six times the jitter allows
(`Source.scattered_isNear`).
-/

namespace GalaxyMarket

namespace Source

section

variable {α : Type} [Scalar α]

/-- The sample that is made of the next 24 words of a stream: twelve for the supply, then twelve for
the demand. -/
def scattered (base : Sample α) (jitter : α) (s : Stream) : Sample α where
  supply := base.supply * (1 + jitter * s.nthGaussian 0)
  demand := base.demand * (1 + jitter * s.nthGaussian 12)

/-- One half of a sample takes twelve words. -/
theorem scatter_eq (base jitter : α) (s : Stream) :
    scatter base jitter s = (base * (1 + jitter * s.nthGaussian 0), s.skip 12) := by
  rw [scatter, Stream.gaussian_eq]

/-- **A sample takes 24 words.** -/
theorem draw_jittered (base : Sample α) (jitter : α) (s : Stream) :
    (jittered base jitter s).draw =
      (scattered base jitter s, jittered base jitter (s.skip 24)) := by
  rw [draw, scatter_eq]
  dsimp only
  -- The demand is drawn from the stream that the supply has left.
  rw [scatter_eq, Stream.nthGaussian_skip, Stream.skip_skip]
  rfl

/-- So do all samples before it. -/
theorem drawMany_jittered (base : Sample α) (jitter : α) (s : Stream) (n : ℕ) :
    ((jittered base jitter s).drawMany n).2 = jittered base jitter (s.skip (24 * n)) := by
  induction n generalizing s with
  | zero => rfl
  | succ n ih =>
    -- The other samples are drawn from a stream that is 24 words further.
    rw [drawMany, draw_jittered]
    dsimp only
    rw [ih, Stream.skip_skip, Nat.mul_succ, Nat.add_comm]

/-- The sample with number `n` is made of the 24 words behind the first `24 * n`. -/
theorem draw_drawMany_ofSeed (base : Sample α) (jitter : α) (seed : UInt64) (n : ℕ) :
    ((ofSeed base jitter seed).drawMany n).2.draw =
      (scattered base jitter ((Stream.ofSeed seed).skip (24 * n)),
        jittered base jitter ((Stream.ofSeed seed).skip (24 * (n + 1)))) := by
  rw [ofSeed, drawMany_jittered, draw_jittered, Stream.skip_skip, Nat.mul_succ]

end

/-! ### How far a sample is from the base -/

/-- A sample that is no further from the base than six times the jitter allows. -/
structure IsNear (base : Sample ℝ) (jitter : ℝ) (sample : Sample ℝ) : Prop where
  supply : |sample.supply - base.supply| ≤ 6 * |jitter * base.supply|
  demand : |sample.demand - base.demand| ≤ 6 * |jitter * base.demand|

/-- The sum of twelve numbers from zero to one, less six. -/
theorem abs_nthGaussian_le (s : Stream) (n : ℕ) : |(s.nthGaussian n : ℝ)| ≤ 6 := by
  obtain ⟨x, ⟨hlow, hhigh⟩, hx⟩ := Stream.exists_reads_nthGaussian Binary64.isReading_eq s n
  rw [hx]
  exact abs_le.mpr ⟨hlow, hhigh⟩

/-- What is multiplied by nearly one moves by as much as the factor is away from one. -/
theorem abs_scattered_sub_le (base jitter : ℝ) {g : ℝ} (hg : |g| ≤ 6) :
    |base * (1 + jitter * g) - base| ≤ 6 * |jitter * base| := by
  calc |base * (1 + jitter * g) - base| = |g * (jitter * base)| := by ring_nf
    _ = |g| * |jitter * base| := abs_mul _ _
    _ ≤ 6 * |jitter * base| := mul_le_mul_of_nonneg_right hg (abs_nonneg _)

theorem scattered_isNear (base : Sample ℝ) (jitter : ℝ) (s : Stream) :
    IsNear base jitter (scattered base jitter s) where
  supply := abs_scattered_sub_le base.supply jitter (abs_nthGaussian_le s 0)
  demand := abs_scattered_sub_le base.demand jitter (abs_nthGaussian_le s 12)

/-- **Samples stay near their base.** Whatever the seed is and however many words were drawn before,
a unit draw is `k / 2 ^ 53` with `k` the upper 53 bits of a word, a signed draw is from -1 up to but
not including 1 and a nearly normal number from -6 to 6, in double precision as in exact arithmetic.
Each sample takes the next 24 words, twelve of them for its supply, and in exact arithmetic it is no
further from the base than six times the jitter allows. -/
theorem samples_stay_near_base :
    (∀ seed n, ((Stream.ofSeed seed).skip n).DrawsWithinBounds Binary64.Denotes) ∧
      (∀ seed n, ((Stream.ofSeed seed).skip n).DrawsWithinBounds (Eq : ℝ → ℝ → Prop)) ∧
      (∀ {α : Type} [Scalar α] (base : Sample α) (jitter : α) (seed : UInt64) (n : ℕ),
        ((ofSeed base jitter seed).drawMany n).2.draw =
          (scattered base jitter ((Stream.ofSeed seed).skip (24 * n)),
            jittered base jitter ((Stream.ofSeed seed).skip (24 * (n + 1))))) ∧
      ∀ (base : Sample ℝ) (jitter : ℝ) (seed : UInt64) (n : ℕ),
        IsNear base jitter ((ofSeed base jitter seed).drawMany n).2.draw.1 := by
  refine ⟨fun seed n => Stream.drawsWithinBounds Binary64.isReading_denotes _,
    fun seed n => Stream.drawsWithinBounds Binary64.isReading_eq _, draw_drawMany_ofSeed,
    fun base jitter seed n => ?_⟩
  rw [draw_drawMany_ofSeed]
  exact scattered_isNear base jitter _

end Source

end GalaxyMarket
