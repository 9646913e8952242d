import GalaxyMarket.Proofs.Number.Reading
import GalaxyMarket.Proofs.Random

/-!
# What a stream draws

Every draw takes a fixed number of words: a unit or signed draw takes one, a nearly normal number
takes twelve (`Stream.unit_eq`, `Stream.signed_eq`, `Stream.gaussian_eq`). So earlier draws matter
only by how many words they took.

A unit draw is a whole number below `2 ^ 53`, divided by `2 ^ 53`. In double precision neither this
nor a signed draw is rounded. The sum of a nearly normal number may be, but it never leaves the
interval that the exact sum cannot leave (`Stream.drawsWithinBounds`).
-/

namespace GalaxyMarket.Stream

open Binary64

/-! ### Words that are taken -/

/-- The first word of some is taken first. -/
theorem skip_succ (s : Stream) (n : ℕ) : s.skip (n + 1) = (s.skip 1).skip n :=
  Function.iterate_succ_apply _ n s

/-- Words that are taken add up. -/
theorem skip_skip (s : Stream) (m n : ℕ) : (s.skip m).skip n = s.skip (m + n) := by
  rw [skip, skip, skip, Nat.add_comm, Function.iterate_add_apply]

section

variable {α : Type} [Scalar α]

/-- The unit draw that is made of the word after `n` others. -/
def nthUnit (s : Stream) (n : ℕ) : α := ((s.skip n).unit : α × Stream).1

/-- Draws behind others are counted from the start. -/
theorem nthUnit_skip (s : Stream) (m n : ℕ) :
    (s.skip m).nthUnit n = (s.nthUnit (m + n) : α) := by
  rw [nthUnit, nthUnit, skip_skip]

/-- A unit draw takes one word, -/
theorem unit_eq (s : Stream) : s.unit = ((s.nthUnit 0 : α), s.skip 1) := rfl

/-- and so does a signed one. -/
theorem signed_eq (s : Stream) :
    s.signed = ((s.nthUnit 0 : α) * Scalar.ofInt 2 - 1, s.skip 1) := rfl

/-- Several unit draws take as many words. -/
theorem units_eq (s : Stream) (n : ℕ) :
    s.units n = ((List.range n).map fun i => (s.nthUnit i : α), s.skip n) := by
  induction n generalizing s with
  | zero => rfl
  | succ n ih =>
    -- The draws behind the first are those of a stream that is one word further.
    rw [units, unit_eq]
    dsimp only
    rw [ih, List.range_succ_eq_map, List.map_cons, List.map_map, skip_succ s n]
    refine congrArg (Prod.mk · _) (congrArg (List.cons _) (List.map_congr_left fun i _ => ?_))
    rw [nthUnit_skip, Nat.add_comm]
    rfl

/-- The nearly normal number that is made of the words after `n` others. -/
def nthGaussian (s : Stream) (n : ℕ) : α :=
  Scalar.sum ((List.range 12).map fun i => s.nthUnit (n + i)) - Scalar.ofInt 6

/-- What was taken before shifts the place of the twelve words. -/
theorem nthGaussian_skip (s : Stream) (m n : ℕ) :
    (s.skip m).nthGaussian n = (s.nthGaussian (m + n) : α) := by
  simp only [nthGaussian, nthUnit_skip, Nat.add_assoc]

/-- **A nearly normal number** is made of twelve words. -/
theorem gaussian_eq (s : Stream) : s.gaussian = ((s.nthGaussian 0 : α), s.skip 12) := by
  rw [gaussian, units_eq, nthGaussian]
  simp only [Nat.zero_add]

end

/-! ### Bounds -/

/-- There are 53 upper bits in a word. -/
theorem upperBits_lt (word : UInt64) : word.toNat / 2 ^ 11 < 2 ^ 53 := by
  have hlt : word.toNat < 2 ^ 64 := word.toNat_lt
  omega

/-- **What a stream draws next**, with its numbers read as real ones: the upper bits of a word,
which are divided by `2 ^ 53`, and two numbers between bounds. The rest of the stream is left. -/
structure DrawsWithinBounds {α : Type} [Scalar α] (reads : α → ℝ → Prop) (s : Stream) : Prop where
  unit : ∃ k < 2 ^ 53, k = (s.nth 0).toNat / 2 ^ 11 ∧ reads (s.unit : α × Stream).1 (k / 2 ^ 53)
  signed : ∃ x ∈ Set.Ico (-1 : ℝ) 1, reads (s.signed : α × Stream).1 x
  gaussian : ∃ x ∈ Set.Icc (-6 : ℝ) 6, reads (s.gaussian : α × Stream).1 x
  unit_rest : (s.unit : α × Stream).2 = s.skip 1
  signed_rest : (s.signed : α × Stream).2 = s.skip 1
  gaussian_rest : (s.gaussian : α × Stream).2 = s.skip 12

section

variable {α : Type} [Scalar α] {reads : α → ℝ → Prop}

/-- **A unit draw** is the upper 53 bits of a word, divided by `2 ^ 53`. -/
theorem reads_nthUnit (h : IsReading reads) (s : Stream) (n : ℕ) :
    reads (s.nthUnit n) (((s.nth n).toNat / 2 ^ 11 : ℕ) / 2 ^ 53) := by
  have hlt := upperBits_lt (s.nth n)
  have hbits : (s.nth n >>> 11).toNat = (s.nth n).toNat / 2 ^ 11 := by
    rw [UInt64.toNat_shiftRight, Nat.shiftRight_eq_div_pow]
    rfl
  have hscale : reads (1 / Scalar.ofInt (2 ^ 53 : ℕ)) (1 / 2 ^ 53) := by
    have hcast : ((2 ^ 53 : ℕ) : ℝ) = 2 ^ 53 := by norm_num
    have hden := h.ofInt (le_refl (2 ^ 53))
    have hdouble := isDouble_natCast_div (Nat.one_le_two_pow (n := 53)) (by decide : 53 ≤ 1074)
    rw [hcast] at hden
    rw [Nat.cast_one] at hdouble
    exact h.div h.one hden zero_le_one (by positivity) hdouble
  have hdouble := isDouble_natCast_div hlt.le (by decide : 53 ≤ 1074)
  -- Neither the factor nor the product has more bits than fit.
  rw [← mul_one_div] at hdouble ⊢
  rw [← hbits] at hlt hdouble ⊢
  exact h.mul (h.ofInt hlt.le) hscale (by positivity) (by positivity) hdouble

/-- A signed draw has no more bits than a unit draw has. -/
theorem reads_signed (h : IsReading reads) (s : Stream) :
    reads (s.signed : α × Stream).1 (((s.nth 0).toNat / 2 ^ 11 : ℕ) / 2 ^ 52 - 1) := by
  have hlt := upperBits_lt (s.nth 0)
  have hunit := reads_nthUnit h s 0
  generalize (s.nth 0).toNat / 2 ^ 11 = k at hlt hunit ⊢
  have hdouble : IsDouble (k / 2 ^ 52) := isDouble_natCast_div hlt.le (by decide)
  -- Twice a unit draw has a smaller divisor, and less one it is no longer than before.
  have htwice : (k / 2 ^ 53 * (2 : ℕ) : ℝ) = k / 2 ^ 52 := by
    push_cast
    ring
  have hdifference : IsDouble (k / 2 ^ 52 - 1) := by
    have hdouble := isDouble_div (m := (k : ℤ) - 2 ^ 52) (by omega) (by decide : 52 ≤ 1074)
    have hcast : (((k : ℤ) - 2 ^ 52 : ℤ) / 2 ^ 52 : ℝ) = k / 2 ^ 52 - 1 := by
      push_cast
      norm_num [sub_div]
    rwa [hcast] at hdouble
  have hpos : (0 : ℝ) ≤ k / 2 ^ 53 := div_nonneg (Nat.cast_nonneg k) (pow_nonneg two_pos.le 53)
  rw [signed_eq]
  refine h.sub ?_ h.one hdifference
  rw [← htwice] at hdouble ⊢
  exact h.mul hunit (h.ofInt (n := 2) (by norm_num)) hpos (Nat.cast_nonneg 2) hdouble

/-- Twelve numbers from zero to one, less six, are from minus six to six, whatever is rounded. -/
theorem exists_reads_nthGaussian (h : IsReading reads) (s : Stream) (n : ℕ) :
    ∃ x ∈ Set.Icc (-6 : ℝ) 6, reads (s.nthGaussian n) x := by
  have hunits : ∀ u ∈ (List.range 12).map fun i => (s.nthUnit (n + i) : α),
      ∃ r ∈ Set.Icc (0 : ℝ) 1, reads u r := by
    intro u hu
    obtain ⟨i, -, rfl⟩ := List.mem_map.mp hu
    refine ⟨_, ⟨by positivity, ?_⟩, reads_nthUnit h s (n + i)⟩
    rw [div_le_one (by positivity)]
    exact_mod_cast (upperBits_lt (s.nth (n + i))).le
  obtain ⟨t, ht, hsum⟩ := h.exists_sum hunits (by simp)
  rw [List.length_map, List.length_range] at ht
  -- Both ends of the interval are whole numbers, and so doubles.
  refine h.exists_sub hsum (h.ofInt (n := 6) (by decide)) ?_ ?_ ?_
  · exact_mod_cast isDouble_intCast (m := -6) (by decide)
  · exact_mod_cast isDouble_intCast (m := 6) (by decide)
  · have h₀ := ht.1
    have h₁ := ht.2
    push_cast at h₁ ⊢
    constructor <;> linarith

/-- **All draws are within their bounds**, of exact numbers as of doubles. -/
theorem drawsWithinBounds (h : IsReading reads) (s : Stream) : DrawsWithinBounds reads s where
  unit := ⟨_, upperBits_lt (s.nth 0), rfl, reads_nthUnit h s 0⟩
  signed := by
    refine ⟨_, ⟨?_, ?_⟩, reads_signed h s⟩
    · have hpos : (0 : ℝ) ≤ ((s.nth 0).toNat / 2 ^ 11 : ℕ) / 2 ^ 52 := by positivity
      linarith
    · have hlt : (((s.nth 0).toNat / 2 ^ 11 : ℕ) : ℝ) < 2 ^ 53 := by
        exact_mod_cast upperBits_lt (s.nth 0)
      have htwo : (((s.nth 0).toNat / 2 ^ 11 : ℕ) : ℝ) / 2 ^ 52 < 2 := by
        rw [div_lt_iff₀ (by positivity)]
        linarith
      linarith
  gaussian := by
    rw [gaussian_eq]
    exact exists_reads_nthGaussian h s 0
  unit_rest := rfl
  signed_rest := rfl
  gaussian_rest := by rw [gaussian_eq]

end

end GalaxyMarket.Stream
