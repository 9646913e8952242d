import Mathlib
import GalaxyMarket.Random

/-!
# The words of a stream

A word tells the counter that it was made of: each line of the mixing function can be undone
(`Stream.mix_bijective`). And the counter tells how often it was advanced, because its step is odd,
so that no two of the first `2 ^ 64` multiples of the step are equal (`Stream.skip_bijOn`). So
streams of different seeds never draw the same word at the same time, and one stream draws every
word once before it starts again (`Stream.words_never_coincide`).
-/

namespace GalaxyMarket.Stream

/-! ### Undoing the mixing function -/

/-- A word is changed by the bits that are `shift` places further up. -/
def fold (shift word : UInt64) : UInt64 := word ^^^ (word >>> shift)

/-- The only word that does not change when it is shifted is zero. -/
theorem eq_zero_of_shiftRight_eq {shift word : UInt64} (hshift : shift.toNat % 64 ≠ 0)
    (h : word >>> shift = word) : word = 0 := by
  have hword := congrArg UInt64.toNat h
  rw [UInt64.toNat_shiftRight, Nat.shiftRight_eq_div_pow] at hword
  rw [← UInt64.toNat_inj, UInt64.toNat_zero]
  by_contra hne
  refine absurd hword (Nat.ne_of_lt (Nat.div_lt_self (Nat.pos_of_ne_zero hne) ?_))
  exact Nat.one_lt_two_pow hshift

/-- Folding a word loses nothing. -/
theorem fold_injective {shift : UInt64} (hshift : shift.toNat % 64 ≠ 0) :
    Function.Injective (fold shift) := by
  intro v w h
  -- Where two words differ they still differ after the shift.
  have hxor : (v ^^^ w) >>> shift = v ^^^ w := by
    rw [UInt64.shiftRight_xor]
    calc v >>> shift ^^^ w >>> shift
        = (v ^^^ fold shift v) ^^^ (w ^^^ fold shift w) := by
          rw [fold, fold, ← UInt64.xor_assoc v v, UInt64.xor_self, UInt64.zero_xor,
            ← UInt64.xor_assoc w w, UInt64.xor_self, UInt64.zero_xor]
      _ = v ^^^ w ^^^ (fold shift v ^^^ fold shift w) := by ac_rfl
      _ = v ^^^ w := by rw [h, UInt64.xor_self, UInt64.xor_zero]
  exact UInt64.xor_eq_zero_iff.mp (eq_zero_of_shiftRight_eq hshift hxor)

/-- Neither does multiplication by a word that has an inverse. -/
theorem mul_injective {factor : UInt64} (inverse : UInt64) (h : factor * inverse = 1) :
    Function.Injective (· * factor) := by
  refine Function.LeftInverse.injective (g := (· * inverse)) fun word => ?_
  show word * factor * inverse = word
  rw [UInt64.mul_assoc, h, UInt64.mul_one]

/-- The mixing function folds three times and multiplies in between. -/
theorem mix_eq : mix = fold 31 ∘ (· * 0x94D049BB133111EB) ∘ fold 27 ∘
    (· * 0xBF58476D1CE4E5B9) ∘ fold 30 := rfl

/-- So none of its lines loses anything. -/
theorem mix_injective : Function.Injective mix := by
  rw [mix_eq]
  -- Odd factors have an inverse among words.
  have hfirst : Function.Injective (· * (0xBF58476D1CE4E5B9 : UInt64)) :=
    mul_injective 0x96DE1B173F119089 (by decide)
  have hsecond : Function.Injective (· * (0x94D049BB133111EB : UInt64)) :=
    mul_injective 0x319642B2D24D8EC3 (by decide)
  exact (fold_injective (by decide)).comp (hsecond.comp ((fold_injective (by decide)).comp
    (hfirst.comp (fold_injective (by decide)))))

/-- **The mixing function** makes every word of exactly one. -/
theorem mix_bijective : Function.Bijective mix := mix_injective.bijective_of_finite

/-! ### Advancing the counter -/

/-- The stream after some words. -/
def skip (s : Stream) (n : ℕ) : Stream := (fun s : Stream => s.word.2)^[n] s

/-- After `n` words the counter has made `n` steps. -/
theorem state_skip (s : Stream) (n : ℕ) :
    (s.skip n).state = s.state + UInt64.ofNat n * increment := by
  induction n with
  | zero => simp [skip]
  | succ n ih =>
    -- The last step is one more addition.
    rw [skip, Function.iterate_succ_apply']
    show (s.skip n).state + increment = _
    rw [ih, UInt64.ofNat_add, UInt64.add_mul, UInt64.add_assoc]
    rfl

/-- The step is odd, so that it has an inverse. -/
theorem increment_mul_inverse : increment * 0xF1DE83E19937733D = 1 := by decide

/-- The counter is all there is to a stream. -/
theorem eq_of_state_eq {s t : Stream} (h : s.state = t.state) : s = t := by
  cases s
  cases t
  exact congrArg Stream.mk h

/-- **The counter has full period**: it goes through all its values before it starts again. -/
theorem skip_bijOn (s : Stream) : Set.BijOn s.skip (Set.Iio (2 ^ 64)) Set.univ := by
  refine ⟨Set.mapsTo_univ _ _, ?_, fun t _ => ?_⟩
  · -- Multiples of the step by different numbers differ.
    intro m hm n hn h
    have hstate := congrArg state h
    rw [state_skip, state_skip, UInt64.add_right_inj] at hstate
    have hcount := mul_injective _ increment_mul_inverse hstate
    have htoNat := congrArg UInt64.toNat hcount
    rwa [UInt64.toNat_ofNat_of_lt' hm, UInt64.toNat_ofNat_of_lt' hn] at htoNat
  · -- As many steps as the inverse of the step fits into the way.
    refine ⟨((t.state - s.state) * 0xF1DE83E19937733D).toNat, UInt64.toNat_lt _, ?_⟩
    refine eq_of_state_eq ?_
    rw [state_skip, UInt64.ofNat_toNat, UInt64.mul_assoc, UInt64.mul_comm _ increment,
      increment_mul_inverse, UInt64.mul_one, UInt64.add_comm, UInt64.sub_add_cancel]

/-- After `2 ^ 64` steps the counter is back. -/
theorem skip_two_pow (s : Stream) : s.skip (2 ^ 64) = s := by
  refine eq_of_state_eq ?_
  rw [state_skip]
  have hzero : UInt64.ofNat (2 ^ 64) = 0 := rfl
  rw [hzero, UInt64.zero_mul, UInt64.add_zero]

/-! ### Words -/

/-- The word that is drawn after `n` others. -/
def nth (s : Stream) (n : ℕ) : UInt64 := (s.skip n).word.1

/-- A word is made of the counter after one more step. -/
theorem nth_eq (s : Stream) (n : ℕ) : s.nth n = mix ((s.skip n).state + increment) := rfl

/-- Streams are at the same word only if they are at the same place. -/
theorem skip_eq_of_nth_eq {s t : Stream} {m n : ℕ} (h : s.nth m = t.nth n) :
    s.skip m = t.skip n := by
  rw [nth_eq, nth_eq] at h
  exact eq_of_state_eq ((UInt64.add_left_inj increment).mp (mix_injective h))

/-- Streams of different seeds are never at the same place. -/
theorem nth_injective (n : ℕ) : Function.Injective fun seed => (ofSeed seed).nth n := by
  intro seed seed' h
  have hstate := congrArg state (skip_eq_of_nth_eq h)
  rw [state_skip, state_skip] at hstate
  exact (UInt64.add_left_inj _).mp hstate

/-- Every word comes up exactly once in a period. -/
theorem nth_bijOn (s : Stream) : Set.BijOn s.nth (Set.Iio (2 ^ 64)) Set.univ := by
  refine ⟨Set.mapsTo_univ _ _, ?_, fun word _ => ?_⟩
  · intro m hm n hn h
    exact s.skip_bijOn.injOn hm hn (skip_eq_of_nth_eq h)
  · -- The counter that the word is made of comes up.
    obtain ⟨counter, rfl⟩ := mix_bijective.surjective word
    obtain ⟨n, hn, hskip⟩ := s.skip_bijOn.surjOn (Set.mem_univ ⟨counter - increment⟩)
    refine ⟨n, hn, ?_⟩
    rw [nth_eq, hskip, UInt64.sub_add_cancel]

/-- **Words never coincide.** Streams of different seeds draw different words, however many they
have drawn before; each stream draws every word once among the first `2 ^ 64`, and then the same
ones again. -/
theorem words_never_coincide :
    (∀ n, Function.Injective fun seed => (ofSeed seed).nth n) ∧
      (∀ seed, Set.BijOn (ofSeed seed).nth (Set.Iio (2 ^ 64)) Set.univ) ∧
      Function.Bijective mix ∧
      ∀ s : Stream, Set.BijOn s.skip (Set.Iio (2 ^ 64)) Set.univ ∧ s.skip (2 ^ 64) = s :=
  ⟨nth_injective, fun seed => (ofSeed seed).nth_bijOn, mix_bijective,
    fun s => ⟨s.skip_bijOn, s.skip_two_pow⟩⟩

end GalaxyMarket.Stream
