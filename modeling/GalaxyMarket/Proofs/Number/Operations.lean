import GalaxyMarket.Proofs.Number.Packing

/-!
# Operations on doubles round once

A difference, a product and a quotient of finite doubles are worked out exactly and then rounded to
a double (`Binary64.IsRounded.sub`, `Binary64.IsRounded.mul`, `Binary64.IsRounded.div`), which is
what `Binary64.roundUnits` does with the exact ratio. Sums of any doubles do not depend on the order
of the two summands (`Binary64.unpackedAdd_comm`).

The exact result comes as the floor of a quotient and what the remainder says about the place behind
it. As bits are shifted out, this is again the floor of a quotient with a remainder
(`Binary64.extended`, `Binary64.shiftRightOne_extended`), so that the result of all shifts is
rounded as the exact quotient would be (`Binary64.isRounded_roundWithAccuracy`).
-/

namespace GalaxyMarket

namespace Binary64

open Float.Model UnpackedFloat

/-! ### Shifting out bits -/

/-- The floor of a quotient, and what the remainder says about the place behind it: whether it is a
half or more, and whether it is neither nothing nor a half. -/
def extended (num den : ℕ) : ExtendedMantissa where
  mantissa := num / den
  roundBit := decide (den ≤ 2 * (num % den))
  stickyBit := decide (num % den ≠ 0 ∧ 2 * (num % den) ≠ den)

/-- The four ways in which a remainder can lie to the half of its divisor, and what each is taken
for. -/
theorem accuracyOfFraction_cases (rest den : ℕ) :
    (rest = 0 ∧ accuracyOfFraction rest den = .exact) ∨
    (0 < rest ∧ 2 * rest < den ∧ accuracyOfFraction rest den = .inexact .lt) ∨
    (0 < rest ∧ 2 * rest = den ∧ accuracyOfFraction rest den = .inexact .eq) ∨
    (0 < rest ∧ den < 2 * rest ∧ accuracyOfFraction rest den = .inexact .gt) := by
  unfold accuracyOfFraction
  rcases Nat.eq_zero_or_pos rest with hzero | hpos
  · exact Or.inl ⟨hzero, if_pos hzero⟩
  · rw [if_neg hpos.ne']
    rcases lt_trichotomy (2 * rest) den with h | h | h
    · exact Or.inr (Or.inl ⟨hpos, h, by rw [compare_lt_iff_lt.mpr h]⟩)
    · exact Or.inr (Or.inr (Or.inl ⟨hpos, h, by rw [compare_eq_iff_eq.mpr h]⟩))
    · exact Or.inr (Or.inr (Or.inr ⟨hpos, h, by rw [compare_gt_iff_gt.mpr h]⟩))

/-- Floor and remainder are what the model keeps of a quotient. -/
theorem ofMantissaAndAccuracy_eq (num : ℕ) {den : ℕ} (hden : 0 < den) :
    ExtendedMantissa.ofMantissaAndAccuracy (num / den) (accuracyOfFraction (num % den) den) =
      extended num den := by
  unfold extended
  rcases accuracyOfFraction_cases (num % den) den with
    ⟨h, hacc⟩ | ⟨hpos, h, hacc⟩ | ⟨hpos, h, hacc⟩ | ⟨hpos, h, hacc⟩
  · rw [hacc, decide_eq_false (by omega), decide_eq_false (by omega)]
    rfl
  · rw [hacc, decide_eq_false (by omega), decide_eq_true (by omega)]
    rfl
  · rw [hacc, decide_eq_true (by omega), decide_eq_false (by omega)]
    rfl
  · rw [hacc, decide_eq_true (by omega), decide_eq_true (by omega)]
    rfl

/-- Rounding by the two bits is rounding by the accuracy that they stand for. -/
theorem roundedMantissa_of (m : ℕ) (acc : Accuracy) :
    (ExtendedMantissa.ofMantissaAndAccuracy m acc).roundedMantissa = acc.roundToNearestEven m := by
  cases acc with
  | exact => rfl
  | inexact o => cases o <;> rfl

/-- With these bits, the floor is rounded as the quotient is. -/
theorem roundedMantissa_extended (num : ℕ) {den : ℕ} (hden : 0 < den) :
    (extended num den).roundedMantissa = Rounding.halfEven num den := by
  rw [← ofMantissaAndAccuracy_eq num hden, roundedMantissa_of]
  -- Rounding up or down goes with the place of the remainder; the other pairs do not occur.
  rcases Rounding.halfEven_cases num den with ⟨hround, hdown⟩ | ⟨hround, hup⟩ <;>
    rcases accuracyOfFraction_cases (num % den) den with
      ⟨h, hacc⟩ | ⟨hpos, h, hacc⟩ | ⟨hpos, h, hacc⟩ | ⟨hpos, h, hacc⟩ <;>
  · rw [hacc, hround, Accuracy.roundToNearestEven]
    try omega

/-- **Shifting out a bit** is dividing by two. -/
theorem shiftRightOne_extended (num : ℕ) {den : ℕ} (hden : 0 < den) :
    (extended num den).shiftRightOne = extended num (den * 2) := by
  have hmod : num % den < den := Nat.mod_lt _ hden
  have hrest : num % (den * 2) = num % den + den * (num / den % 2) := Nat.mod_mul
  unfold extended ExtendedMantissa.shiftRightOne
  dsimp only
  rw [Nat.div_div_eq_div_mul, hrest, ← Bool.decide_or]
  -- The last bit of the floor becomes the first one behind it.
  rcases Nat.mod_two_eq_zero_or_one (num / den) with hbit | hbit <;>
    rw [hbit] <;> refine congrArg₂ (ExtendedMantissa.mk _) ?_ (decide_eq_decide.mpr (by omega))
  · exact (decide_eq_false (by omega)).symm
  · exact (decide_eq_true (by omega)).symm

/-- Shifting out several bits is dividing by the power of two. -/
theorem shiftRight_extended (num : ℕ) {den : ℕ} (hden : 0 < den) (n : ℕ) :
    extended num den >>> n = extended num (den * 2 ^ n) := by
  change n.repeat ExtendedMantissa.shiftRightOne (extended num den) = _
  induction n with
  | zero => rw [Nat.pow_zero, Nat.mul_one]; rfl
  | succ n ih =>
    rw [Nat.repeat, ih, shiftRightOne_extended num (Nat.mul_pos hden (Nat.two_pow_pos n)),
      Nat.pow_succ, Nat.mul_assoc]

/-! ### Rounding -/

/-- A canonical significand is at the exponent where it belongs, -/
theorem targetExponent_of_isCanonical {m : ℕ} {e : ℤ} (h : IsCanonical m e) :
    Format.binary64.targetExponent (totalExponent m e) = e := by
  have hlog := log2_le_of_lt h.lt
  have hfull := h.log2_eq
  have hle := h.le
  show max ((m.log2 + 1 + e : ℤ) - 53) (-1074) = e
  omega

/-- so that no bit of it is shifted out. -/
theorem shiftToTargetExponent_of_isCanonical {m : ℕ} {e : ℤ} (h : IsCanonical m e)
    (acc : Accuracy) :
    shiftToTargetExponent Format.binary64 m e acc = (.ofMantissaAndAccuracy m acc, e) := by
  unfold shiftToTargetExponent shiftToExponent
  rw [targetExponent_of_isCanonical h]
  simp only [Int.sub_self]
  show (ExtendedMantissa.ofMantissaAndAccuracy m acc, e + 0) = _
  rw [Int.add_zero]

/-- One that has become a bit too long is shifted by that bit. -/
theorem shiftToTargetExponent_two_pow {e : ℤ} (he : -1074 ≤ e) :
    shiftToTargetExponent Format.binary64 (2 ^ 53) e .exact = (⟨2 ^ 52, false, false⟩, e + 1) := by
  have htarget : Format.binary64.targetExponent (totalExponent (2 ^ 53) e) = e + 1 := by
    show max (((2 ^ 53).log2 + 1 + e : ℤ) - 53) (-1074) = e + 1
    rw [Nat.log2_two_pow]
    omega
  unfold shiftToTargetExponent shiftToExponent
  rw [htarget]
  have hone : (e + 1 - e).toNat = 1 := by omega
  simp only [hone]
  rfl

/-- What the first shift leaves is rounded, and shifted once more if that makes it too long. -/
theorem isRounded_of_shift (sign : Sign) {m : ℕ} {e e' : ℤ} {acc : Accuracy} {em : ExtendedMantissa}
    (hshift : shiftToTargetExponent Format.binary64 m e acc = (em, e')) {bits : ℕ}
    (he' : e' + 1074 = bits) (hle : em.roundedMantissa ≤ 2 ^ 53)
    (hfull : 2 ^ 52 ≤ em.roundedMantissa ∨ bits = 0) :
    IsRounded sign (em.roundedMantissa * 2 ^ bits)
      (roundWithAccuracy Format.binary64 sign m e acc) := by
  unfold roundWithAccuracy
  by_cases heq : em.roundedMantissa = 2 ^ 53
  · -- The bit by which it has become longer is zero.
    have hm : IsCanonical (2 ^ 52) (e' + 1) := ⟨by decide, by omega, Or.inl le_rfl⟩
    have hvalue : 2 ^ 53 * 2 ^ bits = 2 ^ 52 <<< (e' + 1 + 1074).toNat := by
      have hbits : (e' + 1 + 1074).toNat = bits + 1 := by omega
      rw [hbits, Nat.shiftLeft_eq, Nat.pow_succ 2 bits]
      omega
    simp only [hshift, heq, shiftToTargetExponent_two_pow (show -1074 ≤ e' by omega)]
    rw [hvalue]
    exact .finite (by decide) hm
  · have hm : IsCanonical em.roundedMantissa e' :=
      ⟨by omega, by omega, hfull.imp id fun hzero => by omega⟩
    have hvalue : em.roundedMantissa * 2 ^ bits = em.roundedMantissa <<< (e' + 1074).toNat := by
      rw [he', Int.toNat_natCast, Nat.shiftLeft_eq]
    simp only [hshift, shiftToTargetExponent_of_isCanonical hm]
    rw [hvalue]
    split
    · next hzero =>
      change em.roundedMantissa = 0 at hzero
      rw [hzero, Nat.zero_shiftLeft]
      exact .zero
    · next hne => exact .finite (Nat.pos_of_ne_zero hne) hm

/-- Dividing by a power of two takes off as many bits. -/
theorem log2_div_two_pow (n k : ℕ) : (n / 2 ^ k).log2 = n.log2 - k := by
  rw [Nat.log2_eq_log_two, Nat.log2_eq_log_two, Nat.log_div_base_pow]

/-- A quotient has as many more bits as its numerator is shifted by. -/
theorem log2_mul_two_pow_div {num den : ℕ} (hden : 0 < den) (hpos : 0 < num / den) (k : ℕ) :
    (num * 2 ^ k / den).log2 = (num / den).log2 + k := by
  have hlow : 2 ^ (num / den).log2 ≤ num / den := Nat.log2_self_le hpos.ne'
  have hhigh : num / den < 2 ^ ((num / den).log2 + 1) := Nat.lt_log2_self
  have hfloor : 2 ^ ((num / den).log2 + k) ≤ num * 2 ^ k / den := by
    rw [Nat.le_div_iff_mul_le hden, Nat.pow_add, Nat.mul_right_comm]
    exact Nat.mul_le_mul_right _ ((Nat.le_div_iff_mul_le hden).mp hlow)
  refine (Nat.log2_eq_iff (Nat.ne_of_gt ((Nat.two_pow_pos _).trans_le hfloor))).mpr ⟨hfloor, ?_⟩
  rw [Nat.div_lt_iff_lt_mul hden] at hhigh ⊢
  calc num * 2 ^ k < 2 ^ ((num / den).log2 + 1) * den * 2 ^ k :=
        Nat.mul_lt_mul_of_pos_right hhigh (Nat.two_pow_pos k)
    _ = 2 ^ ((num / den).log2 + k + 1) * den := by ring

section

variable {num den a b bits s : ℕ}

/-- How many bits of a quotient are spare, counted in units, if it is worked out to enough bits or
to the last place. -/
theorem spare_scaled (hden : 0 < den) (hbits : a = 0 ∨ b = 0 ∧ 2 ^ 52 ≤ num / den) :
    spare (num * 2 ^ a) (den * 2 ^ b * one) = (num / den).log2 + a - b - 52 := by
  rw [spare, Nat.mul_div_mul_right _ _ one_pos]
  refine congrArg (· - 52) ?_
  rcases hbits with rfl | ⟨rfl, hfull⟩
  · rw [Nat.pow_zero, Nat.mul_one, ← Nat.div_div_eq_div_mul, log2_div_two_pow, Nat.add_zero]
  · have hpos : 0 < num / den := (Nat.two_pow_pos 52).trans_le hfull
    rw [Nat.pow_zero, Nat.mul_one, log2_mul_two_pow_div hden hpos, Nat.sub_zero]

/-- The shift by the spare bits, as one of the quotient that is worked out. -/
theorem shiftLeft_scaled (hs : s + a = bits + b) :
    den * 2 ^ b * one * 2 ^ bits = den * 2 ^ s * (2 ^ a * one) := by
  have hpow : 2 ^ b * 2 ^ bits = 2 ^ s * 2 ^ a := by
    rw [← Nat.pow_add, ← Nat.pow_add, hs, Nat.add_comm b]
  calc den * 2 ^ b * one * 2 ^ bits = den * one * (2 ^ b * 2 ^ bits) := by ring
    _ = den * 2 ^ s * (2 ^ a * one) := by rw [hpow]; ring

/-- Rounding to units is rounding the quotient that is worked out, without its spare bits. -/
theorem roundUnits_scaled (hspare : spare (num * 2 ^ a) (den * 2 ^ b * one) = bits)
    (hs : s + a = bits + b) :
    roundUnits (num * 2 ^ a) (den * 2 ^ b * one) =
      Rounding.halfEven num (den * 2 ^ s) * 2 ^ bits := by
  rw [roundUnits_eq, hspare, Nat.mul_assoc num, shiftLeft_scaled hs,
    Rounding.halfEven_mul_right _ _ (Nat.mul_pos (Nat.two_pow_pos a) one_pos)]

/-- What is left then is as long as a significand, unless nothing was spare. -/
theorem significand_bounds_scaled (hspare : spare (num * 2 ^ a) (den * 2 ^ b * one) = bits)
    (hs : s + a = bits + b) :
    num / (den * 2 ^ s) < 2 ^ 53 ∧ (bits ≠ 0 → 2 ^ 52 ≤ num / (den * 2 ^ s)) := by
  have hbounds := significand_bounds (num * 2 ^ a) (den * 2 ^ b * one)
  rwa [hspare, Nat.mul_assoc num, shiftLeft_scaled hs,
    Nat.mul_div_mul_right _ _ (Nat.mul_pos (Nat.two_pow_pos a) one_pos)] at hbounds

/-- The spare bits are those that the model shifts out. -/
theorem shiftToTargetExponent_scaled (hden : 0 < den) {e : ℤ} (he : e + 1074 = a - b)
    (hbits : a = 0 ∨ b = 0 ∧ 52 ≤ (num / den).log2) (hspare : (num / den).log2 + a - b - 52 = bits)
    (hs : s + a = bits + b) :
    shiftToTargetExponent Format.binary64 (num / den) e (accuracyOfFraction (num % den) den) =
      (extended num (den * 2 ^ s), (bits : ℤ) - 1074) := by
  have htarget : Format.binary64.targetExponent (totalExponent (num / den) e) = bits - 1074 := by
    change max (((num / den).log2 + 1 + e : ℤ) - 53) (-1074) = bits - 1074
    rcases hbits with ha | ⟨hb, hlong⟩ <;> omega
  have hamount : ((bits : ℤ) - 1074 - e).toNat = s := by omega
  unfold shiftToTargetExponent shiftToExponent
  rw [htarget, ofMantissaAndAccuracy_eq num hden]
  dsimp only
  rw [hamount, shiftRight_extended num hden]
  exact congrArg _ (by omega)

end

/-- **An exact result is rounded once**, if it is worked out to enough bits or to the last place. -/
theorem isRounded_roundWithAccuracy (sign : Sign) (num : ℕ) {den : ℕ} (hden : 0 < den) {e : ℤ}
    {a b : ℕ} (he : e + 1074 = a - b) (hbits : a = 0 ∨ b = 0 ∧ 2 ^ 52 ≤ num / den) :
    IsRounded sign (roundUnits (num * 2 ^ a) (den * 2 ^ b * one))
      (roundWithAccuracy Format.binary64 sign (num / den) e
        (accuracyOfFraction (num % den) den)) := by
  have hlong : a = 0 ∨ b = 0 ∧ 52 ≤ (num / den).log2 := by
    refine hbits.imp id fun ⟨hb, hfull⟩ => ⟨hb, ?_⟩
    exact (Nat.le_log2 ((Nat.two_pow_pos 52).trans_le hfull).ne').mpr hfull
  -- `bits` bits are spare, and `s` of them have been worked out.
  obtain ⟨bits, hlog⟩ : ∃ bits, (num / den).log2 + a - b - 52 = bits := ⟨_, rfl⟩
  obtain ⟨s, hs⟩ : ∃ s, s + a = bits + b := ⟨bits + b - a, by omega⟩
  have hspare : spare (num * 2 ^ a) (den * 2 ^ b * one) = bits :=
    (spare_scaled hden hbits).trans hlog
  have hshift := shiftToTargetExponent_scaled hden he hlong hlog hs
  have hround := roundedMantissa_extended num (Nat.mul_pos hden (Nat.two_pow_pos s))
  have hnear := Rounding.halfEven_eq_or num (den * 2 ^ s)
  obtain ⟨hlt, hfull⟩ := significand_bounds_scaled hspare hs
  rw [roundUnits_scaled hspare hs, ← hround]
  refine isRounded_of_shift sign hshift (by omega) (by omega) ?_
  by_cases hzero : bits = 0
  · exact Or.inr hzero
  · have := hfull hzero
    exact Or.inl (by omega)

/-- A result that is worked out completely has no remainder. -/
theorem isRounded_roundWithAccuracy_exact (sign : Sign) (num : ℕ) {e : ℤ} {a b : ℕ}
    (he : e + 1074 = a - b) (hbits : a = 0 ∨ b = 0 ∧ 2 ^ 52 ≤ num) :
    IsRounded sign (roundUnits (num * 2 ^ a) (2 ^ b * one))
      (roundWithAccuracy Format.binary64 sign num e .exact) := by
  have hround := isRounded_roundWithAccuracy sign num Nat.one_pos he (by rwa [Nat.div_one])
  rwa [Nat.div_one, Nat.mod_one, Nat.one_mul] at hround

/-! ### Operations -/

variable {sign sign' : Sign} {units units' : ℕ} {f f' : UnpackedFloat}

/-- The product of two significands ends `a` places in front of the last one or `b` behind it. -/
theorem exists_places (k k' n : ℕ) :
    ∃ t a b : ℕ, k + k' = t + a ∧ n = t + b ∧ (a = 0 ∨ b = 0) := by
  rcases Nat.le_total (k + k') n with hsmall | hlarge
  · exact ⟨k + k', 0, n - (k + k'), rfl, by omega, Or.inl rfl⟩
  · exact ⟨n, k + k' - n, 0, by omega, rfl, Or.inr rfl⟩

/-- The product of two numbers of units, by their significands. -/
theorem roundUnits_shiftLeft_mul {m m' k k' n t a b : ℕ} (hn : n = 1074) (ha : k + k' = t + a)
    (hb : n = t + b) :
    roundUnits (m <<< k * m' <<< k') (one * one) =
      roundUnits (m * m' * 2 ^ a) (2 ^ b * one) := by
  have hnum : m <<< k * m' <<< k' = m * m' * 2 ^ a * 2 ^ t := by
    rw [Nat.shiftLeft_eq, Nat.shiftLeft_eq, Nat.mul_mul_mul_comm, ← Nat.pow_add, ha,
      Nat.add_comm t, Nat.pow_add, ← Nat.mul_assoc]
  have hden : one * one = 2 ^ b * one * 2 ^ t := by
    nth_rewrite 1 [one_eq_two_pow hn]
    rw [hb, Nat.add_comm t, Nat.pow_add, Nat.mul_right_comm]
  rw [hnum, hden, roundUnits_mul_right _ _ (Nat.two_pow_pos t)]

/-- **A product is rounded once.** -/
theorem IsRounded.mul (h : IsRounded sign units f) (h' : IsRounded sign' units' f') :
    IsRounded (sign * sign') (roundUnits (units * units') (one * one))
      (UnpackedFloat.mul Format.binary64 f f') := by
  cases h with
  | zero =>
    rw [Nat.zero_mul, roundUnits_zero]
    cases h' <;> exact .zero
  | @finite m e hpos hm =>
    cases h' with
    | zero =>
      rw [Nat.mul_zero, roundUnits_zero]
      exact .zero
    | @finite m' e' hpos' hm' =>
      have hle := hm.le
      have hle' := hm'.le
      obtain ⟨k, hk⟩ : ∃ k : ℕ, e + 1074 = k := Int.eq_ofNat_of_zero_le (by omega)
      obtain ⟨k', hk'⟩ : ∃ k : ℕ, e' + 1074 = k := Int.eq_ofNat_of_zero_le (by omega)
      -- Kept as a variable, so that no power of it is ever written out.
      obtain ⟨n, hn⟩ : ∃ n : ℕ, n = 1074 := ⟨_, rfl⟩
      obtain ⟨t, a, b, ha, hb, hab⟩ := exists_places k k' n
      have hexponent : e + e' + 1074 = (a : ℤ) - b := by omega
      have hbits : a = 0 ∨ b = 0 ∧ 2 ^ 52 ≤ m * m' := by
        rcases Nat.eq_zero_or_pos a with ha | hapos
        · exact Or.inl ha
        · -- One of the factors is normal.
          refine Or.inr ⟨by omega, ?_⟩
          rcases hm.full with hfull | hleast
          · exact hfull.trans (Nat.le_mul_of_pos_right m hpos')
          · have hfull := hm'.full.resolve_right (by omega)
            exact hfull.trans (Nat.le_mul_of_pos_left m' hpos)
      rw [hk, hk', Int.toNat_natCast, Int.toNat_natCast, roundUnits_shiftLeft_mul hn ha hb]
      exact isRounded_roundWithAccuracy_exact _ _ hexponent hbits

/-- **A quotient of significands** is worked out to the exponent `target`, which is that of the last
place or leaves enough bits. -/
theorem exists_divCore_eq {m m' : ℕ} {e : ℤ} (hm : IsCanonical m e) (hpos : 0 < m)
    (hpos' : 0 < m') (e' : ℤ) :
    ∃ (target : ℤ) (shift : ℕ), e - e' = target + shift ∧
      divCore Format.binary64 m e m' e' =
        (m * 2 ^ shift / m', target, accuracyOfFraction (m * 2 ^ shift % m') m') ∧
      (target ≤ -1074 ∨ 2 ^ 52 ≤ m * 2 ^ shift / m') := by
  obtain ⟨target, htarget⟩ : ∃ target, target =
      min (e - e') (max ((m.log2 : ℤ) + 1 + e - (m'.log2 + 1 + e') - 53) (-1074)) := ⟨_, rfl⟩
  obtain ⟨shift, hshift⟩ : ∃ shift : ℕ, e - e' - target = shift :=
    Int.eq_ofNat_of_zero_le (by omega)
  refine ⟨target, shift, by omega, ?_, ?_⟩
  · have hmin : min (e - e') (Format.binary64.targetExponent
        (totalExponent m e - totalExponent m' e')) = target := htarget.symm
    unfold divCore
    rw [hmin]
    dsimp only
    rw [hshift, Int.toNat_natCast, Nat.shiftLeft_eq]
  · -- Above the least exponent, the shift was chosen so as to leave at least 53 bits.
    by_cases hlarge : -1074 < target
    · have hlog := log2_le_of_lt hm.lt
      have hnum : 52 + (m'.log2 + 1) = m.log2 + shift := by omega
      rw [Nat.le_div_iff_mul_le hpos']
      right
      calc 2 ^ 52 * m' ≤ 2 ^ 52 * 2 ^ (m'.log2 + 1) :=
            Nat.mul_le_mul_left _ (Nat.le_of_lt Nat.lt_log2_self)
        _ = 2 ^ m.log2 * 2 ^ shift := by rw [← Nat.pow_add, ← Nat.pow_add, hnum]
        _ ≤ m * 2 ^ shift := Nat.mul_le_mul_right _ (Nat.log2_self_le hpos.ne')
    · exact Or.inl (not_lt.mp hlarge)

/-- The quotient of two numbers of units, by their significands. -/
theorem roundUnits_shiftLeft_div {m m' k k' n shift a b : ℕ} (hn : n = 1074)
    (hsum : k + (b + n) = shift + a + k') :
    roundUnits (m <<< k) (m' <<< k') =
      roundUnits (m * 2 ^ shift * 2 ^ a) (m' * 2 ^ b * one) := by
  have hnum : m <<< k * 2 ^ (b + n) = m * 2 ^ shift * 2 ^ a * 2 ^ k' := by
    rw [Nat.shiftLeft_eq, Nat.mul_assoc, ← Nat.pow_add, hsum, Nat.pow_add, Nat.pow_add,
      ← Nat.mul_assoc, ← Nat.mul_assoc]
  have hden : m' <<< k' * 2 ^ (b + n) = m' * 2 ^ b * one * 2 ^ k' := by
    rw [Nat.shiftLeft_eq, one_eq_two_pow hn]
    ring
  rw [← roundUnits_mul_right _ _ (Nat.two_pow_pos (b + n)), hnum, hden,
    roundUnits_mul_right _ _ (Nat.two_pow_pos k')]

/-- **A quotient is rounded once.** -/
theorem IsRounded.div (h : IsRounded sign units f) (h' : IsRounded sign' units' f')
    (hne : 0 < units') :
    IsRounded (sign / sign') (roundUnits units units')
      (UnpackedFloat.div Format.binary64 f f') := by
  cases h' with
  | zero => exact absurd hne (Nat.lt_irrefl 0)
  | @finite m' e' hpos' hm' =>
    cases h with
    | zero =>
      rw [roundUnits_zero]
      exact .zero
    | @finite m e hpos hm =>
      have hle := hm.le
      have hle' := hm'.le
      obtain ⟨k, hk⟩ : ∃ k : ℕ, e + 1074 = k := Int.eq_ofNat_of_zero_le (by omega)
      obtain ⟨k', hk'⟩ : ∃ k : ℕ, e' + 1074 = k := Int.eq_ofNat_of_zero_le (by omega)
      obtain ⟨n, hn⟩ : ∃ n : ℕ, n = 1074 := ⟨_, rfl⟩
      obtain ⟨target, shift, hshift, hcore, hfull⟩ := exists_divCore_eq hm hpos hpos' e'
      -- In units, the last place of the quotient has `a` more places behind it, or lies `b` places
      -- behind the last one that can be kept.
      obtain ⟨a, b, hexponent, hab⟩ : ∃ a b : ℕ, target + 1074 = (a : ℤ) - b ∧
          (a = 0 ∨ b = 0 ∧ -1074 < target) := by
        rcases lt_or_ge (-1074) target with hlarge | hsmall
        · exact ⟨(target + 1074).toNat, 0, by omega, Or.inr ⟨rfl, hlarge⟩⟩
        · exact ⟨0, (-1074 - target).toNat, by omega, Or.inl rfl⟩
      have hbits : a = 0 ∨ b = 0 ∧ 2 ^ 52 ≤ m * 2 ^ shift / m' :=
        hab.imp id fun ⟨hb, hlarge⟩ => ⟨hb, hfull.resolve_left (not_le.mpr hlarge)⟩
      have hsum : k + (b + n) = shift + a + k' := by omega
      rw [hk, hk', Int.toNat_natCast, Int.toNat_natCast, roundUnits_shiftLeft_div hn hsum]
      unfold UnpackedFloat.div
      simp only [hcore]
      exact isRounded_roundWithAccuracy _ _ hpos' hexponent hbits

/-- Doubles are rounded to themselves. -/
theorem IsRounded.roundUnits_eq_self (h : IsRounded sign units f) :
    roundUnits units one = units := by
  cases h with
  | zero => exact roundUnits_zero one
  | @finite m e hpos hm =>
    rw [Nat.shiftLeft_eq]
    exact roundUnits_mul_two_pow (Nat.le_of_lt hm.lt) _

/-- The double nearest to a whole number of units. -/
def IsNearest (d : ℤ) (f : UnpackedFloat) : Prop :=
  ∃ sign : Sign, IsRounded sign (roundUnits d.natAbs one) f ∧
    sign.apply (roundUnits d.natAbs one) = d.sign * roundUnits d.natAbs one

/-- **Units are rounded once**, in one step from a significand and its exponent. -/
theorem isRounded_round (sign : Sign) {m : ℕ} (hpos : 0 < m) {e : ℤ} {k : ℕ} (he : e + 1074 = k) :
    IsRounded sign (roundUnits (m * 2 ^ k) one) (round Format.binary64 sign m e) := by
  -- The significand is made as long as it can be.
  obtain ⟨shift, hshift⟩ : ∃ shift : ℕ,
      (e - max ((m.log2 : ℤ) + 1 + e - 53) (-1074)).toNat = shift := ⟨_, rfl⟩
  have hround : round Format.binary64 sign m e =
      roundWithAccuracy Format.binary64 sign (m * 2 ^ shift) (e - shift) .exact := by
    rw [← hshift, ← Nat.shiftLeft_eq]
    rfl
  have hexponent : e - shift + 1074 = ((k - shift : ℕ) : ℤ) - (0 : ℕ) := by omega
  have hbits : k - shift = 0 ∨ 0 = 0 ∧ 2 ^ 52 ≤ m * 2 ^ shift := by
    by_cases hzero : k - shift = 0
    · exact Or.inl hzero
    · refine Or.inr ⟨rfl, ?_⟩
      calc 2 ^ 52 ≤ 2 ^ (m.log2 + shift) := Nat.pow_le_pow_right (by decide) (by omega)
        _ = 2 ^ m.log2 * 2 ^ shift := Nat.pow_add ..
        _ ≤ m * 2 ^ shift := Nat.mul_le_mul_right _ (Nat.log2_self_le hpos.ne')
  have hunits : m * 2 ^ k = m * 2 ^ shift * 2 ^ (k - shift) := by
    have hsum : shift + (k - shift) = k := by omega
    rw [Nat.mul_assoc, ← Nat.pow_add, hsum]
  have h := isRounded_roundWithAccuracy_exact sign (m * 2 ^ shift) hexponent hbits
  rwa [← hunits, Nat.pow_zero, Nat.one_mul, ← hround] at h

/-- A whole number of units is brought to the nearest double, with its sign. -/
theorem isNearest_normalize (m : ℤ) {e : ℤ} {k : ℕ} (he : e + 1074 = k) :
    IsNearest (m * 2 ^ k) (UnpackedFloat.normalize Format.binary64 m e .positive) := by
  have hpow : (0 : ℤ) < 2 ^ k := by positivity
  have hnatAbs : (m * 2 ^ k).natAbs = m.natAbs * 2 ^ k := by
    rw [Int.natAbs_mul, Int.natAbs_pow]
    rfl
  unfold IsNearest UnpackedFloat.normalize
  rw [hnatAbs]
  -- The sign is taken off first and put back afterwards.
  rcases lt_trichotomy m 0 with h | rfl | h
  · rw [compare_lt_iff_lt.mpr h, Int.sign_eq_neg_one_of_neg (mul_neg_of_neg_of_pos h hpow)]
    have habs : m.natAbs = (-m).toNat := by omega
    refine ⟨.negative, ?_, (neg_one_mul _).symm⟩
    rw [habs]
    exact isRounded_round .negative (by omega) he
  · rw [compare_eq_iff_eq.mpr rfl, Int.natAbs_zero, Nat.zero_mul, roundUnits_zero]
    exact ⟨.positive, .zero, (mul_zero _).symm⟩
  · rw [compare_gt_iff_gt.mpr h, Int.sign_eq_one_of_pos (mul_pos h hpow)]
    have habs : m.natAbs = m.toNat := by omega
    refine ⟨.positive, ?_, (one_mul _).symm⟩
    rw [habs]
    exact isRounded_round .positive (by omega) he

/-- A sign does not change the size, -/
theorem natAbs_apply (sign : Sign) (units : ℕ) : (sign.apply units).natAbs = units := by
  cases sign with
  | positive => rfl
  | negative => exact Int.natAbs_neg _

/-- the opposite sign turns the value round, -/
theorem neg_apply (sign : Sign) (n : ℤ) : (-sign).apply n = -sign.apply n := by
  cases sign with
  | positive => rfl
  | negative => exact (neg_neg n).symm

/-- and negation turns the sign. -/
theorem IsRounded.neg (h : IsRounded sign units f) : IsRounded (-sign) units f.neg := by
  cases h with
  | zero => exact .zero
  | finite hpos hm => exact .finite hpos hm

/-- Shifting does not touch the sign. -/
theorem apply_shiftLeft (sign : Sign) (m k : ℕ) :
    sign.apply (m <<< k : ℕ) = sign.apply m * 2 ^ k := by
  rw [Nat.shiftLeft_eq]
  push_cast
  cases sign with
  | positive => rfl
  | negative => exact (neg_mul _ _).symm

/-- A double is the nearest one to itself. -/
theorem IsRounded.isNearest (h : IsRounded sign units f) : IsNearest (sign.apply units) f := by
  refine ⟨sign, ?_, ?_⟩
  · rwa [natAbs_apply, h.roundUnits_eq_self]
  · rw [natAbs_apply, h.roundUnits_eq_self]
    have hsign := Int.sign_mul_natAbs (sign.apply units)
    rw [natAbs_apply] at hsign
    exact hsign.symm

/-- **A difference is rounded once.** -/
theorem IsRounded.sub (h : IsRounded sign units f) (h' : IsRounded sign' units' f') :
    IsNearest (sign.apply units - sign'.apply units')
      (UnpackedFloat.sub Format.binary64 f f') := by
  cases h with
  | zero =>
    rw [apply_zero, zero_sub]
    cases h' with
    | zero =>
      have hzero : ∀ side : Sign, IsNearest 0 (.zero side) := fun side =>
        apply_zero side ▸ IsRounded.zero.isNearest
      rw [apply_zero, neg_zero]
      change IsNearest 0 (if sign == -sign' then .zero sign else .zero .positive)
      split <;> exact hzero _
    | finite hpos' hm' =>
      rw [← neg_apply]
      exact (IsRounded.finite hpos' hm').isNearest
  | @finite m e hpos hm =>
    cases h' with
    | zero =>
      rw [apply_zero, sub_zero]
      exact (IsRounded.finite hpos hm).isNearest
    | @finite m' e' hpos' hm' =>
      have hle := hm.le
      have hle' := hm'.le
      obtain ⟨k, hk⟩ : ∃ k : ℕ, min e e' + 1074 = k := Int.eq_ofNat_of_zero_le (by omega)
      -- Both are written with the lesser exponent, where their significands can be subtracted.
      have hshift : (e + 1074).toNat = (e - min e e').toNat + k := by omega
      have hshift' : (e' + 1074).toNat = (e' - min e e').toNat + k := by omega
      have h := isNearest_normalize (sign.apply (m <<< (e - min e e').toNat : ℕ) -
        sign'.apply (m' <<< (e' - min e e').toNat : ℕ)) hk
      rw [hshift, hshift', Nat.shiftLeft_add, Nat.shiftLeft_add, apply_shiftLeft sign (m <<< _) k,
        apply_shiftLeft sign' (m' <<< _) k, ← sub_mul]
      exact h

/-! ### Sums -/

/-- **Summands change places**, also if they are infinite, no numbers, or zeros of different signs.
-/
theorem unpackedAdd_comm (f f' : UnpackedFloat) :
    UnpackedFloat.add Format.binary64 f f' = UnpackedFloat.add Format.binary64 f' f := by
  cases f with
  | notANumber => cases f' <;> rfl
  | infinity sign =>
    cases f' with
    | infinity sign' => cases sign <;> cases sign' <;> rfl
    | _ => rfl
  | zero sign =>
    cases f' with
    | zero sign' => cases sign <;> cases sign' <;> rfl
    | _ => rfl
  | finite sign m e hm =>
    cases f' with
    | finite sign' m' e' hm' =>
      -- Both orders shift to the lesser exponent and add the same two whole numbers there.
      simp only [UnpackedFloat.add]
      rw [Int.min_comm, Int.add_comm]
    | _ => rfl

instance : Std.Commutative fun a b : Float => a + b where
  comm a b := congrArg (fun f => ({ toModel := Float.Model.pack f } : Float))
    (unpackedAdd_comm a.toModel.unpack b.toModel.unpack)

end Binary64

end GalaxyMarket
