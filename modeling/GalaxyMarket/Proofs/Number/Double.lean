import GalaxyMarket.Proofs.Number.Rounding

/-!
# Comparing doubles by their units

`Binary64.ofBits` and the logical model of `Float` read the same bit patterns, the one as a number
of units, the other as a significand and an exponent. The two readings agree
(`Binary64.ofFloat_eq`), and so a comparison of floats says how many units there are.

Only one such fact is used: what is neither below zero nor above one has at most as many units as
one, or is no number at all (`Binary64.isFraction_of_not_lt`).
-/

namespace GalaxyMarket

namespace Binary64

open Float.Model

/-! ### Two readings of a bit pattern -/

/-- The value of an unpacked double. -/
def ofUnpacked : UnpackedFloat → Binary64
  | .notANumber => .nan
  | .infinity sign => .infinite (sign == .negative)
  | .zero sign => .finite (sign == .negative) 0
  | .finite sign significand exponent _ =>
    .finite (sign == .negative) (significand <<< (exponent + 1074).toNat)

/-- The exponent field of a bit pattern. -/
def exponentField (bits : UInt64) : BitVec 11 :=
  @UnpackedFloat.unpackExponent Format.binary64 bits.toBitVec

/-- The significand field of a bit pattern. -/
def significandField (bits : UInt64) : BitVec 52 :=
  @UnpackedFloat.unpackMantissa Format.binary64 bits.toBitVec

/-- The sign of a bit pattern. -/
def signField (bits : UInt64) : UnpackedFloat.Sign :=
  .ofBitVec (@UnpackedFloat.unpackSign Format.binary64 bits.toBitVec)

/-- The exponent field is made of eleven bits, -/
theorem toNat_exponentField (bits : UInt64) :
    (exponentField bits).toNat = (bits.toNat >>> 52) % 2048 := by
  unfold exponentField UnpackedFloat.unpackExponent
  simp [BitVec.extractLsb, BitVec.extractLsb']

/-- and the significand of the 52 below them. -/
theorem toNat_significandField (bits : UInt64) :
    (significandField bits).toNat = bits.toNat % leadingBit := by
  unfold significandField UnpackedFloat.unpackMantissa
  simp [BitVec.extractLsb, leadingBit]

/-- The sign is the uppermost bit. -/
theorem signField_eq (bits : UInt64) :
    (signField bits == .negative) = decide (1 <<< 63 ≤ bits.toNat) := by
  let sign : BitVec 1 := @UnpackedFloat.unpackSign Format.binary64 bits.toBitVec
  have htoNat : sign.toNat = bits.toNat >>> 63 % 2 := by
    show (@UnpackedFloat.unpackSign Format.binary64 bits.toBitVec).toNat = _
    unfold UnpackedFloat.unpackSign
    simp [BitVec.extractLsb]
  have hlt : bits.toNat < 2 ^ 64 := bits.toNat_lt
  -- The word is below the uppermost bit's value exactly if this bit is not set.
  have hzero : sign = 0#1 ↔ bits.toNat < 1 <<< 63 := by
    rw [← BitVec.toNat_inj, htoNat, BitVec.toNat_ofNat, Nat.shiftRight_eq_div_pow]
    omega
  show (UnpackedFloat.Sign.ofBitVec sign == .negative) = _
  unfold UnpackedFloat.Sign.ofBitVec
  by_cases h : bits.toNat < 1 <<< 63
  · rw [if_pos (hzero.mpr h), decide_eq_false (by omega)]
    rfl
  · rw [if_neg (mt hzero.mp h), decide_eq_true (by omega)]
    rfl

/-- What a bit pattern is unpacked to, by its fields. -/
def unpackFields (sign : UnpackedFloat.Sign) (exponent significand : Nat) : UnpackedFloat :=
  if exponent = 2047 then if significand = 0 then .infinity sign else .notANumber
  else if exponent = 0 then
    if h : significand = 0 then .zero sign
    else .finite sign significand (-1074) (Nat.pos_of_ne_zero h)
  else
    .finite sign (leadingBit + significand) (exponent - 1075)
      (Nat.lt_of_lt_of_le (by decide) (Nat.le_add_right ..))

/-- The proof that a significand is positive does not matter. -/
theorem finite_congr {sign : UnpackedFloat.Sign} {m m' : Nat} {e e' : Int} {h : 0 < m}
    {h' : 0 < m'} (hm : m = m') (he : e = e') :
    UnpackedFloat.finite sign m e h = .finite sign m' e' h' := by
  subst hm he
  rfl

/-- A bit pattern is unpacked by its three fields. -/
theorem unpack_eq (bits : UInt64) :
    UnpackedFloat.unpack Format.binary64 bits.toBitVec =
      unpackFields (signField bits) (exponentField bits).toNat (significandField bits).toNat := by
  let e := exponentField bits
  let m := significandField bits
  -- The model compares fields as bit vectors, here they are compared as numbers.
  have hspecial : e = -1#11 ↔ e.toNat = 2047 := (BitVec.toNat_inj (y := 2047#11)).symm
  have hleast : e = 0#11 ↔ e.toNat = 0 := (BitVec.toNat_inj (y := 0#11)).symm
  have hempty : m = 0#52 ↔ m.toNat = 0 := (BitVec.toNat_inj (y := 0#52)).symm
  unfold UnpackedFloat.unpack unpackFields
  show (if e = -1#11 then if m = 0#52 then _ else _ else
    if e = 0#11 then if h : m = 0#52 then _ else _ else _) =
    if e.toNat = 2047 then if m.toNat = 0 then _ else _ else
    if e.toNat = 0 then if h : m.toNat = 0 then _ else _ else _
  by_cases he : e.toNat = 2047
  · rw [if_pos (hspecial.mpr he), if_pos he]
    by_cases hm : m.toNat = 0
    · rw [if_pos (hempty.mpr hm), if_pos hm]
      rfl
    · rw [if_neg (mt hempty.mp hm), if_neg hm]
  · rw [if_neg (mt hspecial.mp he), if_neg he]
    by_cases hzero : e.toNat = 0
    · rw [if_pos (hleast.mpr hzero), if_pos hzero]
      by_cases hm : m.toNat = 0
      · rw [dif_pos (hempty.mpr hm), dif_pos hm]
        rfl
      · rw [dif_neg (mt hempty.mp hm), dif_neg hm]
        show UnpackedFloat.finite _ m.toNat ((e.toNat : Int) - 1075 + 1) _ = _
        exact finite_congr rfl (by omega)
    · rw [if_neg (mt hleast.mp hzero), if_neg hzero]
      -- The bit that is not stored is put in front.
      have hlt : m.toNat < 2 ^ 52 := m.isLt
      have hm : (1#1 ++ m).toNat = leadingBit + m.toNat := by
        rw [BitVec.toNat_append]
        exact (Nat.shiftLeft_add_eq_or_of_lt hlt 1).symm
      exact finite_congr hm rfl

/-- **Both readings of a double agree.** -/
theorem ofFloat_eq (x : Float) : ofFloat x = ofUnpacked x.toModel.unpack := by
  show ofBits x.toBits = ofUnpacked (UnpackedFloat.unpack Format.binary64 x.toBits.toBitVec)
  rw [unpack_eq, ofBits, unpackFields]
  rw [← toNat_exponentField, ← toNat_significandField, ← signField_eq]
  -- Both tell apart an exponent field that is full, one that is empty, and all others.
  by_cases he : (exponentField x.toBits).toNat = 2047
  · rw [if_pos (beq_iff_eq.mpr he), if_pos he]
    by_cases hm : (significandField x.toBits).toNat = 0
    · rw [if_pos (beq_iff_eq.mpr hm), if_pos hm]
      rfl
    · rw [if_neg (mt beq_iff_eq.mp hm), if_neg hm]
      rfl
  · rw [if_neg (mt beq_iff_eq.mp he), if_neg he]
    by_cases hzero : (exponentField x.toBits).toNat = 0
    · rw [if_pos (beq_iff_eq.mpr hzero), if_pos hzero]
      by_cases hm : (significandField x.toBits).toNat = 0
      · rw [dif_pos hm, hm]
        rfl
      · rw [dif_neg hm]
        rfl
    · rw [if_neg (mt beq_iff_eq.mp hzero), if_neg hzero]
      -- One counts exponents from that of a normal number, the other from that of the least one.
      have hshift : ((exponentField x.toBits).toNat - 1075 + 1074 : Int).toNat =
          (exponentField x.toBits).toNat - 1 := by omega
      rw [← hshift]
      rfl

/-- A significand has 53 bits at most. -/
theorem lt_of_unpack_eq {x : Float} {sign : UnpackedFloat.Sign} {m : Nat} {e : Int} {h : 0 < m}
    (hx : x.toModel.unpack = .finite sign m e h) : m < 2 ^ 53 := by
  have hlt : (significandField x.toBits).toNat < 2 ^ 52 := (significandField x.toBits).isLt
  change UnpackedFloat.unpack Format.binary64 x.toBits.toBitVec = _ at hx
  rw [unpack_eq, unpackFields] at hx
  split at hx
  · split at hx <;> cases hx
  · split at hx
    · split at hx
      · cases hx
      · obtain ⟨-, rfl, -⟩ := UnpackedFloat.finite.inj hx
        omega
    · obtain ⟨-, rfl, -⟩ := UnpackedFloat.finite.inj hx
      have : leadingBit = 2 ^ 52 := rfl
      omega

/-! ### Between zero and one -/

/-- What is from zero to one, or no number. -/
def IsFraction : Binary64 → Prop
  | .nan => True
  | .infinite _ => False
  | .finite negative units => units ≤ one ∧ (negative = true → units = 0)

/-- What is shifted by few enough places does not pass one. -/
theorem shiftLeft_le_one {m a k : Nat} (hm : m ≤ 2 ^ a) (h : a + k ≤ 1074) : m <<< k ≤ one := by
  unfold one
  generalize 1074 = n at h
  rw [Nat.shiftLeft_eq, Nat.shiftLeft_eq, Nat.one_mul]
  calc m * 2 ^ k ≤ 2 ^ a * 2 ^ k := Nat.mul_le_mul_right _ hm
    _ = 2 ^ (a + k) := (Nat.pow_add ..).symm
    _ ≤ 2 ^ n := Nat.pow_le_pow_right (by decide) h

/-- **What is neither below zero nor above one** has no more units than one. -/
theorem isFraction_of_not_lt {x : Float} (hzero : Scalar.lt x 0 = false)
    (hone : Scalar.lt 1 x = false) : (ofFloat x).IsFraction := by
  -- Comparisons are made on the unpacked doubles.
  have hzero : ¬ x.toModel.unpack.lt (.zero .positive) = true :=
    fun hlt => of_decide_eq_false hzero (decide_eq_true hlt)
  have hone : ¬ (UnpackedFloat.finite .positive (2 ^ 52) (-52) (by decide)).lt x.toModel.unpack =
      true := fun hlt => of_decide_eq_false hone (decide_eq_true hlt)
  rw [ofFloat_eq]
  cases hx : x.toModel.unpack with
  | notANumber => trivial
  | infinity sign =>
    rw [hx] at hzero hone
    cases sign with
    | negative => exact absurd rfl hzero
    | positive => exact absurd rfl hone
  | zero sign => exact ⟨Nat.zero_le _, fun _ => rfl⟩
  | finite sign m e h =>
    have hm := lt_of_unpack_eq hx
    rw [hx] at hzero hone
    cases sign with
    | negative => exact absurd rfl hzero
    | positive =>
      refine ⟨?_, fun h => nomatch h⟩
      -- Canonical doubles compare by exponent first, then by significand.
      change ¬ (some ((compare (-52) e).then (compare (2 ^ 52) m)) == some .lt) = true at hone
      rcases Int.lt_trichotomy e (-52) with hlt | rfl | hgt
      · exact shiftLeft_le_one (Nat.le_of_lt hm) (by omega)
      · refine shiftLeft_le_one (a := 52) (Nat.le_of_not_lt fun hlt => hone ?_) (by decide)
        rw [Nat.compare_eq_lt.mpr hlt]
        rfl
      · refine absurd ?_ hone
        rw [Int.compare_eq_lt.mpr hgt]
        rfl

/-! ### Fractions of a whole number -/

/-- A product that is not negative is rounded twice, and its halves upwards. -/
theorem wholeProduct_of_nonneg {n : Int} (hn : 0 ≤ n) (units : Nat) :
    wholeProduct n (.finite false units) =
      Rounding.halfUp (roundUnits (roundUnits n.natAbs 1 * units) (one * one)) one := by
  unfold wholeProduct
  dsimp only
  rw [if_pos]
  simpa using hn

/-- A zero of either sign makes zero. -/
theorem wholeProduct_zero (n : Int) (negative : Bool) :
    wholeProduct n (.finite negative 0) = 0 := by
  have hhalf : Rounding.halfUp 0 one = 0 := by
    have h := Rounding.halfUp_mul_self 0 one_pos
    rwa [Nat.zero_mul] at h
  unfold wholeProduct
  dsimp only
  rw [Nat.mul_zero, roundUnits_zero, hhalf]
  split <;> rfl

/-- A fraction of a whole number lies between nothing and the whole. -/
theorem wholeProduct_bounds {n : Int} (hn : 0 ≤ n) {x : Binary64} (hx : x.IsFraction) :
    0 ≤ wholeProduct n x ∧ wholeProduct n x ≤ wholeProduct n (.finite false one) := by
  have hone := wholeProduct_of_nonneg hn one
  -- Only a negative number of units could lead below zero, and a fraction has none.
  cases x with
  | nan =>
    rw [hone]
    exact ⟨Int.le_refl 0, Int.natCast_nonneg _⟩
  | infinite negative => exact absurd hx id
  | finite negative units =>
    obtain ⟨hunits, hnegative⟩ := hx
    cases negative with
    | false =>
      rw [hone, wholeProduct_of_nonneg hn units]
      refine ⟨Int.natCast_nonneg _, Int.ofNat_le.mpr ?_⟩
      exact Rounding.halfUp_mono one (roundUnits_mono _ (Nat.mul_le_mul_left _ hunits))
    | true =>
      rw [hnegative rfl, wholeProduct_zero, hone]
      exact ⟨Int.le_refl 0, Int.natCast_nonneg _⟩

/-- Small whole numbers are kept by a multiplication with one. -/
theorem wholeProduct_one_of_le {n : Int} (hn : 0 ≤ n) (h : n ≤ 2 ^ 53) :
    wholeProduct n (.finite false one) = n := by
  have hround : roundUnits n.natAbs 1 = n.natAbs * one := roundUnits_of_le (by omega)
  -- Neither the conversion nor the product has anything to round.
  rw [wholeProduct_of_nonneg hn, hround]
  have hproduct : roundUnits (n.natAbs * one * one) (one * one) = n.natAbs * one := by
    rw [Nat.mul_assoc, ← hround, ← roundUnits_mul_right _ 1 (Nat.mul_pos one_pos one_pos),
      Nat.one_mul]
  rw [hproduct, Rounding.halfUp_mul_self _ one_pos]
  exact Int.natAbs_of_nonneg hn

end Binary64

end GalaxyMarket
