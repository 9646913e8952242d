import GalaxyMarket.Proofs.Number.Double

/-!
# Packing and comparing doubles

A significand is *canonical* for its exponent if it cannot be made longer (`Binary64.IsCanonical`).
What is canonical is packed and unpacked again without loss, or becomes infinite, by its exponent
alone. So a number that is rounded to a sign and some units (`Binary64.IsRounded`) is kept as long
as there are not too many of them (`Binary64.IsRounded.unpack_pack`). Finite doubles are such
numbers (`Binary64.exists_isRounded`), and they compare as their units do
(`Binary64.IsRounded.compare_eq`).
-/

namespace GalaxyMarket

namespace Binary64

open Float.Model UnpackedFloat

/-! ### Canonical significands -/

/-- **A significand that is as long as it can be**: it has 53 bits, or fewer with the least
exponent. -/
structure IsCanonical (m : ℕ) (e : ℤ) : Prop where
  lt : m < 2 ^ 53
  le : -1074 ≤ e
  full : 2 ^ 52 ≤ m ∨ e = -1074

/-- A significand has at most 53 bits. -/
theorem log2_le_of_lt {m : ℕ} (h : m < 2 ^ 53) : m.log2 ≤ 52 := by
  rcases Nat.eq_zero_or_pos m with rfl | hpos
  · rw [Nat.log2_zero]
    exact Nat.zero_le 52
  · exact Nat.le_of_lt_succ ((Nat.log2_lt (Nat.ne_of_gt hpos)).mpr h)

/-- A canonical one has 53 unless its exponent is the least. -/
theorem IsCanonical.log2_eq {m : ℕ} {e : ℤ} (h : IsCanonical m e) : m.log2 = 52 ∨ e = -1074 := by
  rcases h.full with hfull | he
  · have hge : 52 ≤ m.log2 := (Nat.le_log2 (by omega)).mpr hfull
    exact Or.inl (Nat.le_antisymm (log2_le_of_lt h.lt) hge)
  · exact Or.inr he

/-- Doubles are unpacked to canonical significands. -/
theorem isCanonical_of_unpack_eq {x : Float} {sign : Sign} {m : ℕ} {e : ℤ} {h : 0 < m}
    (hx : x.toModel.unpack = .finite sign m e h) : IsCanonical m e ∧ e ≤ 971 := by
  refine ⟨⟨lt_of_unpack_eq hx, ?_, ?_⟩, ?_⟩
  -- All of this is read off the fields.
  all_goals
    have hlt : (exponentField x.toBits).toNat < 2 ^ 11 := (exponentField x.toBits).isLt
    change UnpackedFloat.unpack Format.binary64 x.toBits.toBitVec = _ at hx
    rw [unpack_eq, unpackFields] at hx
    split at hx
    · split at hx <;> cases hx
    · split at hx
      · split at hx
        · cases hx
        · obtain ⟨-, rfl, rfl⟩ := UnpackedFloat.finite.inj hx
          omega
      · obtain ⟨-, rfl, rfl⟩ := UnpackedFloat.finite.inj hx
        have : leadingBit = 2 ^ 52 := rfl
        omega

/-! ### Packing -/

/-- The sign is kept whatever is packed beside it. -/
theorem unpackSign_packComponents {spec : Format} {sign : Sign}
    {exponent : BitVec spec.exponentBits}
    {significand : BitVec spec.mantissaBitsWithoutImplicit} :
    unpackSign (packComponents spec sign exponent significand) = sign.toBitVec := by
  apply BitVec.eq_of_getLsbD_eq
  intro i hi
  obtain rfl : i = 0 := by omega
  simp [unpackSign, packComponents, BitVec.getLsbD_append, BitVec.getElem_append]

/-- What fields are unpacked to after they were packed. -/
theorem unpack_pack_fields {f : UnpackedFloat} {sign : Sign} {exponent : BitVec 11}
    {significand : BitVec 52}
    (h : UnpackedFloat.pack Format.binary64 f =
      packComponents Format.binary64 sign exponent significand) :
    (Float.Model.pack f).unpack =
      unpackFields sign exponent.toNat significand.toNat := by
  -- Each of the three fields comes back from the bits as it was put in.
  let bits : UInt64 := .ofBitVec (UnpackedFloat.pack Format.binary64 f)
  have hsign : signField bits = sign := by
    show Sign.ofBitVec (unpackSign (UnpackedFloat.pack Format.binary64 f)) = sign
    rw [h, unpackSign_packComponents]
    cases sign <;> rfl
  have hexponent : exponentField bits = exponent := by
    show unpackExponent (UnpackedFloat.pack Format.binary64 f) = exponent
    rw [h]
    exact unpackExponent_packComponents
  have hsignificand : significandField bits = significand := by
    show unpackMantissa (UnpackedFloat.pack Format.binary64 f) = significand
    rw [h]
    exact unpackMantissa_packComponents
  show UnpackedFloat.unpack Format.binary64 bits.toBitVec = _
  rw [unpack_eq, hsign, hexponent, hsignificand]

/-- **A canonical significand is kept** as long as the exponent is not too large, -/
theorem unpack_pack_of_le {sign : Sign} {m : ℕ} {e : ℤ} {h : 0 < m} (hm : IsCanonical m e)
    (he : e ≤ 971) :
    (Float.Model.pack (.finite sign m e h)).unpack = .finite sign m e h := by
  have hlt := hm.lt
  have hle := hm.le
  have hfits : ¬2 ^ 11 ≤ (e + 1023 + 52).toNat + 1 := by omega
  by_cases hnormal : 2 ^ 52 ≤ m
  · -- The leading bit is not stored.
    have hlog : m.log2 + 1 = 53 := by
      have hge : 52 ≤ m.log2 := (Nat.le_log2 (by omega)).mpr hnormal
      have := log2_le_of_lt hlt
      omega
    have hpack : UnpackedFloat.pack Format.binary64 (.finite sign m e h) =
        packComponents Format.binary64 sign (BitVec.ofNat 11 (e + 1023 + 52).toNat)
          (BitVec.ofNat 52 m) := by
      unfold UnpackedFloat.pack
      dsimp only
      exact (if_neg hfits).trans (if_pos hlog)
    rw [unpack_pack_fields hpack, BitVec.toNat_ofNat, BitVec.toNat_ofNat, unpackFields,
      if_neg (by omega), if_neg (by omega)]
    refine finite_congr ?_ ?_
    · show 2 ^ 52 + m % 2 ^ 52 = m
      omega
    · omega
  · -- A shorter significand has the least exponent, and all of it is stored.
    have hleast : e = -1074 := hm.full.resolve_left hnormal
    have hlog : ¬m.log2 + 1 = 53 := by
      have : m.log2 < 52 := (Nat.log2_lt (Nat.ne_of_gt h)).mpr (by omega)
      omega
    have hpack : UnpackedFloat.pack Format.binary64 (.finite sign m e h) =
        packComponents Format.binary64 sign 0#11 (BitVec.ofNat 52 m) := by
      unfold UnpackedFloat.pack
      dsimp only
      exact (if_neg hfits).trans (if_neg hlog)
    have hshort : (BitVec.ofNat 52 m).toNat = m := by
      rw [BitVec.toNat_ofNat]
      exact Nat.mod_eq_of_lt (by omega)
    rw [unpack_pack_fields hpack, hshort, unpackFields, if_neg (by decide), if_pos (by decide),
      dif_neg (Nat.ne_of_gt h)]
    exact finite_congr rfl hleast.symm

/-- and otherwise there is an infinity. -/
theorem unpack_pack_of_lt {sign : Sign} {m : ℕ} {e : ℤ} {h : 0 < m} (he : 971 < e) :
    (Float.Model.pack (.finite sign m e h)).unpack = .infinity sign := by
  have hpack : UnpackedFloat.pack Format.binary64 (.finite sign m e h) =
      packComponents Format.binary64 sign (-1#11) 0#52 := by
    unfold UnpackedFloat.pack
    dsimp only
    rw [if_pos]
    · rfl
    · show 2 ^ 11 ≤ (e + 1023 + 52).toNat + 1
      omega
  rw [unpack_pack_fields hpack]
  rfl

/-- A zero is kept with its sign. -/
theorem unpack_pack_zero (sign : Sign) :
    (Float.Model.pack (.zero sign)).unpack = .zero sign := by
  have hpack : UnpackedFloat.pack Format.binary64 (.zero sign) =
      packComponents Format.binary64 sign 0#11 0#52 := rfl
  rw [unpack_pack_fields hpack]
  rfl

/-! ### Rounded numbers -/

/-- A number that is rounded to so many units. -/
inductive IsRounded (sign : Sign) : ℕ → UnpackedFloat → Prop
  | zero : IsRounded sign 0 (.zero sign)
  | finite {m : ℕ} {e : ℤ} (h : 0 < m) (hm : IsCanonical m e) :
    IsRounded sign (m <<< (e + 1074).toNat) (.finite sign m e h)

variable {sign sign' : Sign} {units units' : ℕ} {f f' : UnpackedFloat}

/-- Whether units stay below a power of two is settled by the exponent. -/
theorem IsCanonical.lt_two_pow_iff {m : ℕ} {e : ℤ} (hm : IsCanonical m e) {n : ℕ} (hn : 53 ≤ n) :
    m <<< (e + 1074).toNat < 2 ^ n ↔ e + 1127 ≤ n := by
  have hle := hm.le
  rw [Nat.shiftLeft_eq]
  constructor
  · intro hunits
    by_contra hlarge
    have hfull : 2 ^ 52 ≤ m := hm.full.resolve_right (by omega)
    have hpow : 2 ^ n ≤ 2 ^ 52 * 2 ^ (e + 1074).toNat := by
      rw [← Nat.pow_add]
      exact Nat.pow_le_pow_right (by decide) (by omega)
    exact absurd hunits (Nat.not_lt.mpr (hpow.trans (Nat.mul_le_mul_right _ hfull)))
  · intro hsmall
    calc m * 2 ^ (e + 1074).toNat < 2 ^ 53 * 2 ^ (e + 1074).toNat :=
          Nat.mul_lt_mul_of_pos_right hm.lt (Nat.two_pow_pos _)
      _ = 2 ^ (53 + (e + 1074).toNat) := (Nat.pow_add ..).symm
      _ ≤ 2 ^ n := Nat.pow_le_pow_right (by decide) (by omega)

/-- Doubles go as far as their largest exponent. -/
theorem IsCanonical.lt_overflow_iff {m : ℕ} {e : ℤ} (hm : IsCanonical m e) :
    m <<< (e + 1074).toNat < overflow ↔ e ≤ 971 := by
  -- Kept as a variable, so that no power of it is ever written out.
  obtain ⟨n, hn⟩ : ∃ n, n = 2098 := ⟨_, rfl⟩
  rw [overflow_eq_two_pow hn, hm.lt_two_pow_iff (by omega)]
  omega

/-- **A rounded number is kept** as far as doubles go. -/
theorem IsRounded.unpack_pack (h : IsRounded sign units f) :
    (Float.Model.pack f).unpack = if units < overflow then f else .infinity sign := by
  cases h with
  | zero => rw [unpack_pack_zero, if_pos overflow_pos]
  | @finite m e hpos hm =>
    by_cases he : e ≤ 971
    · rw [unpack_pack_of_le hm he, if_pos (hm.lt_overflow_iff.mpr he)]
    · rw [unpack_pack_of_lt (not_le.mp he), if_neg (mt hm.lt_overflow_iff.mp he)]

/-- What a rounded number is read as has the same units. -/
theorem IsRounded.ofUnpacked_eq (h : IsRounded sign units f) :
    ofUnpacked f = .finite (sign == .negative) units := by
  cases h <;> rfl

/-- Rounded numbers are finite. -/
theorem IsRounded.isFinite (h : IsRounded sign units f) : f.isFinite = true := by
  cases h <;> rfl

/-- Finite doubles are rounded. -/
theorem exists_isRounded {x : Float} (hfinite : Scalar.isFinite x = true) :
    ∃ sign units, IsRounded sign units x.toModel.unpack := by
  have hfinite : x.toModel.unpack.isFinite = true := hfinite
  cases hx : x.toModel.unpack with
  | notANumber =>
    rw [hx] at hfinite
    cases hfinite
  | infinity sign =>
    rw [hx] at hfinite
    cases hfinite
  | zero sign => exact ⟨sign, 0, .zero⟩
  | finite sign m e h => exact ⟨sign, _, .finite h (isCanonical_of_unpack_eq hx).1⟩

/-- Doubles have not too many units. -/
theorem IsRounded.lt_overflow {x : Float} (h : IsRounded sign units x.toModel.unpack) :
    units < overflow := by
  cases hx : x.toModel.unpack with
  | notANumber | infinity =>
    rw [hx] at h
    cases h
  | zero =>
    rw [hx] at h
    cases h
    exact overflow_pos
  | finite =>
    obtain ⟨hm, he⟩ := isCanonical_of_unpack_eq hx
    rw [hx] at h
    cases h
    exact hm.lt_overflow_iff.mpr he

/-! ### Comparing -/

/-- More exponent is more units. -/
theorem IsCanonical.shiftLeft_lt {m m' : ℕ} {e e' : ℤ} (hm : IsCanonical m e)
    (hm' : IsCanonical m' e') (h : e < e') :
    m <<< (e + 1074).toNat < m' <<< (e' + 1074).toNat := by
  have hle := hm.le
  have hfull : 2 ^ 52 ≤ m' := hm'.full.resolve_right (by omega)
  rw [Nat.shiftLeft_eq, Nat.shiftLeft_eq]
  calc m * 2 ^ (e + 1074).toNat < 2 ^ 53 * 2 ^ (e + 1074).toNat :=
        Nat.mul_lt_mul_of_pos_right hm.lt (Nat.two_pow_pos _)
    _ = 2 ^ 52 * 2 ^ ((e + 1074).toNat + 1) := by rw [Nat.pow_succ]; omega
    _ ≤ 2 ^ 52 * 2 ^ (e' + 1074).toNat :=
        Nat.mul_le_mul_left _ (Nat.pow_le_pow_right (by decide) (by omega))
    _ ≤ m' * 2 ^ (e' + 1074).toNat := Nat.mul_le_mul_right _ hfull

/-- Canonical significands compare by exponent first, and then as they are. -/
theorem IsCanonical.compare_eq {m m' : ℕ} {e e' : ℤ} (hm : IsCanonical m e)
    (hm' : IsCanonical m' e') : (compare e e').then (compare m m') =
      compare (m <<< (e + 1074).toNat) (m' <<< (e' + 1074).toNat) := by
  -- The greater exponent decides, and between equal exponents the significands do.
  rcases lt_trichotomy e e' with h | rfl | h
  · rw [compare_lt_iff_lt.mpr h, compare_lt_iff_lt.mpr (hm.shiftLeft_lt hm' h)]
    rfl
  · rw [compare_eq_iff_eq.mpr rfl, Nat.shiftLeft_eq, Nat.shiftLeft_eq]
    change compare m m' = _
    have hpos := Nat.two_pow_pos (e + 1074).toNat
    rcases lt_trichotomy m m' with hlt | rfl | hlt
    · rw [compare_lt_iff_lt.mpr hlt,
        compare_lt_iff_lt.mpr (Nat.mul_lt_mul_of_pos_right hlt hpos)]
    · rw [compare_eq_iff_eq.mpr rfl, compare_eq_iff_eq.mpr rfl]
    · rw [compare_gt_iff_gt.mpr hlt,
        compare_gt_iff_gt.mpr (Nat.mul_lt_mul_of_pos_right hlt hpos)]
  · rw [compare_gt_iff_gt.mpr h, compare_gt_iff_gt.mpr (hm'.shiftLeft_lt hm h)]
    rfl

/-- Comparing whole numbers as integers makes no difference, -/
theorem compare_natCast (a b : ℕ) : compare (a : ℤ) b = compare a b := by
  rw [← cmp_eq_compare, ← cmp_eq_compare]
  exact Int.natCast_strictMono.cmp_map_eq a b

/-- and comparing their opposites turns the order round. -/
theorem compare_neg_natCast (a b : ℕ) : compare (-a : ℤ) (-b) = (compare a b).swap := by
  rw [← cmp_eq_compare, ← cmp_eq_compare, cmp_swap]
  exact StrictAnti.cmp_map_eq (fun _ _ h => neg_lt_neg (Int.natCast_strictMono h)) a b

/-- A significand that is not zero has some units. -/
theorem shiftLeft_cast_pos {m : ℕ} (h : 0 < m) (k : ℕ) : (0 : ℤ) < (m <<< k : ℕ) := by
  rw [Nat.shiftLeft_eq]
  exact Int.natCast_pos.mpr (Nat.mul_pos h (Nat.two_pow_pos k))

/-- Nothing has no sign. -/
theorem apply_zero (sign : Sign) : sign.apply ((0 : ℕ) : ℤ) = 0 := by cases sign <;> rfl

/-- **Rounded numbers compare as their units do.** -/
theorem IsRounded.compare_eq (h : IsRounded sign units f) (h' : IsRounded sign' units' f') :
    f.compare f' = some (compare (sign.apply units) (sign'.apply units')) := by
  -- By cases of the two, a zero or not and of either sign, as the model compares them.
  cases h with
  | zero =>
    rw [apply_zero]
    cases h' with
    | zero =>
      rw [apply_zero]
      rfl
    | @finite m' e' hpos' hm' =>
      have hunits := shiftLeft_cast_pos hpos' (e' + 1074).toNat
      cases sign' with
      | positive => exact congrArg some (compare_lt_iff_lt.mpr hunits).symm
      | negative => exact congrArg some (compare_gt_iff_gt.mpr (neg_neg_of_pos hunits)).symm
  | @finite m e hpos hm =>
    have hunits := shiftLeft_cast_pos hpos (e + 1074).toNat
    cases h' with
    | zero =>
      rw [apply_zero]
      cases sign with
      | positive => exact congrArg some (compare_gt_iff_gt.mpr hunits).symm
      | negative => exact congrArg some (compare_lt_iff_lt.mpr (neg_neg_of_pos hunits)).symm
    | @finite m' e' hpos' hm' =>
      have hunits' := shiftLeft_cast_pos hpos' (e' + 1074).toNat
      have hcompare := hm.compare_eq hm'
      cases sign <;> cases sign'
      · exact congrArg some
          ((congrArg Ordering.swap hcompare).trans (compare_neg_natCast ..).symm)
      · exact congrArg some
          (compare_lt_iff_lt.mpr ((neg_neg_of_pos hunits).trans hunits')).symm
      · exact congrArg some
          (compare_gt_iff_gt.mpr ((neg_neg_of_pos hunits').trans hunits)).symm
      · exact congrArg some (hcompare.trans (compare_natCast ..).symm)

end Binary64

end GalaxyMarket
