import GalaxyMarket.Proofs.Exact
import GalaxyMarket.Proofs.Number.Value

/-!
# Doubles as real numbers

A finite double denotes a real number, its value counted in ones (`Binary64.Denotes`). Rounding
keeps the order, below zero as well (`Binary64.nearest_mono`), so that a sum or a difference lies
between any two doubles that the exact one lies between (`Binary64.Denotes.exists_add`,
`Binary64.Denotes.exists_sub`). What is a double itself is not rounded at all
(`Binary64.Denotes.mul`, `Binary64.Denotes.div`).

Whole numbers of up to 53 bits, divided by a power of two, are doubles (`Binary64.isDouble_div`),
and whole numbers are converted to the doubles that they are (`Binary64.denotes_ofInt`).

All of this holds of exact arithmetic too. `Binary64.IsReading` is what both have in common, so that
a rule of the program that is proved from it holds of either.
-/

namespace GalaxyMarket

namespace Binary64

open Float.Model UnpackedFloat

/-! ### Sums -/

section

variable {sign sign' : Sign} {units units' : ℕ} {f f' : UnpackedFloat}

theorem sign_neg_neg (sign : Sign) : - -sign = sign := by cases sign <;> rfl

/-- A sum is the difference to the opposite. -/
theorem add_eq_sub_neg (f f' : UnpackedFloat) : UnpackedFloat.add Format.binary64 f f' =
    UnpackedFloat.sub Format.binary64 f f'.neg := by
  -- Both go through the same cases; a sign that is turned twice is the sign itself.
  cases f with
  | notANumber => rfl
  | infinity sign =>
    cases f' with
    | infinity sign' =>
      change (if sign == sign' then _ else _) = if sign == - -sign' then _ else _
      rw [sign_neg_neg]
    | notANumber | zero | finite => rfl
  | zero sign =>
    cases f' with
    | zero sign' =>
      change (if sign == sign' then _ else _) = if sign == - -sign' then _ else _
      rw [sign_neg_neg]
    | finite sign' => cases sign' <;> rfl
    | infinity sign' => cases sign' <;> rfl
    | notANumber => rfl
  | finite sign m e =>
    cases f' with
    | finite sign' m' e' =>
      change UnpackedFloat.normalize _
          (_ + sign'.apply ((m' <<< (e' - min e e').toNat : ℕ) : ℤ)) _ _ =
        UnpackedFloat.normalize _ (_ - (-sign').apply ((m' <<< (e' - min e e').toNat : ℕ) : ℤ)) _ _
      rw [neg_apply, sub_neg_eq_add]
    | infinity sign' => cases sign' <;> rfl
    | notANumber | zero => rfl

/-- **A sum is rounded once.** -/
theorem IsRounded.add (h : IsRounded sign units f) (h' : IsRounded sign' units' f') :
    IsNearest (sign.apply units + sign'.apply units')
      (UnpackedFloat.add Format.binary64 f f') := by
  rw [add_eq_sub_neg, ← sub_neg_eq_add, ← neg_apply]
  exact h.sub h'.neg

end

/-! ### Rounding whole numbers of units -/

/-- The double nearest to a whole number of units, in units with their sign. -/
def nearest (v : ℤ) : ℤ := v.sign * roundUnits v.natAbs one

@[simp] theorem nearest_natCast (n : ℕ) : nearest n = roundUnits n one := by
  rcases Nat.eq_zero_or_pos n with rfl | hpos
  · rw [roundUnits_zero]
    rfl
  · rw [nearest, Int.sign_eq_one_of_pos (Int.natCast_pos.mpr hpos), one_mul, Int.natAbs_natCast]

/-- A sign is kept by rounding, -/
theorem nearest_neg (v : ℤ) : nearest (-v) = -nearest v := by
  rw [nearest, nearest, Int.sign_neg, Int.natAbs_neg, neg_mul]

/-- and so is the way in which its size is rounded. -/
theorem natAbs_nearest (v : ℤ) : (nearest v).natAbs = roundUnits v.natAbs one := by
  obtain ⟨n, rfl | rfl⟩ := v.eq_nat_or_neg
  · rw [nearest_natCast, Int.natAbs_natCast, Int.natAbs_natCast]
  · rw [nearest_neg, nearest_natCast, Int.natAbs_neg, Int.natAbs_neg, Int.natAbs_natCast,
      Int.natAbs_natCast]

/-- **Rounding keeps the order**, below zero as well. -/
theorem nearest_mono : Monotone nearest := by
  intro v w h
  -- A sign is kept, so that only numbers of units are left to compare.
  obtain ⟨m, rfl | rfl⟩ := v.eq_nat_or_neg <;> obtain ⟨n, rfl | rfl⟩ := w.eq_nat_or_neg <;>
    simp only [nearest_neg, nearest_natCast]
  · exact Int.ofNat_le.mpr (roundUnits_mono one (by omega))
  · -- Neither is below zero, and neither above.
    obtain ⟨rfl, rfl⟩ : m = 0 ∧ n = 0 := by omega
    simp
  · omega
  · exact neg_le_neg (Int.ofNat_le.mpr (roundUnits_mono one (by omega)))

/-- What has few bits but for some zeros behind them is not rounded, of either sign. -/
theorem nearest_mul_two_pow {m : ℤ} (h : m.natAbs ≤ 2 ^ 53) (e : ℕ) :
    nearest (m * 2 ^ e) = m * 2 ^ e := by
  obtain ⟨n, rfl | rfl⟩ := m.eq_nat_or_neg
  · exact_mod_cast (nearest_natCast _).trans
      (congrArg Nat.cast (roundUnits_mul_two_pow (by omega : n ≤ 2 ^ 53) e))
  · rw [neg_mul, nearest_neg, neg_inj]
    exact_mod_cast (nearest_natCast _).trans
      (congrArg Nat.cast (roundUnits_mul_two_pow (by omega : n ≤ 2 ^ 53) e))

section

variable {x y : Float} {v w : ℤ} {n d : ℕ}

/-- A result that was rounded once has the nearest value, as long as it is finite. -/
theorem hasValue_of_isNearest {f : UnpackedFloat} (hf : IsNearest v f)
    (hx : x.toModel.unpack = (Float.Model.pack f).unpack) (h : (nearest v).natAbs < overflow) :
    HasValue x (nearest v) := by
  obtain ⟨sign, hround, hsign⟩ := hf
  rw [natAbs_nearest] at h
  rw [nearest, ← hsign]
  exact hasValue_of_unpack_eq hround hx h

/-- A sum has the nearest value to the exact one, -/
theorem HasValue.nearest_add (hx : HasValue x v) (hy : HasValue y w)
    (h : (nearest (v + w)).natAbs < overflow) : HasValue (x + y) (nearest (v + w)) := by
  obtain ⟨sign, units, hx, rfl⟩ := hx
  obtain ⟨sign', units', hy, rfl⟩ := hy
  exact hasValue_of_isNearest (hx.add hy) rfl h

/-- and so has a difference. -/
theorem HasValue.nearest_sub (hx : HasValue x v) (hy : HasValue y w)
    (h : (nearest (v - w)).natAbs < overflow) : HasValue (x - y) (nearest (v - w)) := by
  obtain ⟨sign, units, hx, rfl⟩ := hx
  obtain ⟨sign', units', hy, rfl⟩ := hy
  exact hasValue_of_isNearest (hx.sub hy) rfl h

/-- **A product that is not negative** has the exact value rounded. -/
theorem HasValue.mul (hx : HasValue x n) (hy : HasValue y d)
    (h : roundUnits (n * d) (one * one) < overflow) :
    HasValue (x * y) (roundUnits (n * d) (one * one)) := by
  obtain ⟨sign, hround, hsign⟩ := hx.isRounded_mul hy
  have hxy : HasValue (x * y) _ := hasValue_of_unpack_eq hround rfl h
  rcases Nat.eq_zero_or_pos (n * d) with hzero | hpos
  · rw [hzero, roundUnits_zero, apply_zero] at hxy
    rwa [hzero, roundUnits_zero]
  · rwa [hsign hpos] at hxy

/-- A quotient that is a double is not rounded. -/
theorem roundUnits_eq_of_mul_eq {units num den : ℕ} (hden : 0 < den)
    (hunits : roundUnits units one = units) (h : num * one = units * den) :
    roundUnits num den = units := by
  calc roundUnits num den = roundUnits (num * one) (den * one) :=
        (roundUnits_mul_right num den one_pos).symm
    _ = roundUnits (units * den) (one * den) := by rw [h, Nat.mul_comm den]
    _ = units := by rw [roundUnits_mul_right units one hden, hunits]

end

/-! ### Conversion of whole numbers -/

/-- What a bit pattern is unpacked to, by the number that it writes. -/
theorem unpack_ofNat {exponent significand : ℕ} (hexponent : exponent < 2048)
    (hsignificand : significand < 2 ^ 52) :
    UnpackedFloat.unpack Format.binary64 (exponent * 2 ^ 52 + significand).toUInt64.toBitVec =
      unpackFields .positive exponent significand := by
  -- The word is given a name, because its number is only known by `hnat`.
  obtain ⟨bits, hbits⟩ : ∃ bits, (exponent * 2 ^ 52 + significand).toUInt64 = bits := ⟨_, rfl⟩
  have hnat : bits.toNat = exponent * 2 ^ 52 + significand := by
    rw [← hbits]
    exact UInt64.toNat_ofNat_of_lt' (by rw [UInt64.size]; omega)
  have hsign : signField bits = .positive := by
    have hfield := signField_eq bits
    rw [decide_eq_false (by rw [hnat, Nat.shiftLeft_eq]; omega)] at hfield
    cases h : signField bits with
    | positive => rfl
    | negative =>
      rw [h] at hfield
      cases hfield
  have hfield : (exponentField bits).toNat = exponent := by
    rw [toNat_exponentField, hnat, Nat.shiftRight_eq_div_pow]
    omega
  have hfield' : (significandField bits).toNat = significand := by
    rw [toNat_significandField, hnat, leadingBit, Nat.shiftLeft_eq]
    omega
  rw [hbits, unpack_eq, hsign, hfield, hfield']

/-- The pattern of a number of units: how many bits are spare, and the leading bits. -/
theorem unitBits_eq {units spare : ℕ} (h : units < overflow) (hspare : units.log2 - 52 = spare) :
    unitBits units = spare <<< 52 + units >>> spare := by
  rw [unitBits, if_neg (Nat.not_le.mpr h)]
  dsimp only
  rw [hspare]

/-- Few units are their own pattern, -/
theorem unitBits_of_lt {m : ℕ} (hm : m < 2 ^ 52) (h : m < overflow) : unitBits m = m := by
  have hspare : m.log2 - 52 = 0 := by
    rcases Nat.eq_zero_or_pos m with rfl | hpos
    · rfl
    · have := (Nat.log2_lt hpos.ne').mpr hm
      omega
  rw [unitBits_eq h hspare, Nat.zero_shiftLeft, Nat.zero_add, Nat.shiftRight_zero]

/-- and others are counted from their leading bit. -/
theorem unitBits_shiftLeft {significand k : ℕ} (hlt : significand < 2 ^ 52)
    (h : (2 ^ 52 + significand) <<< k < overflow) :
    unitBits ((2 ^ 52 + significand) <<< k) = (k + 1) * 2 ^ 52 + significand := by
  have hlog : (2 ^ 52 + significand).log2 = 52 :=
    (Nat.log2_eq_iff (by omega)).mpr ⟨Nat.le_add_right .., by omega⟩
  have hspare : ((2 ^ 52 + significand) <<< k).log2 - 52 = k := by
    have hshift := log2_mul_two_pow_div Nat.one_pos
      (by rw [Nat.div_one]; omega : 0 < (2 ^ 52 + significand) / 1) k
    rw [Nat.div_one, Nat.div_one, hlog] at hshift
    rw [Nat.shiftLeft_eq, hshift]
    omega
  rw [unitBits_eq h hspare, Nat.shiftLeft_shiftRight, Nat.shiftLeft_eq]
  omega

/-- **The bit pattern of a double** is unpacked to it. -/
theorem unpack_unitBits {units : ℕ} {f : UnpackedFloat} (hf : IsRounded .positive units f)
    (h : units < overflow) :
    UnpackedFloat.unpack Format.binary64 (unitBits units).toUInt64.toBitVec = f := by
  cases hf with
  | zero =>
    have hbits : unitBits 0 = 0 * 2 ^ 52 + 0 := unitBits_of_lt (Nat.two_pow_pos 52) h
    rw [hbits, unpack_ofNat (by decide) (Nat.two_pow_pos 52)]
    rfl
  | @finite m e hpos hm =>
    have hlt := hm.lt
    have hle := hm.le
    have he : e ≤ 971 := hm.lt_overflow_iff.mp h
    by_cases hnormal : 2 ^ 52 ≤ m
    · -- The leading bit is not stored, but raises the exponent field by one.
      obtain ⟨significand, rfl⟩ : ∃ significand, m = 2 ^ 52 + significand :=
        ⟨m - 2 ^ 52, by omega⟩
      rw [unitBits_shiftLeft (by omega) h, unpack_ofNat (by omega) (by omega), unpackFields,
        if_neg (by omega), if_neg (by omega)]
      exact finite_congr rfl (by omega)
    · obtain rfl : e = -1074 := hm.full.resolve_left hnormal
      have hbits : unitBits (m <<< ((-1074 : ℤ) + 1074).toNat) = 0 * 2 ^ 52 + m := by
        rw [Nat.zero_mul, Nat.zero_add]
        exact unitBits_of_lt (not_le.mp hnormal) h
      rw [hbits, unpack_ofNat (by decide) (by omega), unpackFields, if_neg (by decide), if_pos rfl,
        dif_neg hpos.ne']

/-- So the float that is made of some units has this many. -/
theorem hasValue_toFloat {units : ℕ} {f : UnpackedFloat} (hf : IsRounded .positive units f)
    (h : units < overflow) : HasValue (toFloat (.finite false units)) units := by
  refine hasValue_of_unpack_eq (f := f) hf ?_ h
  rw [← unpack_unitBits hf h]
  show (Float.Model.pack (UnpackedFloat.unpack Format.binary64
    (0 + unitBits units).toUInt64.toBitVec)).unpack = _
  rw [Nat.zero_add]

/-- Few bits with few enough zeros behind them do not overflow. -/
theorem mul_two_pow_lt_overflow {n e : ℕ} (hn : n ≤ 2 ^ 53) (he : e ≤ 1074) :
    n * 2 ^ e < overflow := by
  obtain ⟨k, hk⟩ : ∃ k, k = 2098 := ⟨_, rfl⟩
  rw [overflow_eq_two_pow hk]
  calc n * 2 ^ e ≤ 2 ^ 53 * 2 ^ e := Nat.mul_le_mul_right _ hn
    _ = 2 ^ (53 + e) := (Nat.pow_add ..).symm
    _ < 2 ^ k := Nat.pow_lt_pow_right (by decide) (by omega)

/-- A whole number of 53 bits is converted without rounding. -/
theorem hasValue_ofInt {n : ℕ} (h : n ≤ 2 ^ 53) :
    HasValue (Scalar.ofInt (n : ℤ)) (n * one : ℕ) := by
  obtain ⟨e, he⟩ : ∃ e, e = 1074 := ⟨_, rfl⟩
  -- The unpacked number is that of rounding `n`, which changes nothing.
  have hround : ∃ f, IsRounded .positive (n * one) f := by
    rcases Nat.eq_zero_or_pos n with rfl | hpos
    · rw [Nat.zero_mul]
      exact ⟨_, .zero⟩
    · have hround := isRounded_round .positive hpos (e := 0) (k := e) (by omega)
      rw [roundUnits_mul_two_pow h, ← one_eq_two_pow he] at hround
      exact ⟨_, hround⟩
  obtain ⟨f, hf⟩ := hround
  have hlt : n * one < overflow := by
    rw [one_eq_two_pow he]
    exact mul_two_pow_lt_overflow h he.le
  show HasValue (toFloat (.finite (decide ((n : ℤ) < 0)) (roundUnits (n : ℤ).natAbs 1))) _
  rw [decide_eq_false (Int.not_lt.mpr (Int.natCast_nonneg n)), Int.natAbs_natCast,
    roundUnits_of_le h]
  exact hasValue_toFloat hf hlt

/-! ### The numbers that doubles denote -/

/-- **A finite double denotes a real number**: its value, counted in ones. -/
def Denotes (x : Float) (r : ℝ) : Prop := ∃ v : ℤ, HasValue x v ∧ (v : ℝ) = r * one

/-- A real number that is a double, not too large. -/
def IsDouble (r : ℝ) : Prop := ∃ v : ℤ, nearest v = v ∧ v.natAbs < overflow ∧ (v : ℝ) = r * one

theorem one_cast_pos : (0 : ℝ) < one := Nat.cast_pos.mpr one_pos

/-- **Whole numbers of 53 bits over a power of two** are doubles. -/
theorem isDouble_div {m : ℤ} (hm : m.natAbs ≤ 2 ^ 53) {k : ℕ} (hk : k ≤ 1074) :
    IsDouble (m / 2 ^ k) := by
  obtain ⟨n, hn⟩ : ∃ n, n = 1074 := ⟨_, rfl⟩
  -- What the divisor leaves of a one are the zeros behind the number.
  obtain ⟨e, he⟩ : ∃ e, n = k + e := ⟨n - k, by omega⟩
  refine ⟨m * 2 ^ e, nearest_mul_two_pow hm e, ?_, ?_⟩
  · rw [Int.natAbs_mul, Int.natAbs_pow]
    exact mul_two_pow_lt_overflow hm (by omega)
  · rw [one_eq_two_pow hn, he]
    push_cast
    rw [pow_add]
    field_simp

/-- The same of natural numbers. -/
theorem isDouble_natCast_div {n : ℕ} (hn : n ≤ 2 ^ 53) {k : ℕ} (hk : k ≤ 1074) :
    IsDouble (n / 2 ^ k) := by
  have h := isDouble_div (m := n) (by rwa [Int.natAbs_natCast]) hk
  rwa [Int.cast_natCast] at h

/-- A power of two may be one. -/
theorem isDouble_intCast {m : ℤ} (hm : m.natAbs ≤ 2 ^ 53) : IsDouble m := by
  have h := isDouble_div hm (Nat.zero_le 1074)
  rwa [pow_zero, div_one] at h

theorem denotes_zero : Denotes 0 0 := ⟨0, hasValue_zero, by simp⟩

theorem denotes_one : Denotes 1 1 := ⟨one, hasValue_one, by simp⟩

/-- **Whole numbers** of 53 bits are converted to what they are. -/
theorem denotes_ofInt {n : ℕ} (h : n ≤ 2 ^ 53) : Denotes (Scalar.ofInt (n : ℤ)) n :=
  ⟨_, hasValue_ofInt h, by push_cast; rfl⟩

section

variable {x y : Float} {r s lo hi : ℝ}

/-- Values are ordered as the numbers that they count. -/
theorem cast_le_cast_iff {v w : ℤ} (hv : (v : ℝ) = r * one) (hw : (w : ℝ) = s * one) :
    v ≤ w ↔ r ≤ s := by
  rw [← Int.cast_le (R := ℝ), hv, hw, mul_le_mul_iff_left₀ one_cast_pos]

/-- What is rounded stays between two doubles that it lies between. -/
theorem exists_nearest {v : ℤ} (hv : (v : ℝ) = r * one) (hlo : IsDouble lo) (hhi : IsDouble hi)
    (h : r ∈ Set.Icc lo hi) :
    (nearest v).natAbs < overflow ∧ ∃ t ∈ Set.Icc lo hi, (nearest v : ℝ) = t * one := by
  obtain ⟨a, ha, halt, hacast⟩ := hlo
  obtain ⟨b, hb, hblt, hbcast⟩ := hhi
  -- The two ends are rounded to themselves.
  have hlow : a ≤ nearest v :=
    ha.symm.le.trans (nearest_mono ((cast_le_cast_iff hacast hv).mpr h.1))
  have hhigh : nearest v ≤ b :=
    (nearest_mono ((cast_le_cast_iff hv hbcast).mpr h.2)).trans hb.le
  have hcast : (nearest v : ℝ) = nearest v / one * one := (div_mul_cancel₀ _ one_cast_pos.ne').symm
  exact ⟨by omega, _, ⟨(cast_le_cast_iff hacast hcast).mp hlow,
    (cast_le_cast_iff hcast hbcast).mp hhigh⟩, hcast⟩

/-- **A sum stays between two doubles** that the exact one lies between, -/
theorem Denotes.exists_add (hx : Denotes x r) (hy : Denotes y s) (hlo : IsDouble lo)
    (hhi : IsDouble hi) (h : r + s ∈ Set.Icc lo hi) : ∃ t ∈ Set.Icc lo hi, Denotes (x + y) t := by
  obtain ⟨v, hv, hvcast⟩ := hx
  obtain ⟨w, hw, hwcast⟩ := hy
  have hcast : ((v + w : ℤ) : ℝ) = (r + s) * one := by
    rw [Int.cast_add, hvcast, hwcast, add_mul]
  obtain ⟨hlt, t, ht, htcast⟩ := exists_nearest hcast hlo hhi h
  exact ⟨t, ht, _, hv.nearest_add hw hlt, htcast⟩

/-- and so does a difference. -/
theorem Denotes.exists_sub (hx : Denotes x r) (hy : Denotes y s) (hlo : IsDouble lo)
    (hhi : IsDouble hi) (h : r - s ∈ Set.Icc lo hi) : ∃ t ∈ Set.Icc lo hi, Denotes (x - y) t := by
  obtain ⟨v, hv, hvcast⟩ := hx
  obtain ⟨w, hw, hwcast⟩ := hy
  have hcast : ((v - w : ℤ) : ℝ) = (r - s) * one := by
    rw [Int.cast_sub, hvcast, hwcast, sub_mul]
  obtain ⟨hlt, t, ht, htcast⟩ := exists_nearest hcast hlo hhi h
  exact ⟨t, ht, _, hv.nearest_sub hw hlt, htcast⟩

/-- What is not negative is a number of units. -/
theorem exists_natCast {v : ℤ} (hv : (v : ℝ) = r * one) (hr : 0 ≤ r) : ∃ n : ℕ, v = n := by
  refine Int.eq_ofNat_of_zero_le ?_
  rw [← Int.cast_nonneg_iff (R := ℝ), hv]
  exact mul_nonneg hr one_cast_pos.le

/-- A double that is not negative denotes a number of units, -/
theorem Denotes.exists_units (hx : Denotes x r) (hr : 0 ≤ r) :
    ∃ n : ℕ, HasValue x n ∧ (n : ℝ) = r * one := by
  obtain ⟨v, hv, hcast⟩ := hx
  obtain ⟨n, rfl⟩ := exists_natCast hcast hr
  exact ⟨n, hv, by exact_mod_cast hcast⟩

/-- and such a number is not rounded. -/
theorem IsDouble.exists_units (h : IsDouble r) (hr : 0 ≤ r) :
    ∃ n : ℕ, roundUnits n one = n ∧ n < overflow ∧ (n : ℝ) = r * one := by
  obtain ⟨v, hv, hlt, hcast⟩ := h
  obtain ⟨n, rfl⟩ := exists_natCast hcast hr
  rw [nearest_natCast, Nat.cast_inj] at hv
  exact ⟨n, hv, by simpa using hlt, by exact_mod_cast hcast⟩

/-- A product that is a double is not rounded, -/
theorem Denotes.mul (hx : Denotes x r) (hy : Denotes y s) (hr : 0 ≤ r) (hs : 0 ≤ s)
    (h : IsDouble (r * s)) : Denotes (x * y) (r * s) := by
  obtain ⟨n, hn, hncast⟩ := hx.exists_units hr
  obtain ⟨d, hd, hdcast⟩ := hy.exists_units hs
  obtain ⟨units, hunits, hlt, hcast⟩ := h.exists_units (mul_nonneg hr hs)
  -- The product of two numbers of units is counted in units of a unit.
  have hround : roundUnits (n * d) (one * one) = units := by
    refine roundUnits_eq_of_mul_eq (Nat.mul_pos one_pos one_pos) hunits ?_
    have hproduct : (n * d * one : ℝ) = units * (one * one) := by
      rw [hncast, hdcast, hcast]
      ring
    exact_mod_cast hproduct
  have hmul := hn.mul hd (hround ▸ hlt)
  rw [hround] at hmul
  exact ⟨units, hmul, by exact_mod_cast hcast⟩

/-- nor is such a quotient. -/
theorem Denotes.div (hx : Denotes x r) (hy : Denotes y s) (hr : 0 ≤ r) (hs : 0 < s)
    (h : IsDouble (r / s)) : Denotes (x / y) (r / s) := by
  obtain ⟨n, hn, hncast⟩ := hx.exists_units hr
  obtain ⟨d, hd, hdcast⟩ := hy.exists_units hs.le
  obtain ⟨units, hunits, hlt, hcast⟩ := h.exists_units (div_nonneg hr hs.le)
  have hpos : 0 < d := by
    rw [← Nat.cast_pos (α := ℝ), hdcast]
    exact mul_pos hs one_cast_pos
  have hround : roundUnits n d = units := by
    refine roundUnits_eq_of_mul_eq hpos hunits ?_
    have hquotient : (n * one : ℝ) = units * d := by
      rw [hncast, hdcast, hcast]
      field_simp
    exact_mod_cast hquotient
  have hdiv := hn.div hd hpos (hround ▸ hlt)
  rw [hround] at hdiv
  exact ⟨units, hdiv, by exact_mod_cast hcast⟩

end

/-! ### Readings -/

/-- **A reading of an arithmetic as real numbers**, in which no operation does more than round to a
double. -/
structure IsReading {α : Type} [Scalar α] (reads : α → ℝ → Prop) : Prop where
  zero : reads 0 0
  one : reads 1 1
  ofInt : ∀ {n : ℕ}, n ≤ 2 ^ 53 → reads (Scalar.ofInt n) n
  exists_add : ∀ {x y r s lo hi}, reads x r → reads y s → IsDouble lo → IsDouble hi →
    r + s ∈ Set.Icc lo hi → ∃ t ∈ Set.Icc lo hi, reads (x + y) t
  exists_sub : ∀ {x y r s lo hi}, reads x r → reads y s → IsDouble lo → IsDouble hi →
    r - s ∈ Set.Icc lo hi → ∃ t ∈ Set.Icc lo hi, reads (x - y) t
  mul : ∀ {x y r s}, reads x r → reads y s → 0 ≤ r → 0 ≤ s → IsDouble (r * s) →
    reads (x * y) (r * s)
  div : ∀ {x y r s}, reads x r → reads y s → 0 ≤ r → 0 < s → IsDouble (r / s) →
    reads (x / y) (r / s)

/-- Doubles are read as what they denote, -/
theorem isReading_denotes : IsReading Denotes where
  zero := denotes_zero
  one := denotes_one
  ofInt := denotes_ofInt
  exists_add := Denotes.exists_add
  exists_sub := Denotes.exists_sub
  mul := Denotes.mul
  div := Denotes.div

/-- and real numbers as themselves. -/
theorem isReading_eq : IsReading (Eq : ℝ → ℝ → Prop) where
  zero := rfl
  one := rfl
  ofInt _ := by rw [Scalar.ofInt_eq, Int.cast_natCast]
  exists_add := by
    rintro x y r s lo hi rfl rfl - - h
    exact ⟨_, h, rfl⟩
  exists_sub := by
    rintro x y r s lo hi rfl rfl - - h
    exact ⟨_, h, rfl⟩
  mul := by
    rintro x y r s rfl rfl - - -
    rfl
  div := by
    rintro x y r s rfl rfl - - -
    rfl

namespace IsReading

variable {α : Type} [Scalar α] {reads : α → ℝ → Prop}

/-- A difference that is a double is not rounded. -/
theorem sub (h : IsReading reads) {x y : α} {r s : ℝ} (hx : reads x r) (hy : reads y s)
    (hdouble : IsDouble (r - s)) : reads (x - y) (r - s) := by
  obtain ⟨t, ht, hxy⟩ := h.exists_sub hx hy hdouble hdouble ⟨le_rfl, le_rfl⟩
  rwa [le_antisymm ht.2 ht.1] at hxy

/-- **The sum of numbers from zero to one** is no more than how many they are, however its parts are
rounded. -/
theorem exists_sum (h : IsReading reads) {xs : List α}
    (hxs : ∀ x ∈ xs, ∃ r ∈ Set.Icc 0 1, reads x r) (hlength : xs.length ≤ 2 ^ 53) :
    ∃ t ∈ Set.Icc (0 : ℝ) xs.length, reads (Scalar.sum xs) t := by
  -- The list is taken apart from behind, where the last number is added.
  induction xs using List.reverseRecOn with
  | nil => exact ⟨0, by simp, h.zero⟩
  | append_singleton xs x ih =>
    rw [List.length_append, List.length_singleton] at hlength
    obtain ⟨t, ht, hsum⟩ := ih (fun y hy => hxs y (List.mem_append_left _ hy)) (by omega)
    obtain ⟨r, hr, hx⟩ := hxs x (by simp)
    have hlo : IsDouble 0 := by exact_mod_cast isDouble_intCast (m := 0) (by decide)
    have hhi : IsDouble ((xs ++ [x]).length : ℕ) := by
      rw [List.length_append, List.length_singleton]
      exact_mod_cast isDouble_intCast (m := (xs.length + 1 : ℕ)) (by omega)
    have hbounds : t + r ∈ Set.Icc 0 ((xs ++ [x]).length : ℝ) := by
      rw [List.length_append, List.length_singleton]
      push_cast
      exact ⟨add_nonneg ht.1 hr.1, add_le_add ht.2 hr.2⟩
    have hfold : Scalar.sum (xs ++ [x]) = Scalar.sum xs + x := by
      rw [Scalar.sum, List.foldl_append]
      rfl
    rw [hfold]
    exact h.exists_add hsum hx hlo hhi hbounds

end IsReading

end Binary64

end GalaxyMarket
