import GalaxyMarket.Proofs.Number.Operations

/-!
# The values of finite doubles

A finite double has a value, its units with their sign (`Binary64.HasValue`). Comparisons compare
values (`Binary64.HasValue.le_iff`), and what an operation gives has the exact value rounded, as
long as that is not too large.
-/

namespace GalaxyMarket

namespace Binary64

open Float.Model UnpackedFloat

/-- A finite double whose units, with its sign, are `v`. -/
def HasValue (x : Float) (v : ℤ) : Prop :=
  ∃ sign units, IsRounded sign units x.toModel.unpack ∧ sign.apply (units : ℕ) = v

variable {x y : Float} {v w : ℤ} {n d : ℕ}

/-- Every finite double has a value, -/
theorem exists_hasValue (hfinite : Scalar.isFinite x = true) : ∃ v, HasValue x v := by
  obtain ⟨sign, units, h⟩ := exists_isRounded hfinite
  exact ⟨_, sign, units, h, rfl⟩

/-- and only these have. -/
theorem HasValue.isFinite (h : HasValue x v) : Scalar.isFinite x = true := by
  obtain ⟨sign, units, h, -⟩ := h
  exact h.isFinite

/-- A value that is not negative is a number of units. -/
theorem HasValue.exists_sign (h : HasValue x n) :
    ∃ sign, IsRounded sign n x.toModel.unpack ∧ (0 < n → sign = .positive) := by
  obtain ⟨sign, units, h, hvalue⟩ := h
  obtain rfl : units = n := by
    have hunits := natAbs_apply sign units
    rw [hvalue] at hunits
    exact hunits.symm
  refine ⟨sign, h, fun hpos => ?_⟩
  cases sign with
  | positive => rfl
  | negative =>
    change (-units : ℤ) = units at hvalue
    omega

/-- A value has not too many units. -/
theorem HasValue.lt_overflow (h : HasValue x n) : n < overflow := by
  obtain ⟨sign, h, -⟩ := h.exists_sign
  exact h.lt_overflow

/-- Zero has no units, -/
theorem hasValue_zero : HasValue 0 0 := ⟨.positive, 0, .zero, rfl⟩

/-- and one has as many as there are in a whole. -/
theorem hasValue_one : HasValue 1 one := by
  have hm : IsCanonical (2 ^ 52) (-52) := ⟨by decide, by decide, Or.inl le_rfl⟩
  have hunits : 2 ^ 52 <<< ((-52 : ℤ) + 1074).toNat = one := by decide +kernel
  exact ⟨.positive, one, hunits ▸ IsRounded.finite (by decide) hm, rfl⟩

/-! ### Comparing -/

/-- **Finite doubles compare as their values do.** -/
theorem HasValue.compare_eq (hx : HasValue x v) (hy : HasValue y w) :
    x.toModel.unpack.compare y.toModel.unpack = some (compare v w) := by
  obtain ⟨sign, units, hx, rfl⟩ := hx
  obtain ⟨sign', units', hy, rfl⟩ := hy
  exact hx.compare_eq hy

theorem HasValue.lt_iff (hx : HasValue x v) (hy : HasValue y w) :
    Scalar.lt x y = true ↔ v < w := by
  have hlt : Scalar.lt x y = true ↔ x.toModel.unpack.lt y.toModel.unpack = true :=
    ⟨fun h => of_decide_eq_true (of_decide_eq_true h), fun h => decide_eq_true (decide_eq_true h)⟩
  rw [hlt, UnpackedFloat.lt, hx.compare_eq hy, beq_iff_eq, Option.some.injEq]
  exact compare_lt_iff_lt

theorem le_iff_unpack : Scalar.le x y = true ↔ x.toModel.unpack.le y.toModel.unpack = true :=
  ⟨fun h => of_decide_eq_true (of_decide_eq_true h), fun h => decide_eq_true (decide_eq_true h)⟩

theorem HasValue.le_iff (hx : HasValue x v) (hy : HasValue y w) :
    Scalar.le x y = true ↔ v ≤ w := by
  rw [le_iff_unpack, UnpackedFloat.le, hx.compare_eq hy]
  exact Std.isLE_compare

theorem HasValue.le_of_infinity (hx : HasValue x v)
    (hy : y.toModel.unpack = .infinity .positive) : Scalar.le x y = true := by
  obtain ⟨sign, units, hx, -⟩ := hx
  rw [le_iff_unpack, hy]
  generalize x.toModel.unpack = f at hx
  cases hx <;> rfl

theorem HasValue.ofFloat_eq (h : HasValue x n) (hpos : 0 < n) : ofFloat x = .finite false n := by
  obtain ⟨sign, h, hsign⟩ := h.exists_sign
  rw [Binary64.ofFloat_eq, h.ofUnpacked_eq, hsign hpos]
  rfl

/-- A finite double above zero has some units, and no sign. -/
theorem exists_hasValue_of_pos (hfinite : Scalar.isFinite x = true)
    (hpos : Scalar.lt 0 x = true) : ∃ n : ℕ, 0 < n ∧ HasValue x n := by
  obtain ⟨v, hv⟩ := exists_hasValue hfinite
  have hvpos : 0 < v := (hasValue_zero.lt_iff hv).mp hpos
  obtain ⟨n, rfl⟩ := Int.eq_ofNat_of_zero_le hvpos.le
  exact ⟨n, Int.natCast_pos.mp hvpos, hv⟩

/-! ### Operations -/

/-- What is packed has its value, if that is not too large. -/
theorem hasValue_of_unpack_eq {sign : Sign} {f : UnpackedFloat} (hf : IsRounded sign n f)
    (hx : x.toModel.unpack = (Float.Model.pack f).unpack) (hn : n < overflow) :
    HasValue x (sign.apply n) := by
  rw [hf.unpack_pack, if_pos hn] at hx
  exact ⟨sign, n, hx ▸ hf, rfl⟩

/-- And if it is finite, it was not too large. -/
theorem lt_overflow_of_unpack_eq {sign : Sign} {f : UnpackedFloat} (hf : IsRounded sign n f)
    (hx : x.toModel.unpack = (Float.Model.pack f).unpack) (hfinite : Scalar.isFinite x = true) :
    n < overflow := by
  by_contra hlarge
  have hfinite : x.toModel.unpack.isFinite = true := hfinite
  rw [hx, hf.unpack_pack, if_neg hlarge] at hfinite
  cases hfinite

/-- The difference is worked out exactly and then rounded, and a rounding to zero has no sign. -/
theorem HasValue.isNearest_sub (hx : HasValue x (w + n)) (hy : HasValue y w) :
    ∃ sign, IsRounded sign (roundUnits n one)
        (UnpackedFloat.sub Format.binary64 x.toModel.unpack y.toModel.unpack) ∧
      sign.apply (roundUnits n one) = roundUnits n one := by
  obtain ⟨sign, units, hx, hvalue⟩ := hx
  obtain ⟨sign', units', hy, hvalue'⟩ := hy
  obtain ⟨side, hround, hside⟩ := hx.sub hy
  rw [hvalue, hvalue', add_sub_cancel_left, Int.natAbs_natCast] at hround hside
  refine ⟨side, hround, ?_⟩
  -- The sign of a zero does not count.
  rcases Nat.eq_zero_or_pos n with rfl | hpos
  · rw [roundUnits_zero, apply_zero]
    rfl
  · rwa [Int.sign_eq_one_of_pos (Int.natCast_pos.mpr hpos), one_mul] at hside

/-- **A difference that is not negative** has the exact value rounded, -/
theorem HasValue.sub (hx : HasValue x (w + n)) (hy : HasValue y w)
    (hn : roundUnits n one < overflow) : HasValue (x - y) (roundUnits n one) := by
  obtain ⟨sign, hround, hsign⟩ := hx.isNearest_sub hy
  rw [← hsign]
  exact hasValue_of_unpack_eq hround rfl hn

/-- and is finite only if that is not too large. -/
theorem HasValue.lt_overflow_of_sub (hx : HasValue x (w + n)) (hy : HasValue y w)
    (hfinite : Scalar.isFinite (x - y) = true) : roundUnits n one < overflow := by
  obtain ⟨sign, hround, -⟩ := hx.isNearest_sub hy
  exact lt_overflow_of_unpack_eq hround rfl hfinite

/-- So is a quotient -/
theorem HasValue.isRounded_div (hx : HasValue x n) (hy : HasValue y d) (hd : 0 < d) :
    ∃ sign, IsRounded sign (roundUnits n d)
        (UnpackedFloat.div Format.binary64 x.toModel.unpack y.toModel.unpack) ∧
      sign.apply (roundUnits n d) = roundUnits n d := by
  obtain ⟨sign, hx, hpos⟩ := hx.exists_sign
  obtain ⟨sign', hy, hpos'⟩ := hy.exists_sign
  refine ⟨sign / sign', hx.div hy hd, ?_⟩
  rcases Nat.eq_zero_or_pos n with rfl | hn
  · rw [roundUnits_zero, apply_zero]
    rfl
  · rw [hpos hn, hpos' hd]
    rfl

/-- **A quotient that is not negative** has the exact value rounded, -/
theorem HasValue.div (hx : HasValue x n) (hy : HasValue y d) (hd : 0 < d)
    (hn : roundUnits n d < overflow) : HasValue (x / y) (roundUnits n d) := by
  obtain ⟨sign, hround, hsign⟩ := hx.isRounded_div hy hd
  rw [← hsign]
  exact hasValue_of_unpack_eq hround rfl hn

/-- and is finite only if that is not too large. -/
theorem HasValue.lt_overflow_of_div (hx : HasValue x n) (hy : HasValue y d) (hd : 0 < d)
    (hfinite : Scalar.isFinite (x / y) = true) : roundUnits n d < overflow := by
  obtain ⟨sign, hround, -⟩ := hx.isRounded_div hy hd
  exact lt_overflow_of_unpack_eq hround rfl hfinite

/-- The opposite of a double has the opposite value. -/
theorem HasValue.neg (hx : HasValue x v) : HasValue (-x) (-v) := by
  obtain ⟨sign, units, hx, rfl⟩ := hx
  rw [← neg_apply]
  exact hasValue_of_unpack_eq hx.neg rfl hx.lt_overflow

/-- and so is a product. -/
theorem HasValue.isRounded_mul (hx : HasValue x n) (hy : HasValue y d) :
    ∃ sign, IsRounded sign (roundUnits (n * d) (one * one))
        (UnpackedFloat.mul Format.binary64 x.toModel.unpack y.toModel.unpack) ∧
      (0 < n * d → sign = .positive) := by
  obtain ⟨sign, hx, hpos⟩ := hx.exists_sign
  obtain ⟨sign', hy, hpos'⟩ := hy.exists_sign
  refine ⟨sign * sign', hx.mul hy, fun hproduct => ?_⟩
  rw [hpos (Nat.pos_of_mul_pos_right hproduct), hpos' (Nat.pos_of_mul_pos_left hproduct)]
  rfl

/-- A product of numbers that are not negative is not below zero, though it may be infinite. -/
theorem HasValue.le_mul {z : Float} (hz : HasValue z 0) (hx : HasValue x n) (hy : HasValue y d) :
    Scalar.le z (x * y) = true := by
  obtain ⟨sign, hround, hsign⟩ := hx.isRounded_mul hy
  by_cases hlt : roundUnits (n * d) (one * one) < overflow
  · have hxy : HasValue (x * y) _ := hasValue_of_unpack_eq hround rfl hlt
    rw [hz.le_iff hxy]
    rcases Nat.eq_zero_or_pos (n * d) with hzero | hpos
    · rw [hzero, roundUnits_zero, apply_zero]
    · rw [hsign hpos]
      exact Int.natCast_nonneg _
  · refine hz.le_of_infinity ?_
    change (Float.Model.pack (UnpackedFloat.mul ..)).unpack = _
    rw [hround.unpack_pack, if_neg hlt, hsign]
    -- Nothing times anything does not overflow.
    refine Nat.pos_of_ne_zero fun hzero => hlt ?_
    rw [hzero, roundUnits_zero]
    exact overflow_pos

end Binary64

end GalaxyMarket
