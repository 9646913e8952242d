import Mathlib
import GalaxyMarket.Proofs.Market.PriceRange
import GalaxyMarket.Proofs.Number.Value

/-!
# Rescaling keeps the order of potentials

In double precision rescaling rounds a difference, a quotient and a product, and cuts what comes of
it twice. Each of these keeps the order, so that a higher potential never makes a lower price; and
none of them touches the ends. What is subtracted from the lowest potential is its equal, what
divides the highest range is itself.

All of it is said about the values of finite doubles (`Binary64.HasValue`), on which rounding is
monotone (`Binary64.roundUnits_mono`). A range that is not flat is finite and has a positive value
(`exists_range_of_not_isFlat`), so that no step overflows or divides by zero.
-/

namespace GalaxyMarket

open Binary64

variable {x y z lo hi : Float} {v w : ℤ} {n d : ℕ}

/-! ### The order of finite doubles -/

/-- Whether a double is finite. -/
abbrev IsFinite (x : Float) : Prop := Scalar.isFinite x = true

/-- On finite doubles the comparison is that of their values. It is reflexive, -/
theorem le_refl_of_isFinite (hx : IsFinite x) : Scalar.le x x = true := by
  obtain ⟨v, hv⟩ := exists_hasValue hx
  exact (hv.le_iff hv).mpr le_rfl

/-- transitive, -/
theorem le_trans_of_isFinite (hx : IsFinite x) (hy : IsFinite y) (hz : IsFinite z)
    (hxy : Scalar.le x y = true) (hyz : Scalar.le y z = true) : Scalar.le x z = true := by
  obtain ⟨u, hu⟩ := exists_hasValue hx
  obtain ⟨v, hv⟩ := exists_hasValue hy
  obtain ⟨w, hw⟩ := exists_hasValue hz
  exact (hu.le_iff hw).mpr (((hu.le_iff hv).mp hxy).trans ((hv.le_iff hw).mp hyz))

/-- and total: of two doubles one is less, or the other is no greater. -/
theorem lt_cases_of_isFinite (hx : IsFinite x) (hy : IsFinite y) :
    (Scalar.lt x y = true ∧ Scalar.le x y = true) ∨
      (Scalar.lt x y = false ∧ Scalar.le y x = true) := by
  obtain ⟨v, hv⟩ := exists_hasValue hx
  obtain ⟨w, hw⟩ := exists_hasValue hy
  rcases lt_or_ge v w with h | h
  · exact Or.inl ⟨(hv.lt_iff hw).mpr h, (hv.le_iff hw).mpr h.le⟩
  · exact Or.inr ⟨Bool.eq_false_iff.mpr (mt (hv.lt_iff hw).mp (not_lt.mpr h)),
      (hw.le_iff hv).mpr h⟩

/-- The lesser of two finite doubles is one of them, and no greater than the other. -/
theorem minNum_cases (hx : IsFinite x) (hy : IsFinite y) :
    (Scalar.minNum x y = x ∧ Scalar.le x y = true) ∨
      (Scalar.minNum x y = y ∧ Scalar.le y x = true) := by
  have hnumber : Scalar.isNumber y = true := le_refl_of_isFinite hy
  unfold Scalar.minNum
  rw [hnumber]
  rcases lt_cases_of_isFinite hx hy with ⟨hlt, hle⟩ | ⟨hlt, hle⟩ <;> rw [hlt]
  · exact Or.inl ⟨rfl, hle⟩
  · exact Or.inr ⟨rfl, hle⟩

/-- The greater of two finite doubles is one of them, and no less than the other. -/
theorem maxNum_cases (hx : IsFinite x) (hy : IsFinite y) :
    (Scalar.maxNum x y = x ∧ Scalar.le y x = true) ∨
      (Scalar.maxNum x y = y ∧ Scalar.le x y = true) := by
  have hnumber : Scalar.isNumber y = true := le_refl_of_isFinite hy
  unfold Scalar.maxNum
  rw [hnumber]
  rcases lt_cases_of_isFinite hy hx with ⟨hlt, hle⟩ | ⟨hlt, hle⟩ <;> rw [hlt]
  · exact Or.inl ⟨rfl, hle⟩
  · exact Or.inr ⟨rfl, hle⟩

/-- A finite double that is not below zero has some units. -/
theorem exists_hasValue_of_nonneg (hx : IsFinite x) (hle : Scalar.le 0 x = true) :
    ∃ n : ℕ, HasValue x n := by
  obtain ⟨v, hv⟩ := exists_hasValue hx
  obtain ⟨n, rfl⟩ := Int.eq_ofNat_of_zero_le ((hasValue_zero.le_iff hv).mp hle)
  exact ⟨n, hv⟩

/-! ### The extent -/

/-- `lo` and `hi` are the least and the greatest of some doubles. -/
structure Spans (lo hi : Float) (xs : List Float) : Prop where
  least_mem : lo ∈ xs
  greatest_mem : hi ∈ xs
  least_le : ∀ x ∈ xs, Scalar.le lo x = true
  le_greatest : ∀ x ∈ xs, Scalar.le x hi = true

/-- One more double may be less than the least so far, or greater than the greatest. -/
theorem Spans.insert {xs : List Float} (h : Spans lo hi xs) (hfinite : ∀ x ∈ xs, IsFinite x)
    (hx : IsFinite x) : Spans (Scalar.minNum lo x) (Scalar.maxNum hi x) (xs ++ [x]) := by
  have hlo := hfinite lo h.least_mem
  have hhi := hfinite hi h.greatest_mem
  have hmem : x ∈ xs ++ [x] := List.mem_append_right xs (List.mem_singleton_self x)
  -- The least is the old one or the new double, and so is the greatest. Where the new one is beyond
  -- the old, the others are behind it by transitivity.
  constructor
  case least_mem =>
    rcases minNum_cases hlo hx with ⟨hmin, -⟩ | ⟨hmin, -⟩ <;> rw [hmin]
    · exact List.mem_append_left _ h.least_mem
    · exact hmem
  case greatest_mem =>
    rcases maxNum_cases hhi hx with ⟨hmax, -⟩ | ⟨hmax, -⟩ <;> rw [hmax]
    · exact List.mem_append_left _ h.greatest_mem
    · exact hmem
  case least_le =>
    intro y hy
    rcases minNum_cases hlo hx with ⟨hmin, hle⟩ | ⟨hmin, hle⟩ <;> rw [hmin] <;>
      rcases List.mem_append.mp hy with hy | hy
    · exact h.least_le y hy
    · exact List.mem_singleton.mp hy ▸ hle
    · exact le_trans_of_isFinite hx hlo (hfinite y hy) hle (h.least_le y hy)
    · obtain rfl := List.mem_singleton.mp hy
      exact le_refl_of_isFinite hx
  case le_greatest =>
    intro y hy
    rcases maxNum_cases hhi hx with ⟨hmax, hle⟩ | ⟨hmax, hle⟩ <;> rw [hmax] <;>
      rcases List.mem_append.mp hy with hy | hy
    · exact h.le_greatest y hy
    · exact List.mem_singleton.mp hy ▸ hle
    · exact le_trans_of_isFinite (hfinite y hy) hhi hx (h.le_greatest y hy) hle
    · obtain rfl := List.mem_singleton.mp hy
      exact le_refl_of_isFinite hx

/-- Going through more doubles keeps the least and the greatest of all so far. -/
theorem Spans.foldl {xs ys : List Float} (h : Spans lo hi xs)
    (hfinite : ∀ x ∈ xs ++ ys, IsFinite x) {range : Float × Float}
    (hrange : ys.foldl (fun (lo, hi) x => (Scalar.minNum lo x, Scalar.maxNum hi x)) (lo, hi) =
      range) : Spans range.1 range.2 (xs ++ ys) := by
  -- The doubles that were seen grow by one in each step.
  induction ys generalizing xs lo hi with
  | nil =>
    subst hrange
    rwa [List.append_nil]
  | cons y ys ih =>
    have hinsert := h.insert (fun x hx => hfinite x (List.mem_append_left _ hx))
      (hfinite y (List.mem_append_right _ List.mem_cons_self))
    rw [List.append_cons] at hfinite ⊢
    exact ih hinsert hfinite hrange

/-- **The extent of finite doubles** is the least and the greatest of them. -/
theorem spans_of_extent? {xs : List Float} (hfinite : ∀ x ∈ xs, IsFinite x)
    (h : extent? xs = some (lo, hi)) : Spans lo hi xs := by
  cases xs with
  | nil => cases h
  | cons x xs =>
    have hx : IsFinite x := hfinite x List.mem_cons_self
    have hself : Spans x x [x] := by
      refine ⟨List.mem_singleton_self x, List.mem_singleton_self x, fun y hy => ?_,
        fun y hy => ?_⟩ <;>
      · obtain rfl := List.mem_singleton.mp hy
        exact le_refl_of_isFinite hx
    have hnumber : Scalar.isNumber x = true := le_refl_of_isFinite hx
    rw [extent?, if_pos hnumber] at h
    exact hself.foldl hfinite (Option.some.inj h)

/-! ### Ranges -/

/-- The size of a finite double is finite and not below zero. -/
theorem abs_nonneg_of_isFinite (hx : IsFinite x) :
    IsFinite (Scalar.abs x) ∧ Scalar.le 0 (Scalar.abs x) = true := by
  obtain ⟨v, hv⟩ := exists_hasValue hx
  unfold Scalar.abs
  -- A double below zero is negated, and then its value is above.
  split
  · next hneg =>
    have hlt : v < 0 := (hv.lt_iff hasValue_zero).mp hneg
    exact ⟨hv.neg.isFinite, (hasValue_zero.le_iff hv.neg).mpr (by omega)⟩
  · next hneg =>
    have hge : 0 ≤ v := not_lt.mp fun hlt => hneg ((hv.lt_iff hasValue_zero).mpr hlt)
    exact ⟨hx, (hasValue_zero.le_iff hv).mpr hge⟩

/-- **A range that is not flat** has a positive value, and its rounding is finite. -/
theorem exists_range_of_not_isFlat (hlo : HasValue lo v) (hhi : HasValue hi w) (hle : v ≤ w)
    (hflat : isFlat lo hi = false) :
    ∃ d : ℕ, 0 < d ∧ w = v + d ∧ roundUnits d one < overflow := by
  obtain ⟨d, rfl⟩ : ∃ d : ℕ, w = v + d := ⟨(w - v).toNat, by omega⟩
  have hflat : Scalar.isFinite (hi - lo) = true ∧
      ¬Scalar.le (hi - lo) (1e-12 * Scalar.maxNum (Scalar.abs hi) (Scalar.abs lo)) = true := by
    simpa [isFlat] using hflat
  have hlt : roundUnits d one < overflow := hhi.lt_overflow_of_sub hlo hflat.1
  refine ⟨d, Nat.pos_of_ne_zero fun hzero => hflat.2 ?_, rfl, hlt⟩
  -- Between equals the range is zero, which is within any tolerance.
  subst hzero
  have hrange : HasValue (hi - lo) 0 := by
    have h := hhi.sub hlo hlt
    rwa [roundUnits_zero] at h
  obtain ⟨tolerance, htolerance⟩ : ∃ n : ℕ, HasValue (1e-12 : Float) n :=
    exists_hasValue_of_nonneg (by decide +kernel) (by decide +kernel)
  obtain ⟨hhifinite, hhinonneg⟩ := abs_nonneg_of_isFinite hhi.isFinite
  obtain ⟨hlofinite, hlononneg⟩ := abs_nonneg_of_isFinite hlo.isFinite
  obtain ⟨size, hsize⟩ :
      ∃ n : ℕ, HasValue (Scalar.maxNum (Scalar.abs hi) (Scalar.abs lo)) n := by
    rcases maxNum_cases hhifinite hlofinite with ⟨hmax, -⟩ | ⟨hmax, -⟩ <;> rw [hmax]
    · exact exists_hasValue_of_nonneg hhifinite hhinonneg
    · exact exists_hasValue_of_nonneg hlofinite hlononneg
  exact hrange.le_mul htolerance hsize

/-! ### Multipliers -/

/-- What part of a range a part of it is, in units. -/
def share (part range : ℕ) : ℕ := roundUnits (roundUnits part one) (roundUnits range one)

/-- A greater part has no smaller share. -/
theorem share_mono {m : ℕ} (h : n ≤ m) : share n d ≤ share m d :=
  roundUnits_mono _ (roundUnits_mono _ h)

/-- Nothing has no share, -/
theorem share_zero (range : ℕ) : share 0 range = 0 := by
  rw [share, roundUnits_zero, roundUnits_zero]

/-- and all of a range is its whole share: rounding divides equals to exactly one. -/
theorem share_self (hd : 0 < d) : share d d = one := by
  have hpos : 0 < roundUnits d one := roundUnits_one_pos hd
  have hself := roundUnits_mul_right 1 1 hpos
  rw [Nat.one_mul, roundUnits_of_le (by decide), Nat.one_mul] at hself
  exact hself

/-- **A multiplier** is the share of its potential in the range. -/
theorem hasValue_clamp (hlo : HasValue lo v) (hx : HasValue x (v + n)) (hhi : HasValue hi (v + d))
    (hn : n ≤ d) (hd : 0 < d) (hlt : roundUnits d one < overflow) :
    HasValue (Scalar.clamp 0 1 ((x - lo) / (hi - lo))) (share n d) := by
  have hrange : HasValue (hi - lo) (roundUnits d one) := hhi.sub hlo hlt
  have hpart : HasValue (x - lo) (roundUnits n one) :=
    hx.sub hlo ((roundUnits_mono one hn).trans_lt hlt)
  have hle : share n d ≤ one := share_self hd ▸ share_mono hn
  have hquotient : HasValue ((x - lo) / (hi - lo)) (share n d) :=
    hpart.div hrange (roundUnits_one_pos hd)
      (hle.trans_lt hasValue_one.lt_overflow)
  -- Nothing is cut off.
  have hlow : ¬Scalar.lt ((x - lo) / (hi - lo)) 0 = true := by
    rw [hquotient.lt_iff hasValue_zero]
    exact not_lt.mpr (Int.natCast_nonneg _)
  have hhigh : ¬Scalar.lt 1 ((x - lo) / (hi - lo)) = true := by
    rw [hasValue_one.lt_iff hquotient]
    exact not_lt.mpr (Int.ofNat_le.mpr hle)
  unfold Scalar.clamp
  rw [if_neg hlow, if_neg hhigh]
  exact hquotient

/-! ### Rescaling -/

/-- Potentials that are rescaled to one half, all of them. -/
def IsLevel (potentials : List Float) : Prop :=
  ∀ lo hi, extent? potentials = some (lo, hi) → isFlat lo hi = true

variable {potentials : List Float} {multipliers : Multipliers Float} {units : Float → ℕ}

/-- Multipliers with a number of units each, which depends on the potential alone and follows its
order. -/
structure Rescales (potentials : List Float) (multipliers : Multipliers Float)
    (units : Float → ℕ) : Prop where
  hasValue : ∀ {i : ℕ} {x y : Float}, potentials[i]? = some x → multipliers.values[i]? = some y →
    HasValue y (units x)
  mono : ∀ {x y}, x ∈ potentials → y ∈ potentials → Scalar.le x y = true → units x ≤ units y
  /-- Unless they are level, the lowest is rescaled to zero and the highest to one. -/
  ends : ¬IsLevel potentials → ∃ lo hi, Spans lo hi potentials ∧ units lo = 0 ∧ units hi = one

/-- Entries of a rescaled list have the units of their potentials. -/
theorem hasValue_map {f : Float → Float} (hf : ∀ x ∈ potentials, HasValue (f x) (units x)) {i : ℕ}
    {x y : Float} (hx : potentials[i]? = some x) (hy : (potentials.map f)[i]? = some y) :
    HasValue y (units x) := by
  rw [List.getElem?_map, hx] at hy
  exact Option.some.inj hy ▸ hf x (List.mem_of_getElem? hx)

/-- A flat range is rescaled to one half everywhere, which keeps any order. -/
theorem exists_rescales_flat (hlevel : IsLevel potentials) :
    ∃ units, Rescales potentials (.flat potentials) units := by
  obtain ⟨half, hhalf⟩ : ∃ n : ℕ, HasValue (0.5 : Float) n :=
    exists_hasValue_of_nonneg (by decide +kernel) (by decide +kernel)
  exact ⟨fun _ => half, hasValue_map fun _ _ => hhalf, fun _ _ _ => le_rfl,
    fun hends => absurd hlevel hends⟩

/-- A range that is not flat is rescaled by shares. -/
theorem exists_rescales_range (hfinite : ∀ x ∈ potentials, IsFinite x)
    (hspans : Spans lo hi potentials) (hflat : isFlat lo hi = false) :
    ∃ units, Rescales potentials
      { least := 0, greatest := 1
        values := potentials.map fun x => Scalar.clamp 0 1 ((x - lo) / (hi - lo)) } units := by
  obtain ⟨v, hlo⟩ := exists_hasValue (hfinite lo hspans.least_mem)
  obtain ⟨w, hhi⟩ := exists_hasValue (hfinite hi hspans.greatest_mem)
  have hle : v ≤ w := (hlo.le_iff hhi).mp (hspans.least_le hi hspans.greatest_mem)
  obtain ⟨d, hd, rfl, hlt⟩ := exists_range_of_not_isFlat hlo hhi hle hflat
  -- Every potential is some units above the lowest.
  have hpart : ∀ x, ∃ n : ℕ, x ∈ potentials → HasValue x (v + n) ∧ n ≤ d := by
    intro x
    by_cases hx : x ∈ potentials
    · obtain ⟨u, hu⟩ := exists_hasValue (hfinite x hx)
      have hlow : v ≤ u := (hlo.le_iff hu).mp (hspans.least_le x hx)
      have hhigh : u ≤ v + d := (hu.le_iff hhi).mp (hspans.le_greatest x hx)
      obtain ⟨n, rfl⟩ : ∃ n : ℕ, u = v + n := ⟨(u - v).toNat, by omega⟩
      exact ⟨n, fun _ => ⟨hu, by omega⟩⟩
    · exact ⟨0, fun hmem => absurd hmem hx⟩
  choose part hpart using hpart
  have hvalue : ∀ {x : Float}, x ∈ potentials → HasValue x (v + part x) := fun hx => (hpart _ hx).1
  have hclamp : ∀ x ∈ potentials,
      HasValue (Scalar.clamp 0 1 ((x - lo) / (hi - lo))) (share (part x) d) :=
    fun x hx => hasValue_clamp hlo (hvalue hx) hhi (hpart x hx).2 hd hlt
  refine ⟨fun x => share (part x) d, fun hx hy => hasValue_map hclamp hx hy,
    fun {x y} hx hy hxy => ?_, fun _ => ⟨lo, hi, hspans, ?_, ?_⟩⟩
  · have h := ((hvalue hx).le_iff (hvalue hy)).mp hxy
    exact share_mono (by omega)
  · have h := ((hvalue hspans.least_mem).le_iff hlo).mp (le_refl_of_isFinite hlo.isFinite)
    have hzero : part lo = 0 := by omega
    rw [hzero, share_zero]
  · have h := (hhi.le_iff (hvalue hspans.greatest_mem)).mp (le_refl_of_isFinite hhi.isFinite)
    have hself : part hi = d := le_antisymm (hpart hi hspans.greatest_mem).2 (by omega)
    rw [hself, share_self hd]

/-- **Rescaling finite potentials** keeps their order. -/
theorem exists_rescales (hfinite : ∀ x ∈ potentials, IsFinite x)
    (h : normalize? potentials = some multipliers) :
    ∃ units, Rescales potentials multipliers units := by
  unfold normalize? at h
  split at h
  · cases h
  cases hextent : extent? potentials with
  | none =>
    rw [hextent] at h
    cases h
    exact exists_rescales_flat fun lo hi hsome => nomatch hextent.symm.trans hsome
  | some range =>
    obtain ⟨lo, hi⟩ := range
    rw [hextent] at h
    -- The range decides which of the two ways is taken.
    cases hflat : isFlat lo hi with
    | true =>
      obtain rfl : Multipliers.flat potentials = multipliers := by simpa [hflat] using h
      refine exists_rescales_flat fun lo' hi' hsome => ?_
      obtain ⟨rfl, rfl⟩ := Prod.mk.inj (Option.some.inj (hextent.symm.trans hsome))
      exact hflat
    | false =>
      obtain rfl := Option.some.inj ((if_neg (Bool.eq_false_iff.mp hflat)).symm.trans h)
      exact exists_rescales_range hfinite (spans_of_extent? hfinite hextent) hflat

/-- Where potentials are not level, each lowest one is rescaled to zero and each highest to one. -/
theorem Rescales.units_eq (h : Rescales potentials multipliers units)
    (hlevel : ¬IsLevel potentials) (hx : x ∈ potentials) :
    ((∀ y ∈ potentials, Scalar.le x y = true) → units x = 0) ∧
      ((∀ y ∈ potentials, Scalar.le y x = true) → units x = one) := by
  -- Any other lowest or highest potential is compared with that of the ends.
  obtain ⟨lo, hi, hspans, hlo, hhi⟩ := h.ends hlevel
  constructor
  · intro hlowest
    have hle := h.mono hx hspans.least_mem (hlowest lo hspans.least_mem)
    omega
  · intro hhighest
    have hle := h.mono hspans.greatest_mem hx (hhighest hi hspans.greatest_mem)
    have hge := h.mono hx hspans.greatest_mem (hspans.le_greatest x hx)
    omega

/-! ### Prices -/

/-- The price for a multiplier of so many units. -/
def unitsPrice (basePrice : ℤ) (n : ℕ) : ℤ :=
  Credits.ofInt (wholeProduct basePrice (.finite false n))

/-- **A price depends on the units** of its multiplier alone, not on the sign of a zero. -/
theorem scaledPrice_of_hasValue (hx : HasValue x n) (basePrice : ℤ) :
    scaledPrice basePrice x = unitsPrice basePrice n := by
  rw [scaledPrice_eq, unitsPrice]
  rcases Nat.eq_zero_or_pos n with rfl | hpos
  · obtain ⟨sign, hround, -⟩ := hx.exists_sign
    rw [Binary64.ofFloat_eq, hround.ofUnpacked_eq, wholeProduct_zero, wholeProduct_zero]
  · rw [hx.ofFloat_eq hpos]

theorem unitsPrice_zero (basePrice : ℤ) : unitsPrice basePrice 0 = 0 := by
  rw [unitsPrice, wholeProduct_zero]
  decide

theorem unitsPrice_one (basePrice : ℤ) :
    unitsPrice basePrice one = scaledPrice basePrice (1 : Float) :=
  (scaledPrice_of_hasValue hasValue_one basePrice).symm

theorem unitsPrice_mono {basePrice : ℤ} (hbase : 0 ≤ basePrice) {m : ℕ} (h : n ≤ m) :
    unitsPrice basePrice n ≤ unitsPrice basePrice m := by
  have hwhole :
      wholeProduct basePrice (.finite false n) ≤ wholeProduct basePrice (.finite false m) := by
    rw [wholeProduct_of_nonneg hbase, wholeProduct_of_nonneg hbase]
    refine Int.ofNat_le.mpr (Rounding.halfUp_mono one (roundUnits_mono _ ?_))
    exact Nat.mul_le_mul_left _ h
  unfold unitsPrice Credits.ofInt
  omega

end GalaxyMarket
