import Mathlib
import GalaxyMarket.Number.Binary64

/-!
# Rounding in units of double precision

Rounding to a double keeps the order (`Binary64.roundUnits_mono`): between two powers of two the
doubles are evenly spaced, and from one such stretch to the next the last double of the one is the
first of the other. It depends on the value of a quotient alone (`Binary64.roundUnits_mul_right`),
and whole numbers up to `2 ^ 53` are doubles (`Binary64.roundUnits_of_le`).
-/

namespace GalaxyMarket

namespace Rounding

/-- A half-even rounding stays at the floor only up to the half. -/
theorem halfEven_cases (num den : Nat) :
    (halfEven num den = num / den ∧
      (2 * (num % den) < den ∨ 2 * (num % den) = den ∧ num / den % 2 = 0)) ∨
    (halfEven num den = num / den + 1 ∧
      ¬ (2 * (num % den) < den ∨ 2 * (num % den) = den ∧ num / den % 2 = 0)) := by
  unfold halfEven
  dsimp only
  split
  · next h => exact Or.inl ⟨rfl, by simpa using h⟩
  · next h => exact Or.inr ⟨rfl, by simpa using h⟩

/-- Nothing is rounded to nothing. -/
theorem halfEven_zero (den : Nat) : halfEven 0 den = 0 := by
  rcases halfEven_cases 0 den with ⟨h, -⟩ | ⟨-, hup⟩
  · rw [h, Nat.zero_div]
  · refine absurd ?_ hup
    rw [Nat.zero_mod, Nat.zero_div]
    omega

/-- Rounding to the nearest whole number keeps the order. -/
theorem halfEven_mono {a b : Nat} (den : Nat) (h : a ≤ b) : halfEven a den ≤ halfEven b den := by
  have hfloor : a / den ≤ b / den := Nat.div_le_div_right h
  rcases Nat.lt_or_eq_of_le hfloor with hlt | heq
  · -- The quotients have a whole number between them.
    rcases halfEven_eq_or a den with ha | ha <;> rcases halfEven_eq_or b den with hb | hb <;> omega
  · -- The quotients share their floor, so that the remainders are ordered.
    have ha := Nat.div_add_mod a den
    have hb := Nat.div_add_mod b den
    rw [← heq] at hb
    have hmod : a % den ≤ b % den := by omega
    rcases halfEven_cases a den with ⟨ha, hdown⟩ | ⟨ha, hup⟩
    · rcases halfEven_eq_or b den with hb | hb <;> omega
    · rcases halfEven_cases b den with ⟨hb, hdown⟩ | ⟨hb, -⟩
      · rw [← heq] at hdown
        omega
      · omega

/-- A fraction can be expanded. -/
theorem halfEven_mul_right (num den : Nat) {k : Nat} (hk : 0 < k) :
    halfEven (num * k) (den * k) = halfEven num den := by
  have hlt : 2 * (num % den * k) < den * k ↔ 2 * (num % den) < den := by
    rw [← Nat.mul_assoc, Nat.mul_lt_mul_right hk]
  have heq : 2 * (num % den * k) = den * k ↔ 2 * (num % den) = den := by
    rw [← Nat.mul_assoc, Nat.mul_left_inj (Nat.ne_of_gt hk)]
  -- A common factor changes neither the floor nor how the remainder compares with the half.
  have h := halfEven_cases (num * k) (den * k)
  rw [Nat.mul_div_mul_right _ _ hk, Nat.mul_mod_mul_right, hlt, heq] at h
  rcases h with ⟨hvalue, hdown⟩ | ⟨hvalue, hup⟩ <;>
    rcases halfEven_cases num den with ⟨hvalue', hdown'⟩ | ⟨hvalue', hup'⟩
  · rw [hvalue, hvalue']
  · exact absurd hdown hup'
  · exact absurd hdown' hup
  · rw [hvalue, hvalue']

/-- Rounding halves up keeps the order too. -/
theorem halfUp_mono {a b : Nat} (den : Nat) (h : a ≤ b) : halfUp a den ≤ halfUp b den :=
  Nat.div_le_div_right (by omega)

/-- Whole numbers are not rounded up. -/
theorem halfUp_mul_self (n : Nat) {den : Nat} (hden : 0 < den) : halfUp (n * den) den = n := by
  unfold halfUp
  have hnum : 2 * (n * den) + den = den + n * (2 * den) := by grind
  rw [hnum, Nat.add_mul_div_right _ _ (by omega), Nat.div_eq_of_lt (by omega), Nat.zero_add]

end Rounding

namespace Binary64

/-- One, in units. The power is too large to be worked out, so that the exponent is a variable. -/
theorem one_eq_two_pow {n : Nat} (hn : n = 1074) : one = 2 ^ n := by
  unfold one
  rw [← hn]
  exact Nat.one_shiftLeft n

/-- The least number of units that is too large for a double. -/
theorem overflow_eq_two_pow {n : Nat} (hn : n = 2098) : overflow = 2 ^ n := by
  unfold overflow
  rw [← hn]
  exact Nat.one_shiftLeft n

theorem one_pos : 0 < one := by
  obtain ⟨n, hn⟩ : ∃ n, n = 1074 := ⟨_, rfl⟩
  rw [one_eq_two_pow hn]
  exact Nat.two_pow_pos n

theorem overflow_pos : 0 < overflow := by
  obtain ⟨n, hn⟩ : ∃ n, n = 2098 := ⟨_, rfl⟩
  rw [overflow_eq_two_pow hn]
  exact Nat.two_pow_pos n

/-- By how many bits the significand of a quotient has to be shortened. -/
def spare (num den : Nat) : Nat := (num * one / den).log2 - 52

/-- Rounding to a double is rounding to a multiple of a power of two. -/
theorem roundUnits_eq (num den : Nat) : roundUnits num den =
    Rounding.halfEven (num * one) (den * 2 ^ spare num den) * 2 ^ spare num den := by
  unfold roundUnits
  rw [Nat.shiftLeft_eq, Nat.shiftLeft_eq]
  rfl

/-- A larger quotient has at least as many spare bits. -/
theorem spare_mono {a b : Nat} (den : Nat) (h : a ≤ b) : spare a den ≤ spare b den := by
  have hquot : a * one / den ≤ b * one / den :=
    Nat.div_le_div_right (Nat.mul_le_mul_right one h)
  unfold spare
  rcases Nat.eq_zero_or_pos (a * one / den) with hzero | hpos
  · rw [hzero]
    exact Nat.zero_le _
  · have hlog : (a * one / den).log2 ≤ (b * one / den).log2 :=
      (Nat.le_log2 (by omega)).mpr (Nat.le_trans (Nat.log2_self_le (by omega)) hquot)
    omega

/-- The significand has at most 53 bits, and exactly so many if any were spare. -/
theorem significand_bounds (num den : Nat) :
    num * one / (den * 2 ^ spare num den) < 2 ^ 53 ∧
      (spare num den ≠ 0 → 2 ^ 52 ≤ num * one / (den * 2 ^ spare num den)) := by
  rw [← Nat.div_div_eq_div_mul]
  unfold spare
  -- Only the floor of the quotient matters, which lies between two powers of its logarithm.
  generalize num * one / den = q
  constructor
  · rw [Nat.div_lt_iff_lt_mul (Nat.two_pow_pos _), ← Nat.pow_add]
    exact Nat.lt_of_lt_of_le Nat.lt_log2_self (Nat.pow_le_pow_right (by decide) (by omega))
  · intro hspare
    rw [Nat.le_div_iff_mul_le (Nat.two_pow_pos _), ← Nat.pow_add]
    have hq : q ≠ 0 := by
      rintro rfl
      simp at hspare
    have hexp : 52 + (q.log2 - 52) = q.log2 := by omega
    rw [hexp]
    exact Nat.log2_self_le hq

/-- **Rounding to a double** keeps the order. -/
theorem roundUnits_mono {a b : Nat} (den : Nat) (h : a ≤ b) :
    roundUnits a den ≤ roundUnits b den := by
  rw [roundUnits_eq, roundUnits_eq]
  rcases Nat.lt_or_eq_of_le (spare_mono den h) with hlt | heq
  · -- The lesser one ends, at the latest, where the stretch of the greater one begins.
    obtain ⟨ha, -⟩ := significand_bounds a den
    obtain ⟨-, hb⟩ := significand_bounds b den
    have hb := hb (Nat.ne_zero_of_lt hlt)
    calc Rounding.halfEven (a * one) (den * 2 ^ spare a den) * 2 ^ spare a den
        ≤ 2 ^ 53 * 2 ^ spare a den := by
          refine Nat.mul_le_mul_right _ ?_
          rcases Rounding.halfEven_eq_or (a * one) (den * 2 ^ spare a den) with h | h <;> omega
      _ = 2 ^ 52 * 2 ^ (spare a den + 1) := by rw [Nat.pow_succ]; omega
      _ ≤ 2 ^ 52 * 2 ^ spare b den :=
          Nat.mul_le_mul_left _ (Nat.pow_le_pow_right (by decide) hlt)
      _ ≤ Rounding.halfEven (b * one) (den * 2 ^ spare b den) * 2 ^ spare b den := by
          refine Nat.mul_le_mul_right _ ?_
          rcases Rounding.halfEven_eq_or (b * one) (den * 2 ^ spare b den) with h | h <;> omega
  · -- Within one stretch the spacing is the same.
    rw [heq]
    exact Nat.mul_le_mul_right _ (Rounding.halfEven_mono _ (Nat.mul_le_mul_right one h))

/-- Rounding depends on the value of a quotient alone. -/
theorem roundUnits_mul_right (num den : Nat) {k : Nat} (hk : 0 < k) :
    roundUnits (num * k) (den * k) = roundUnits num den := by
  have hnum : num * k * one = num * one * k := Nat.mul_right_comm ..
  -- Not even the number of bits that are spare depends on the expansion.
  have hspare : spare (num * k) (den * k) = spare num den := by
    unfold spare
    rw [hnum, Nat.mul_div_mul_right _ _ hk]
  rw [roundUnits_eq, roundUnits_eq, hspare, hnum, Nat.mul_right_comm den k,
    Rounding.halfEven_mul_right _ _ hk]

/-- A larger divisor makes less. -/
theorem roundUnits_anti (num : Nat) {den den' : Nat} (hden : 0 < den) (h : den ≤ den') :
    roundUnits num den' ≤ roundUnits num den := by
  rw [← roundUnits_mul_right num den' hden,
    ← roundUnits_mul_right num den (Nat.lt_of_lt_of_le hden h), Nat.mul_comm den' den]
  exact roundUnits_mono _ (Nat.mul_le_mul_left num h)

/-- What is a whole unit or more does not vanish. -/
theorem roundUnits_pos {num den : Nat} (hden : 0 < den) (h : den ≤ num * one) :
    0 < roundUnits num den := by
  have hfloor : 0 < num * one / (den * 2 ^ spare num den) := by
    by_cases hspare : spare num den = 0
    · rw [hspare, Nat.pow_zero, Nat.mul_one]
      exact Nat.div_pos h hden
    · exact Nat.lt_of_lt_of_le (Nat.two_pow_pos 52) ((significand_bounds num den).2 hspare)
  rw [roundUnits_eq]
  refine Nat.mul_pos ?_ (Nat.two_pow_pos _)
  rcases Rounding.halfEven_eq_or (num * one) (den * 2 ^ spare num den) with h | h <;> omega

/-- Least of all do whole units vanish. -/
theorem roundUnits_one_pos {num : Nat} (h : 0 < num) : 0 < roundUnits num one := by
  apply roundUnits_pos one_pos
  generalize one = den
  exact Nat.le_mul_of_pos_left den h

@[simp] theorem roundUnits_zero (den : Nat) : roundUnits 0 den = 0 := by
  rw [roundUnits_eq, Nat.zero_mul, Rounding.halfEven_zero, Nat.zero_mul]

/-- The bits of a small whole number that are spare are zeros. -/
theorem two_pow_dvd_of_le {n s e : Nat} (h : n ≤ 2 ^ 53) (hfull : 2 ^ (52 + s) ≤ n * 2 ^ e) :
    2 ^ s ∣ n * 2 ^ e := by
  -- The greatest of these numbers has 54 bits, but is a power of two itself.
  rcases Nat.lt_or_eq_of_le h with hlt | rfl
  · have hexp : 52 + s < 53 + e := by
      refine (Nat.pow_lt_pow_iff_right (by decide : 1 < 2)).mp (Nat.lt_of_le_of_lt hfull ?_)
      rw [Nat.pow_add 2 53]
      exact Nat.mul_lt_mul_of_pos_right hlt (Nat.two_pow_pos e)
    exact Nat.dvd_mul_left_of_dvd (Nat.pow_dvd_pow 2 (by omega)) n
  · rw [← Nat.pow_add] at hfull ⊢
    have hexp := (Nat.pow_le_pow_iff_right (by decide)).mp hfull
    exact Nat.pow_dvd_pow 2 (by omega)

/-- What has few bits but for some zeros behind them is a double. -/
theorem roundUnits_mul_two_pow {n : Nat} (h : n ≤ 2 ^ 53) (e : Nat) :
    roundUnits (n * 2 ^ e) one = n * 2 ^ e := by
  have hdvd : 2 ^ spare (n * 2 ^ e) one ∣ n * 2 ^ e := by
    rcases Nat.eq_zero_or_pos (spare (n * 2 ^ e) one) with hzero | hpos
    · rw [hzero]
      exact Nat.one_dvd _
    · have hfull := (significand_bounds (n * 2 ^ e) one).2 (by omega)
      rw [Nat.mul_comm one, Nat.mul_div_mul_right _ _ one_pos,
        Nat.le_div_iff_mul_le (Nat.two_pow_pos _), ← Nat.pow_add] at hfull
      exact two_pow_dvd_of_le h hfull
  rw [roundUnits_eq, Nat.mul_comm one, Rounding.halfEven_mul_right _ _ one_pos,
    Rounding.halfEven_of_dvd (Nat.two_pow_pos _) hdvd]
  exact Nat.div_mul_cancel hdvd

/-- Small whole numbers are doubles. -/
theorem roundUnits_of_le {n : Nat} (h : n ≤ 2 ^ 53) : roundUnits n 1 = n * one := by
  obtain ⟨e, he⟩ : ∃ e, e = 1074 := ⟨_, rfl⟩
  have hround := roundUnits_mul_two_pow h e
  rw [← one_eq_two_pow he] at hround
  rw [← roundUnits_mul_right n 1 one_pos, Nat.one_mul, hround]

end Binary64

end GalaxyMarket
