import Mathlib
import GalaxyMarket.Number.Decimal
import GalaxyMarket.Proofs.Number.Rounding

/-!
# Reading decimal text

Decimal text stands for a rational number: that of its digits, those behind the point counted in
powers of ten (`Decimal.read?`). Text with a given number of digits behind the point stands for the
number that was rounded to these digits (`Decimal.read?_fixed`), and zeros in front of a number or
behind its decimal places do not change what it stands for.
-/

namespace GalaxyMarket.Decimal

/-- Reads a number without a sign from the front of a text, and gives what is left of the text. A
point may follow the digits, and digits the point. -/
def read? (text : List Char) : Option (ℚ × List Char) :=
  let whole := text.takeWhile Char.isDigit
  let rest := text.dropWhile Char.isDigit
  if whole = [] then none
  else
    match rest with
    | '.' :: rest =>
      let places := rest.takeWhile Char.isDigit
      some (Nat.ofDigitChars 10 whole 0 + Nat.ofDigitChars 10 places 0 / 10 ^ places.length,
        rest.dropWhile Char.isDigit)
    | rest => some (Nat.ofDigitChars 10 whole 0, rest)

/-- Text that does not go on with a number. -/
def BreaksOff (rest : List Char) : Prop :=
  ∀ c ∈ rest.head?, c.isDigit = false ∧ c ≠ '.'

variable {whole places rest : List Char}

/-- Digits end where the text breaks off, -/
theorem BreaksOff.takeWhile_append (hrest : BreaksOff rest)
    (hdigits : ∀ c ∈ places, c.isDigit = true) :
    (places ++ rest).takeWhile Char.isDigit = places := by
  rw [List.takeWhile_append_of_pos hdigits]
  cases rest with
  | nil => exact List.append_nil _
  | cons c rest =>
    rw [List.takeWhile_cons_of_neg (by simp [(hrest c rfl).1]), List.append_nil]

/-- and what comes behind them is left over. -/
theorem BreaksOff.dropWhile_append (hrest : BreaksOff rest)
    (hdigits : ∀ c ∈ places, c.isDigit = true) :
    (places ++ rest).dropWhile Char.isDigit = rest := by
  rw [List.dropWhile_append_of_pos hdigits]
  cases rest with
  | nil => rfl
  | cons c rest => exact List.dropWhile_cons_of_neg (by simp [(hrest c rfl).1])

/-- Digits alone stand for a whole number. -/
theorem read?_whole (hne : whole ≠ []) (hdigits : ∀ c ∈ whole, c.isDigit = true)
    (hrest : BreaksOff rest) :
    read? (whole ++ rest) = some ((Nat.ofDigitChars 10 whole 0 : ℚ), rest) := by
  unfold read?
  rw [hrest.takeWhile_append hdigits, hrest.dropWhile_append hdigits]
  dsimp only
  rw [if_neg hne]
  split
  · -- A point would go on with the number.
    next rest => exact absurd rfl (hrest '.' rfl).2
  · rfl

/-- Digits with a point among them stand for two whole numbers, of which the second counts in powers
of ten. -/
theorem read?_places (hne : whole ≠ []) (hwhole : ∀ c ∈ whole, c.isDigit = true)
    (hplaces : ∀ c ∈ places, c.isDigit = true) (hrest : BreaksOff rest) :
    read? (whole ++ '.' :: (places ++ rest)) =
      some ((Nat.ofDigitChars 10 whole 0 : ℚ) +
        Nat.ofDigitChars 10 places 0 / 10 ^ places.length, rest) := by
  have hpoint : Char.isDigit '.' ≠ true := by decide
  -- The point ends the digits in front of it.
  have htake : (whole ++ '.' :: (places ++ rest)).takeWhile Char.isDigit = whole := by
    rw [List.takeWhile_append_of_pos hwhole, List.takeWhile_cons_of_neg hpoint, List.append_nil]
  have hdrop : (whole ++ '.' :: (places ++ rest)).dropWhile Char.isDigit =
      '.' :: (places ++ rest) := by
    rw [List.dropWhile_append_of_pos hwhole, List.dropWhile_cons_of_neg hpoint]
  unfold read?
  rw [htake, hdrop]
  dsimp only
  rw [if_neg hne]
  -- The places are read as the whole digits were: up to where the number breaks off.
  show some (_ + (Nat.ofDigitChars 10 ((places ++ rest).takeWhile Char.isDigit) 0 : ℚ) /
    10 ^ ((places ++ rest).takeWhile Char.isDigit).length, _) = _
  rw [hrest.takeWhile_append hplaces, hrest.dropWhile_append hplaces]

/-! ### Digits -/

/-- As many zeros as there are digits missing. -/
theorem toList_padded (width n : ℕ) : (padded width n).toList =
    List.replicate (width - (Nat.toDigits 10 n).length) '0' ++ Nat.toDigits 10 n :=
  String.toList_ofList

/-- There are only digits in the text of a number. -/
theorem isDigit_of_mem_padded {width n : ℕ} {c : Char} (h : c ∈ (padded width n).toList) :
    c.isDigit = true := by
  rw [toList_padded] at h
  rcases List.mem_append.mp h with hzero | hdigit
  · rw [(List.mem_replicate.mp hzero).2]
    rfl
  · exact Nat.isDigit_of_mem_toDigits (by decide) (by decide) hdigit

theorem toList_padded_ne_nil (width n : ℕ) : (padded width n).toList ≠ [] := by
  rw [toList_padded]
  exact List.append_ne_nil_of_right_ne_nil _ Nat.toDigits_ne_nil

/-- Zeros in front of a number are of no account. -/
theorem ofDigitChars_padded (width n : ℕ) : Nat.ofDigitChars 10 (padded width n).toList 0 = n := by
  rw [toList_padded, Nat.ofDigitChars_append, Nat.ofDigitChars_replicate_zero, Nat.mul_zero,
    Nat.ofDigitChars_ten_toDigits]

/-- A number that is short enough takes just the width. -/
theorem length_padded {width n : ℕ} (hwidth : 0 < width) (h : n < 10 ^ width) :
    (padded width n).toList.length = width := by
  have hlength := (Nat.length_toDigits_le_iff (by decide) hwidth).mpr h
  rw [toList_padded, List.length_append, List.length_replicate]
  omega

/-! ### A given number of places -/

/-- Without places there is nothing to pad, but there is always a digit. -/
theorem read?_padded_one (n : ℕ) (hrest : BreaksOff rest) :
    read? ((padded 1 n).toList ++ rest) = some ((n : ℚ), rest) := by
  rw [read?_whole (toList_padded_ne_nil 1 n) (fun _ => isDigit_of_mem_padded) hrest,
    ofDigitChars_padded]

/-- A number of decimal places, and any zeros behind them. -/
theorem read?_pointed {width : ℕ} (hwidth : 0 < width) (n zeros : ℕ) (hrest : BreaksOff rest) :
    read? ((pointed width n).toList ++ List.replicate zeros '0' ++ rest) =
      some ((n : ℚ) / 10 ^ width, rest) := by
  have hlt : n % 10 ^ width < 10 ^ width := Nat.mod_lt n (Nat.pow_pos (by decide))
  have htext : (pointed width n).toList ++ List.replicate zeros '0' ++ rest =
      (padded 1 (n / 10 ^ width)).toList ++
        '.' :: ((padded width (n % 10 ^ width)).toList ++ List.replicate zeros '0' ++ rest) := by
    rw [pointed, if_neg (by simpa using Nat.ne_of_gt hwidth)]
    simp [tenPow]
  -- Behind the point there are only digits, up to the last zero.
  have hplaces : ∀ c ∈ (padded width (n % 10 ^ width)).toList ++ List.replicate zeros '0',
      c.isDigit = true := by
    intro c hc
    rcases List.mem_append.mp hc with hdigit | hzero
    · exact isDigit_of_mem_padded hdigit
    · rw [(List.mem_replicate.mp hzero).2]
      rfl
  rw [htext, read?_places (toList_padded_ne_nil 1 _) (fun _ => isDigit_of_mem_padded) hplaces hrest,
    Nat.ofDigitChars_append, ofDigitChars_padded, ofDigitChars_padded,
    Nat.ofDigitChars_replicate_zero, List.length_append, length_padded hwidth hlt,
    List.length_replicate]
  -- The digits in front of the point and those behind it are the whole number again.
  have hparts : (n : ℚ) = 10 ^ width * (n / 10 ^ width : ℕ) + (n % 10 ^ width : ℕ) := by
    exact_mod_cast (Nat.div_add_mod n (10 ^ width)).symm
  have hvalue : ((n / 10 ^ width : ℕ) : ℚ) +
      (10 ^ zeros * (n % 10 ^ width) : ℕ) / 10 ^ (width + zeros) = n / 10 ^ width := by
    rw [hparts, pow_add]
    push_cast
    field_simp
  rw [hvalue]

/-- The decimal places of a double that are worked out. Behind them there are only zeros. -/
def exactPlaces (places : ℕ) : ℕ := min places maxPlaces

/-- A double of this many units as a whole number of its last decimal place. -/
def fixedDigits (places units : ℕ) : ℕ :=
  Rounding.halfEven (units * 10 ^ exactPlaces places) Binary64.one

/-- Rounding to some places keeps the order. -/
theorem fixedDigits_mono (places : ℕ) : Monotone (fixedDigits places) := fun _ _ h =>
  Rounding.halfEven_mono _ (Nat.mul_le_mul_right _ h)

/-- Whole numbers are not rounded. -/
theorem fixedDigits_whole (places n : ℕ) :
    fixedDigits places (n * Binary64.one) = n * 10 ^ exactPlaces places := by
  have hdvd : Binary64.one ∣ n * Binary64.one * 10 ^ exactPlaces places :=
    Nat.dvd_mul_right_of_dvd (Nat.dvd_mul_left _ n) _
  rw [fixedDigits, Rounding.halfEven_of_dvd Binary64.one_pos hdvd, Nat.mul_right_comm,
    Nat.mul_div_cancel _ Binary64.one_pos]

/-- **Rounded text stands for the number that was rounded.** -/
theorem read?_fixed (places units : ℕ) (hrest : BreaksOff rest) :
    read? ((fixed places units).toList ++ rest) =
      some ((fixedDigits places units : ℚ) / 10 ^ exactPlaces places, rest) := by
  have htext : (fixed places units).toList =
      (pointed (exactPlaces places) (fixedDigits places units)).toList ++
        List.replicate (places - exactPlaces places) '0' := by
    rw [fixed, String.toList_append, String.toList_ofList]
    rfl
  rw [htext]
  rcases Nat.eq_zero_or_pos places with hzero | hpos
  · -- Without decimal places there is no point.
    have hexact : exactPlaces places = 0 := by rw [exactPlaces, hzero, Nat.zero_min]
    rw [hexact, hzero, Nat.sub_zero, List.replicate_zero, List.append_nil, pow_zero, div_one]
    exact read?_padded_one _ hrest
  · have hexact : 0 < exactPlaces places := Nat.lt_min.mpr ⟨hpos, by decide⟩
    exact read?_pointed hexact _ _ hrest

end GalaxyMarket.Decimal
