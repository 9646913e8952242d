import Mathlib
import GalaxyMarket.Credits
import GalaxyMarket.Proofs.Number.DecimalText

/-!
# What shown credits stand for

Shown credits are read as a number times the factor of the letter behind it (`Credits.worth?`). An
amount in full is read as itself, and one in a denomination as the quotient, rounded to its digits,
times the denomination (`Credits.worth?_display`).

Rounding and rounded text keep the order within a denomination, and the amount with which the next
denomination begins is shown in either as what it is. Hence no amount is shown as more than a
greater one (`Credits.display_keeps_order`), although the amounts short of a million are rounded to
as much as a thousand thousands.
-/

namespace GalaxyMarket.Credits

/-! ### Reading -/

/-- What the text behind a number multiplies it by. -/
def factor? : List Char → Option ℕ
  | [] => some 1
  | ['K'] => some (10 ^ 3)
  | ['M'] => some (10 ^ 6)
  | ['B'] => some (10 ^ 9)
  | ['T'] => some (10 ^ 12)
  | ['Q'] => some (10 ^ 15)
  | _ => none

/-- Reads an amount without a sign: a number and the letter of its factor. -/
def magnitude? (text : List Char) : Option ℚ :=
  (Decimal.read? text).bind fun (mantissa, rest) =>
    (factor? rest).map fun factor => mantissa * factor

/-- The number that shown credits stand for. -/
def worth? (text : String) : Option ℚ :=
  match text.toList with
  | '-' :: text => (magnitude? text).map fun x => -x
  | text => magnitude? text

/-- A number does not begin with a sign. -/
theorem magnitude?_minus (text : List Char) : magnitude? ('-' :: text) = none := by
  have hread : Decimal.read? ('-' :: text) = none := rfl
  rw [magnitude?, hread]
  rfl

/-- Text without a sign is read as its amount. -/
theorem worth?_of_magnitude? {text : String} {x : ℚ} (h : magnitude? text.toList = some x) :
    worth? text = some x := by
  unfold worth?
  split
  · next rest htext =>
    rw [htext, magnitude?_minus] at h
    contradiction
  · exact h

/-- Plain digits stand for their number. -/
theorem magnitude?_repr (n : ℕ) : magnitude? n.repr.toList = some (n : ℚ) := by
  have hdigits : ∀ c ∈ Nat.toDigits 10 n, c.isDigit = true := fun _ =>
    Nat.isDigit_of_mem_toDigits (by decide) (by decide)
  have hend : Decimal.BreaksOff [] := by rintro c ⟨⟩
  have hread := Decimal.read?_whole Nat.toDigits_ne_nil hdigits hend
  rw [List.append_nil, Nat.ofDigitChars_ten_toDigits] at hread
  rw [magnitude?, Nat.toList_repr, hread]
  simp [factor?]

/-- An amount in full stands for itself. -/
theorem worth?_toString (amount : ℤ) : worth? (toString amount) = some (amount : ℚ) := by
  cases amount with
  | ofNat n => exact worth?_of_magnitude? (magnitude?_repr n)
  | negSucc n =>
    -- Only the sign is in front of the digits.
    have htext : (toString (Int.negSucc n)).toList = '-' :: (n + 1).repr.toList :=
      String.toList_append
    unfold worth?
    rw [htext]
    show (magnitude? (n + 1).repr.toList).map (fun x => -x) = _
    rw [magnitude?_repr, Option.map_some, Int.cast_negSucc]

/-! ### Denominations -/

/-- The letter of a denomination stands for its size. -/
theorem factor?_letter : ∀ d ∈ denominations, factor? [d.letter] = some d.size := by
  decide

theorem breaksOff_letter : ∀ d ∈ denominations, Decimal.BreaksOff [d.letter] := by
  have hletters : ∀ d ∈ denominations, d.letter.isDigit = false ∧ d.letter ≠ '.' := by decide
  rintro d hd c ⟨⟩
  exact hletters d hd

theorem size_pos : ∀ d ∈ denominations, 0 < d.size := by
  decide

/-- A larger denomination is a whole number of smaller ones, and a double. -/
theorem size_dvd_size : ∀ d ∈ denominations, ∀ e ∈ denominations, d.size ≤ e.size →
    d.size ∣ e.size ∧ e.size ≤ 2 ^ 53 := by
  decide

theorem eq_of_size_eq {d e : Denomination} (hd : d ∈ denominations) (he : e ∈ denominations)
    (h : d.size = e.size) : d = e :=
  List.inj_on_of_nodup_map (by decide : (denominations.map Denomination.size).Nodup) hd he h

/-- The denomination of an amount goes into it, and is the largest one to do so. -/
theorem denomination?_some {amount : ℤ} {d : Denomination} (h : denomination? amount = some d) :
    d ∈ denominations ∧ d.size ≤ amount ∧
      ∀ e ∈ denominations, (e.size : ℤ) ≤ amount → e.size ≤ d.size := by
  have hsorted : denominations.Pairwise fun d e => e.size ≤ d.size := by decide
  obtain ⟨hfits, before, behind, hsplit, hbefore⟩ := List.find?_eq_some_iff_append.mp h
  refine ⟨by simp [hsplit], by simpa using hfits, ?_⟩
  intro e he hle
  rw [hsplit] at he hsorted
  rcases List.mem_append.mp he with hmem | hmem
  · -- What stands before it does not go into the amount.
    exact absurd hle (by simpa using hbefore e hmem)
  · rcases List.mem_cons.mp hmem with rfl | hmem
    · exact Nat.le_refl _
    · exact List.rel_of_pairwise_cons (List.pairwise_append.mp hsorted).2.1 hmem

theorem denomination?_none {amount : ℤ} (h : denomination? amount = none) :
    ∀ d ∈ denominations, amount < d.size := by
  intro d hd
  simpa using List.find?_eq_none.mp h d hd

/-! ### Amounts in a denomination -/

/-- What an amount stands for when it is shown in a denomination. -/
def valueIn (d : Denomination) (places : ℕ) (amount : ℤ) : ℚ :=
  Decimal.fixedDigits places (quotientUnits amount d) / 10 ^ Decimal.exactPlaces places * d.size

theorem quotientUnits_mono (d : Denomination) : Monotone (quotientUnits · d) := fun _ _ h =>
  Binary64.roundUnits_mono _ (Binary64.roundUnits_mono 1 (Int.toNat_le_toNat h))

/-- The quotient of a multiple of the denomination is not rounded. -/
theorem quotientUnits_of_dvd {d : Denomination} {n : ℕ} (hpos : 0 < d.size) (hdvd : d.size ∣ n)
    (hn : n ≤ 2 ^ 53) : quotientUnits n d = n / d.size * Binary64.one := by
  obtain ⟨k, rfl⟩ := hdvd
  have hk : k ≤ 2 ^ 53 := (Nat.le_mul_of_pos_left k hpos).trans hn
  -- The amount and the quotient are whole numbers that are small enough to be doubles.
  have hnum : d.size * k * Binary64.one = k * (Binary64.one * d.size) := by
    rw [Nat.mul_comm d.size, Nat.mul_assoc, Nat.mul_comm d.size]
  have hquot : Binary64.roundUnits (k * (Binary64.one * d.size)) (Binary64.one * d.size) =
      Binary64.roundUnits k 1 := by
    rw [← Binary64.roundUnits_mul_right k 1 (Nat.mul_pos Binary64.one_pos hpos), Nat.one_mul]
  rw [quotientUnits, Int.toNat_natCast, Binary64.roundUnits_of_le hn, hnum, hquot,
    Binary64.roundUnits_of_le hk, Nat.mul_div_cancel_left k hpos]

theorem valueIn_mono (d : Denomination) (places : ℕ) : Monotone (valueIn d places) := by
  intro a b h
  have hdigits : (Decimal.fixedDigits places (quotientUnits a d) : ℚ) ≤
      Decimal.fixedDigits places (quotientUnits b d) :=
    mod_cast Decimal.fixedDigits_mono places (quotientUnits_mono d h)
  unfold valueIn
  gcongr

/-- The amount with which a denomination begins is shown as what it is, in this denomination and in
every smaller one. -/
theorem valueIn_size {d e : Denomination} (hd : d ∈ denominations) (he : e ∈ denominations)
    (h : d.size ≤ e.size) (places : ℕ) : valueIn d places e.size = e.size := by
  obtain ⟨hdvd, hle⟩ := size_dvd_size d hd e he h
  have hsize : (d.size : ℚ) ≠ 0 := mod_cast Nat.ne_of_gt (size_pos d hd)
  rw [valueIn, quotientUnits_of_dvd (size_pos d hd) hdvd hle, Decimal.fixedDigits_whole]
  push_cast [Nat.cast_div hdvd hsize]
  field_simp

theorem size_le_valueIn {d : Denomination} (hd : d ∈ denominations) {amount : ℤ}
    (h : d.size ≤ amount) (places : ℕ) : (d.size : ℚ) ≤ valueIn d places amount :=
  (valueIn_size hd hd le_rfl places).symm.le.trans (valueIn_mono d places h)

/-- What is short of a denomination is not rounded beyond it. -/
theorem valueIn_le_size {d e : Denomination} (hd : d ∈ denominations) (he : e ∈ denominations)
    (hde : d.size ≤ e.size) {amount : ℤ} (h : amount ≤ e.size) (places : ℕ) :
    valueIn d places amount ≤ e.size :=
  (valueIn_mono d places h).trans (valueIn_size hd he hde places).le

theorem worth?_push_letter {d : Denomination} (hd : d ∈ denominations) (places : ℕ) (amount : ℤ) :
    worth? ((Decimal.fixed places (quotientUnits amount d)).push d.letter) =
      some (valueIn d places amount) := by
  apply worth?_of_magnitude?
  rw [magnitude?, String.toList_push, Decimal.read?_fixed places _ (breaksOff_letter d hd)]
  simp [factor?_letter d hd, valueIn]

/-! ### The order -/

/-- The number that an amount is shown as. -/
def shown (decimals amount : ℤ) : ℚ :=
  match if decimals < 0 then none else denomination? amount with
  | some d => valueIn d decimals.toNat amount
  | none => amount

theorem worth?_display (amount decimals : ℤ) :
    worth? (display amount decimals) = some (shown decimals amount) := by
  unfold display shown
  cases hd : if decimals < 0 then none else denomination? amount with
  | none => exact worth?_toString amount
  | some d =>
    obtain ⟨-, hsome⟩ := Option.ite_none_left_eq_some.mp hd
    exact worth?_push_letter (denomination?_some hsome).1 _ _

example : display 999999 0 = "1000K" ∧ worth? "1000K" = some 1000000 := by decide +kernel

theorem shown_mono (decimals : ℤ) : Monotone (shown decimals) := by
  intro a b h
  have hcast : (a : ℚ) ≤ b := mod_cast h
  unfold shown
  -- With a negative number of decimals everything is shown in full; otherwise the denominations
  -- may differ.
  by_cases hraw : decimals < 0
  · rw [if_pos hraw, if_pos hraw]
    exact hcast
  rw [if_neg hraw, if_neg hraw]
  cases ha : denomination? a with
  | none =>
    cases hb : denomination? b with
    | none => exact hcast
    | some e =>
      -- The lesser amount is short of all denominations.
      obtain ⟨he, hle, -⟩ := denomination?_some hb
      calc (a : ℚ) ≤ e.size := mod_cast (denomination?_none ha e he).le
        _ ≤ valueIn e decimals.toNat b := size_le_valueIn he hle _
  | some d =>
    obtain ⟨hd, hda, hlargest⟩ := denomination?_some ha
    cases hb : denomination? b with
    | none => exact absurd (hda.trans h) (denomination?_none hb d hd).not_ge
    | some e =>
      obtain ⟨he, heb, hlargest'⟩ := denomination?_some hb
      have hde : d.size ≤ e.size := hlargest' d hd (hda.trans h)
      by_cases hea : (e.size : ℤ) ≤ a
      · -- Both amounts have the same denomination, the larger one.
        rw [eq_of_size_eq hd he (le_antisymm hde (hlargest e he hea))]
        exact valueIn_mono e _ h
      · -- The larger denomination begins between the amounts.
        calc valueIn d decimals.toNat a
            ≤ e.size := valueIn_le_size hd he hde (not_le.mp hea).le _
          _ ≤ valueIn e decimals.toNat b := size_le_valueIn he heb _

/-- What a denomination begins with is shown as itself, whatever it is shown in. -/
theorem shown_size {d : Denomination} (hd : d ∈ denominations) (decimals : ℤ) :
    shown decimals d.size = d.size := by
  unfold shown
  cases he : if decimals < 0 then none else denomination? (d.size : ℤ) with
  | none => rfl
  | some e =>
    obtain ⟨-, hsome⟩ := Option.ite_none_left_eq_some.mp he
    obtain ⟨hmem, hle, -⟩ := denomination?_some hsome
    exact valueIn_size hmem hd (mod_cast hle) _

/-- **The display never inverts an order.** However many decimals are asked for, shown credits are
readable, and a lesser amount does not stand for more than a greater one. No rounding leads past an
amount with which a denomination begins. -/
theorem display_keeps_order {a b : ℤ} (h : a ≤ b) (decimals : ℤ) :
    ∃ x y, worth? (display a decimals) = some x ∧ worth? (display b decimals) = some y ∧ x ≤ y ∧
      ∀ d ∈ denominations, (a ≤ d.size → x ≤ d.size) ∧ (d.size ≤ b → d.size ≤ y) := by
  refine ⟨shown decimals a, shown decimals b, worth?_display a decimals, worth?_display b decimals,
    shown_mono decimals h, fun d hd => ?_⟩
  rw [← shown_size hd decimals]
  exact ⟨fun ha => shown_mono decimals ha, fun hb => shown_mono decimals hb⟩

theorem display_keeps_order_million :
    (999999 : ℤ) ≤ 1000000 ∧
      ∃ x y, worth? (display 999999 0) = some x ∧ worth? (display 1000000 0) = some y ∧ x ≤ y ∧
        ∀ d ∈ denominations, ((999999 : ℤ) ≤ d.size → x ≤ d.size) ∧
          ((d.size : ℤ) ≤ 1000000 → d.size ≤ y) :=
  ⟨by decide, display_keeps_order (by decide) 0⟩

end GalaxyMarket.Credits
