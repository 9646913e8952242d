/-!
# Rounding a quotient of natural numbers

Both ways in which the market rounds to a whole number: to the even neighbour at a tie (digits of a
decimal expansion, significands of binary numbers) and away from zero (whole credits). Each result
is within half a unit of the quotient.
-/

namespace GalaxyMarket.Rounding

/-- The natural number nearest to `num / den`; a half goes to the even neighbour. -/
def halfEven (num den : Nat) : Nat :=
  let floor := num / den
  let twice := 2 * (num % den)
  if twice < den || (twice == den && floor % 2 == 0) then floor else floor + 1

/-- The natural number nearest to `num / den`; a half goes up. -/
def halfUp (num den : Nat) : Nat := (2 * num + den) / (2 * den)

/-- `halfEven` picks one of the two neighbours of the quotient. -/
theorem halfEven_eq_or (num den : Nat) :
    halfEven num den = num / den ∨ halfEven num den = num / den + 1 := by
  simp only [halfEven]
  split <;> simp

/-- A quotient without remainder is its own rounding. -/
theorem halfEven_of_dvd {num den : Nat} (hden : 0 < den) (h : den ∣ num) :
    halfEven num den = num / den := by
  simp [halfEven, Nat.mod_eq_zero_of_dvd h, hden]

end GalaxyMarket.Rounding
