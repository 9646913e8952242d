import GalaxyMarket.Number.Decimal

/-!
# Credits

Money is counted in whole credits, integers kept within 64 bits; debts and differences are negative.

* `Credits.ofInt` is the cut at the ends of that range.
* `Credits.display` is the short form in which amounts are shown: thousands, millions, billions,
  trillions and quadrillions carry a letter.
-/

namespace GalaxyMarket.Credits

/-- The least amount. -/
def least : Int := Int64.minValue.toInt

/-- The greatest amount. -/
def greatest : Int := Int64.maxValue.toInt

/-- The amount nearest to an integer. -/
def ofInt (n : Int) : Int := max least (min greatest n)

/-- A unit in which large amounts are shown. -/
structure Denomination where
  size : Nat
  letter : Char
  deriving Repr

/-- The denominations, largest first. -/
def denominations : List Denomination :=
  [⟨Decimal.tenPow 15, 'Q'⟩, ⟨Decimal.tenPow 12, 'T'⟩, ⟨Decimal.tenPow 9, 'B'⟩,
    ⟨Decimal.tenPow 6, 'M'⟩, ⟨Decimal.tenPow 3, 'K'⟩]

/-- The largest denomination that goes into an amount. -/
def denomination? (amount : Int) : Option Denomination :=
  denominations.find? fun d => (d.size : Int) ≤ amount

/-- An amount divided by a denomination, in units of double precision: both the amount and the
quotient are rounded to a double. -/
def quotientUnits (amount : Int) (d : Denomination) : Nat :=
  Binary64.roundUnits (Binary64.roundUnits amount.toNat 1) (Binary64.one * d.size)

/-- An amount in its largest denomination with `decimals` digits after the point. Amounts below one
thousand, and all amounts when `decimals` is negative, are written in full. -/
def display (amount : Int) (decimals : Int) : String :=
  match if decimals < 0 then none else denomination? amount with
  | some d => (Decimal.fixed decimals.toNat (quotientUnits amount d)).push d.letter
  | none => toString amount

end GalaxyMarket.Credits
