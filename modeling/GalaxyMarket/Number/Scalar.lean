/-!
# The arithmetic of a market

Every rule of the market (route resistances, intensities, linear solves, prices) is written once
over a type of numbers `α` with `[Scalar α]`. A program runs it on `Float`; the theory reads it on
the real numbers, where the same definitions are exact.

`Scalar` lists only what the rules use. Comparisons are `Bool` valued, so that a number that is not
equal to itself simply fails every test, and everything that can be said with comparisons alone
(`maxNum`, `minNum`, `abs`, `clamp`) is defined from them.
-/

namespace GalaxyMarket

/-- Numbers a market can compute with. -/
class Scalar (α : Type) extends Zero α, One α, Add α, Sub α, Mul α, Div α, Neg α,
    OfScientific α where
  /-- The number nearest to an integer. -/
  ofInt : Int → α
  /-- Strictly below; false when one side is no number. -/
  lt : α → α → Bool
  /-- At most; false when one side is no number. -/
  le : α → α → Bool
  /-- Neither infinite nor an undefined result. -/
  isFinite : α → Bool
  /-- The reciprocal, where it is finite. -/
  recip? : α → Option α
  /-- The square root. -/
  sqrt : α → α
  /-- `pow b e` is `b` to the power `e`. -/
  pow : α → α → α
  /-- The whole number nearest to `n * x`, a half going away from zero. The product is first rounded
  to a number of this arithmetic; an undefined product counts as zero. -/
  wholeProduct : Int → α → Int

namespace Scalar

variable {α : Type} [Scalar α]

/-- Values that are no number, such as the quotient of zero by zero, are not even equal to
themselves. -/
def isNumber (a : α) : Bool := le a a

/-- The larger of two numbers, the second when they are level. What is no number loses to what is
one. -/
def maxNum (a b : α) : α := if lt b a || !isNumber b then a else b

/-- The smaller of two numbers, the second when they are level. What is no number loses to what is
one. -/
def minNum (a b : α) : α := if lt a b || !isNumber b then a else b

/-- The distance from zero. -/
def abs (a : α) : α := if lt a 0 then -a else a

/-- `x` moved into the interval from `lo` to `hi`; what is no number stays as it is. -/
def clamp (lo hi x : α) : α :=
  let y := if lt x lo then lo else x
  if lt hi y then hi else y

/-- The sum of a list, added from left to right. -/
def sum (xs : List α) : α := xs.foldl (· + ·) 0

end Scalar

end GalaxyMarket
