import GalaxyMarket.Data.Reader
import GalaxyMarket.Number.Decimal

/-!
# Values of data files

What the three data formats have in common once a text has been read: a tree of values. What stands
in a tree for a record or for a case of an enumeration is not the same in all of them, so a value is
read in the dialect of its format.

A number is kept by its possible readings. Which of them a number has is for its format to say:
`1.0` is no integer anywhere, `+1` is no natural number in one of the formats, and a number may be
too large for a reading.
-/

namespace GalaxyMarket

/-- What a number can be read as. -/
structure Numeral where
  /-- A signed integer of 64 bits. -/
  integer? : Option Int
  /-- An unsigned integer of 64 bits. -/
  natural? : Option Nat
  real? : Option Float

namespace Numeral

/-- An integer, as far as it fits into 64 bits. -/
def integerOf? (n : Int) : Option Int :=
  if Int64.minValue.toInt ≤ n && n ≤ Int64.maxValue.toInt then some n else none

/-- A natural number, as far as it fits into 64 bits. -/
def naturalOf? (n : Nat) : Option Nat := if n < UInt64.size then some n else none

/-- A number that is only real. -/
def ofReal (real? : Option Float) : Numeral := { integer? := none, natural? := none, real? }

/-- A decimal number with its parts: `± whole.fraction * 10 ^ exponent`. -/
def decimal (negative : Bool) (whole fraction : List Char) (exponent : Int) : Float :=
  Decimal.toFloat negative (digitsValue 10 (whole ++ fraction)) (exponent - fraction.length)

/-- The exponent behind a number: a letter, a sign and digits; zero when there is none. -/
def exponent : Reader Int := do
  if (← Reader.accept "e") || (← Reader.accept "E") then
    let negative ← Reader.accept "-"
    if !negative then let _ ← Reader.accept "+"
    let digits ← Reader.takeSome Char.isDigit
    let n : Int := digitsValue 10 digits
    return if negative then -n else n
  else return 0

end Numeral

/-- What a data file says. -/
inductive Value where
  /-- No value. -/
  | null
  | bool (b : Bool)
  | number (n : Numeral)
  | text (s : String)
  | list (items : List Value)
  /-- Named fields, in order. -/
  | record (fields : List (String × Value))
  /-- Something that can be passed over but has no meaning here. -/
  | other

/-- How a format writes what the value tree leaves open. -/
structure Dialect where
  /-- A case of an enumeration may be written as a record: its name, and under it a value that says
  that there is nothing more to the case. This tells which values say so. -/
  nothingMore : Value → Bool

end GalaxyMarket
