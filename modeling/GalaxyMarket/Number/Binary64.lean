import GalaxyMarket.Number.Rounding
import GalaxyMarket.Number.Scalar

/-!
# Binary numbers of double precision, read as integers

A finite double is a whole multiple of the smallest positive one, `2 ^ (-1074)`: its *units*.
Reading a double as a sign and a number of units turns every question about its exact value (its
decimal digits, its nearest integer, the double nearest to a quotient) into arithmetic on natural
numbers.

* `Binary64.ofFloat` classifies a `Float` and gives its units.
* `Binary64.roundUnits num den` is the double nearest to `num / den`, in units, ties to the even
  significand. The exponent is not bounded above; `Binary64.toFloat` sends what is too large to an
  infinity.

The instance of `Scalar` for `Float` closes the module.
-/

namespace GalaxyMarket

/-- The three sorts of doubles. -/
inductive Binary64 where
  | nan
  | infinite (negative : Bool)
  /-- The value `± units / 2 ^ 1074`. -/
  | finite (negative : Bool) (units : Nat)
  deriving DecidableEq, Repr

namespace Binary64

/-- The number of units in one. -/
def one : Nat := 1 <<< 1074

/-- The least number of units that is too large for a finite double, `2 ^ 1024` in units. -/
def overflow : Nat := 1 <<< 2098

/-- The leading bit of the significand of a normal number. -/
def leadingBit : Nat := 1 <<< 52

/-- The fields of an infinity but for its sign. -/
def infinityBits : Nat := 2047 <<< 52

/-- Reads the sign, exponent and significand fields of a 64 bit pattern. -/
def ofBits (bits : UInt64) : Binary64 :=
  let word := bits.toNat
  let negative := 1 <<< 63 ≤ word
  let exponent := (word >>> 52) % 2048
  let fraction := word % leadingBit
  if exponent == 2047 then
    if fraction == 0 then .infinite negative else .nan
  else if exponent == 0 then .finite negative fraction
  else .finite negative ((leadingBit + fraction) <<< (exponent - 1))

/-- The value of a `Float`. -/
def ofFloat (x : Float) : Binary64 := ofBits x.toBits

/-- The double nearest to `num / den`, in units; a tie goes to the even significand. Subtraction of
natural numbers stops at zero, which is where subnormal numbers begin. -/
def roundUnits (num den : Nat) : Nat :=
  let spare := (num * one / den).log2 - 52
  Rounding.halfEven (num * one) (den <<< spare) <<< spare

/-- The bit pattern of a number of units, which has to be that of a double. The leading bit of a
normal significand, `2 ^ 52`, raises the exponent field by the one that tells it from a subnormal
number. -/
def unitBits (units : Nat) : Nat :=
  if overflow ≤ units then infinityBits
  else
    let spare := units.log2 - 52
    (spare <<< 52) + (units >>> spare)

/-- The `Float` of a value. -/
def toFloat : Binary64 → Float
  | nan => 0.0 / 0.0
  | infinite negative => signed negative infinityBits
  | finite negative units => signed negative (unitBits units)
where
  signed (negative : Bool) (bits : Nat) : Float :=
    Float.ofBits ((if negative then 1 <<< 63 else 0) + bits).toUInt64

/-- The double nearest to `± num / den`. -/
def ofRatio (negative : Bool) (num den : Nat) : Float :=
  toFloat (finite negative (roundUnits num den))

/-- The double nearest to an integer. -/
def ofInt (n : Int) : Float := ofRatio (n < 0) n.natAbs 1

/-- The integer nearest to `n * x`, a half going away from zero. Both `n` and the product are first
rounded to a double; an infinite product gives a number beyond all finite ones. -/
def wholeProduct (n : Int) : Binary64 → Int
  | nan => 0
  | infinite negative => (if negative then -n.sign else n.sign) * Int.ofNat (1 <<< 1024)
  | finite negative units =>
    let product := roundUnits (roundUnits n.natAbs 1 * units) (one * one)
    let whole : Int := Rounding.halfUp product one
    if negative == (n < 0) then whole else -whole

end Binary64

/-- Double precision: each operation is rounded once. A zero exponent gives one for every base. -/
instance : Scalar Float where
  zero := 0.0
  one := 1.0
  ofInt := Binary64.ofInt
  lt a b := a < b
  le a b := a ≤ b
  isFinite := Float.isFinite
  recip? x :=
    let reciprocal := 1.0 / x
    if reciprocal.isFinite then some reciprocal else none
  sqrt := Float.sqrt
  pow base exponent := if exponent == 0.0 then 1.0 else Float.pow base exponent
  wholeProduct n x := Binary64.wholeProduct n (Binary64.ofFloat x)

end GalaxyMarket
