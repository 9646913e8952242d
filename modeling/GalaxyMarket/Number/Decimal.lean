import GalaxyMarket.Number.Binary64

/-!
# Decimal text of numbers

Three ways to write a double without its sign, all by exact arithmetic on natural numbers:

* `fixed` has a given number of digits after the point;
* `scientific` has a given number of digits after the leading one, and an exponent of ten;
* `shortest` has the fewest digits from which the double can be read back, and no exponent.

The first two round the exact value half to even. Reading is the other direction: `Decimal.toFloat`
gives the double nearest to a decimal number.
-/

namespace GalaxyMarket.Decimal

/-- A power of ten. -/
def tenPow (places : Nat) : Nat := Nat.pow 10 places

/-- `num / den` times `10 ^ shift`, as a quotient. -/
def scale (num den : Nat) (shift : Int) : Nat × Nat :=
  if 0 ≤ shift then (num * tenPow shift.toNat, den) else (num, den * tenPow (-shift).toNat)

/-- The number of decimal digits of `n`. Of a long number sixteen digits are counted at once; it has
fewer digits than bits, so that the bits bound the steps. -/
def digitCount (n : Nat) : Nat := count n.log2 n
where
  count : (fuel : Nat) → Nat → Nat
    | 0, _ => 1
    | fuel + 1, n =>
      if n < tenPow 16 then (Nat.toDigits 10 n).length else 16 + count fuel (n / tenPow 16)

/-- The `k` with `10 ^ k ≤ num / den < 10 ^ (k + 1)`, for positive `num` and `den`. -/
def exponent (num den : Nat) : Int :=
  let guess : Int := (digitCount num : Int) - digitCount den
  let (a, b) := scale num den (-guess)
  -- The lengths leave two candidates, which a comparison tells apart.
  if b ≤ a then guess else guess - 1

/-- `n` with zeros in front up to `width` digits. -/
def padded (width n : Nat) : String :=
  let digits := Nat.toDigits 10 n
  String.ofList (List.replicate (width - digits.length) '0' ++ digits)

/-- The whole number `n` divided by `10 ^ places`, with that many digits after the point. -/
def pointed (places n : Nat) : String :=
  if places == 0 then padded 1 n
  else padded 1 (n / tenPow places) ++ "." ++ padded places (n % tenPow places)

/-- The number of decimal places behind which a double has nothing but zeros. -/
def maxPlaces : Nat := 1074

/-- A double of this many units with `places` digits after the point, rounded half to even. -/
def fixed (places units : Nat) : String :=
  let exact := min places maxPlaces
  let zeros := List.replicate (places - exact) '0'
  pointed exact (Rounding.halfEven (units * tenPow exact) Binary64.one) ++ String.ofList zeros

/-- The first `places + 1` digits of `num / den`, rounded half to even, and its exponent of ten. -/
def leading (places num den : Nat) : Nat × Int :=
  if num == 0 then (0, 0)
  else
    let k := exponent num den
    let (a, b) := scale num den (places - k)
    let digits := Rounding.halfEven a b
    -- Rounding may carry into one more digit.
    if digits == tenPow (places + 1) then (tenPow places, k + 1) else (digits, k)

/-- `num / den` as one digit, `places` digits and an exponent of ten. -/
def scientific (places num den : Nat) : String :=
  let (digits, k) := leading places num den
  pointed places digits ++ "e" ++ toString k

/-- Quadruple units: the double itself and the ends of the interval of numbers that round to it,
which belong to it exactly when its significand is even. -/
structure Interval where
  low : Nat
  value : Nat
  high : Nat
  closed : Bool

/-- The numbers that round to the double of this many units. Below a power of two the neighbours are
twice as dense as above it. -/
def Interval.ofUnits (units : Nat) : Interval :=
  let spare := units.log2 - 52
  let significand := units >>> spare
  let half := 2 <<< spare
  { low := 4 * units - (if significand == Binary64.leadingBit && spare != 0 then half / 2 else half)
    value := 4 * units
    high := 4 * units + half
    closed := significand % 2 == 0 }

/-- Whether `n` times `10 ^ (-shift)`, in quadruple units, rounds to the double. -/
def Interval.covers (interval : Interval) (shift : Int) (n : Nat) : Bool :=
  let (low, den) := scale interval.low (4 * Binary64.one) shift
  let (high, _) := scale interval.high (4 * Binary64.one) shift
  let point := n * den
  if interval.closed then low ≤ point && point ≤ high else low < point && point < high

/-- The neighbour of the double on the grid of multiples of `10 ^ (-shift)` that rounds to it; of
two the nearer one, and the upper one when both are equally near. -/
def Interval.neighbour? (interval : Interval) (shift : Int) : Option Nat :=
  let (num, den) := scale interval.value (4 * Binary64.one) shift
  let below := num / den
  match interval.covers shift below, interval.covers shift (below + 1) with
  | true, false => some below
  | false, true => some (below + 1)
  | true, true => some (if 2 * (num % den) < den then below else below + 1)
  | false, false => none

/-- The fewest digits that read back as the double of this many units: a whole number and the number
of decimal places it stands for. A neighbour that is the next power of ten is written without its
last zero. Seventeen digits are always enough. -/
def shortestDigits (units : Nat) : Nat × Int :=
  let k := exponent units Binary64.one
  let interval := Interval.ofUnits units
  -- The grid whose points have `length + 1` digits near the double.
  let ofLength (length : Nat) : Option (Nat × Int) :=
    let shift := (length : Int) - k
    (interval.neighbour? shift).map fun digits =>
      if digits == tenPow (length + 1) then (tenPow length, shift - 1) else (digits, shift)
  ((List.range 17).findSome? ofLength).getD (0, 0)

/-- The fewest digits that read back, written without an exponent. -/
def shortestUnits (units : Nat) : String :=
  if units == 0 then "0"
  else
    let (digits, shift) := shortestDigits units
    if 0 ≤ shift then pointed shift.toNat digits else padded 1 (digits * tenPow (-shift).toNat)

/-- Writes a double, given how to write its units. -/
def write (units : Nat → String) : Binary64 → String
  | .nan => "NaN"
  | .infinite negative => if negative then "-inf" else "inf"
  | .finite negative n => (if negative then "-" else "") ++ units n

/-- A double with `places + 1` significant digits and an exponent of ten. -/
def ofFloat (places : Nat) (x : Float) : String :=
  write (scientific places · Binary64.one) (Binary64.ofFloat x)

/-- The fewest digits that read back as `x`, without an exponent. -/
def shortest (x : Float) : String := write shortestUnits (Binary64.ofFloat x)

/-- The double nearest to `± digits * 10 ^ exponent`. A decimal exponent far beyond the range of
doubles is answered without computing the power. -/
def toFloat (negative : Bool) (digits : Nat) (exponent : Int) : Float :=
  let size := exponent + digitCount digits
  if digits == 0 || size < -400 then Binary64.ofRatio negative 0 1
  else if 400 < size then Binary64.toFloat (.infinite negative)
  else
    let (num, den) := scale digits 1 exponent
    Binary64.ofRatio negative num den

end GalaxyMarket.Decimal
