import GalaxyMarket.Data.Value

/-!
# JSON

Reads JSON texts. Strings are taken literally when they are skipped: half a surrogate pair is
refused only where the string is used. Numbers without point and exponent are integers, except `-0`.

The real reading of a number is not always the double nearest to it. The first digits that fit into
64 bits make a significand, which is rounded to a double and then multiplied with or divided by a
power of ten, each step rounding once more.
-/

namespace GalaxyMarket.Json

open Reader

/-- Passes over blanks. -/
def skip : Reader Unit := do let _ ← takeWhile ([' ', '\n', '\t', '\r'].contains ·)

/-! ### Numbers -/

/-- Appends digits to a significand until it no longer fits into 64 bits; the digits that are left
over are counted. -/
def absorb (significand : Nat) : List Char → Nat × Nat
  | [] => (significand, 0)
  | digit :: digits =>
    let next := significand * 10 + digitsValue 10 [digit]
    if next < UInt64.size then absorb next digits else (significand, digits.length + 1)

/-- The largest power of ten that is used in one step. -/
def maxPower : Int := 308

/-- Multiplies a number with a power of ten, in as many steps as it takes; none when it gets
infinite. -/
def scaled? : Nat → Float → Int → Option Float
  | 0, x, _ => some x
  | steps + 1, x, exponent =>
    if exponent.natAbs ≤ maxPower then
      let power := Decimal.toFloat false 1 exponent.natAbs
      if 0 ≤ exponent then some (x * power) |>.filter Float.isFinite else some (x / power)
    else if x == 0.0 then some x
    else if 0 ≤ exponent then none
    else scaled? steps (x / Decimal.toFloat false 1 maxPower) (exponent + maxPower)

/-- The real reading of a number. Three steps take the largest significand to zero. An exponent that
does not fit into 32 bits is either too large or gives zero. -/
def real? (negative : Bool) (whole fraction : List Char) (exponent : Int) : Option Float := do
  let (significand, dropped) := absorb 0 whole
  -- A digit behind the point may fit where one in front of it did not.
  let (significand, ignored) := absorb significand fraction
  let shift : Int := dropped - (fraction.length - ignored : Nat)
  let magnitude ←
    if exponent.natAbs ≤ Int32.maxValue.toInt then
      scaled? 3 (Binary64.ofInt significand) (exponent + shift)
    else if significand != 0 && 0 < exponent then none
    else some 0.0
  return if negative then -magnitude else magnitude

/-- A number. -/
def number : Reader Numeral := do
  let negative ← accept "-"
  let whole ← takeSome Char.isDigit
  require (whole.length == 1 || whole.head? != some '0')
  let fraction ← if ← accept "." then takeSome Char.isDigit else pure []
  let marked := (← peek?).any (['e', 'E'].contains ·)
  let exponent ← Numeral.exponent
  let real? := real? negative whole fraction exponent
  let n := digitsValue 10 whole
  if fraction.isEmpty && !marked && !(negative && n == 0) then
    return {
      integer? := Numeral.integerOf? (if negative then -n else n)
      natural? := if negative then none else Numeral.naturalOf? n
      real? }
  else return .ofReal real?

/-! ### Strings -/

/-- One character of a string, as a code; none at the closing quote. -/
def code : Reader (Option Nat) := do
  match ← any with
  | '"' => return none
  | '\\' =>
    match ← any with
    | 'u' => return some (digitsValue 16 (← takeExactly 4 isHexDigit))
    | c =>
      let escapes := [('"', 0x22), ('\\', 0x5C), ('/', 0x2F), ('b', 8), ('f', 12), ('n', 10),
        ('r', 13), ('t', 9)]
      match escapes.lookup c with
      | some code => return some code
      | none => failure
  | c =>
    require (0x20 ≤ c.toNat)
    return some c.toNat

/-- The text of some codes. A surrogate is half of a pair, the high half in front. -/
def textOfCodes? : List Nat → Option (List Char)
  | [] => some []
  | high :: low :: codes =>
    if 0xD800 ≤ high && high < 0xDC00 && 0xDC00 ≤ low && low < 0xE000 then do
      let c ← charOfCode? (0x10000 + (high - 0xD800) * 0x400 + (low - 0xDC00))
      return c :: (← textOfCodes? codes)
    else return (← charOfCode? high) :: (← textOfCodes? (low :: codes))
  | [code] => (charOfCode? code).map ([·])

/-- A string behind its opening quote; none inside if it has half a surrogate pair. -/
def string : Reader (Option String) := return (textOfCodes? (← many code)).map String.ofList

/-! ### Values -/

/-- One field of an object; none if its key is not a text. -/
def field (value : Reader Value) : Reader (Option (String × Value)) := do
  expect "\""
  let key? ← string
  skip
  expect ":"
  skip
  let v ← value
  return key?.map (·, v)

/-- A value; `depth` bounds the nesting. -/
def value : (depth : Nat) → Reader Value
  | 0 => failure
  | depth + 1 => do
    match ← peek? with
    | some '{' =>
      let _ ← any
      let fields ← commaList skip "\x7d" false (field (value depth))
      return (fields.mapM id).elim .other .record
    | some '[' =>
      let _ ← any
      return .list (← commaList skip "]" false (value depth))
    | some '"' =>
      let _ ← any
      return (← string).elim .other .text
    | some 't' => expect "true"; return .bool true
    | some 'f' => expect "false"; return .bool false
    | some 'n' => expect "null"; return .null
    | _ => return .number (← number)

/-- A whole text: one value. -/
def document : Reader Value := do
  skip
  let v ← value ((← get).length + 1)
  skip
  return v

/-- Reads a text. -/
def parse? (text : String) : Option Value := document.run? text

/-- A case may be a record with null under its name. -/
def dialect : Dialect where
  nothingMore
    | .null => true
    | _ => false

end GalaxyMarket.Json
