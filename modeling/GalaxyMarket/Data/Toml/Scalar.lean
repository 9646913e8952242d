import GalaxyMarket.Data.Value

/-!
# Scalars of TOML

Strings of the four kinds and numbers, together with the blanks and comments between them.
-/

namespace GalaxyMarket.Toml

open Reader

/-! ### Blanks and comments -/

/-- Passes over blanks on a line. -/
def blanks : Reader Unit := do let _ ← takeWhile fun c => c == ' ' || c == '\t'

/-- Takes the end of a line. -/
def newline? : Reader Bool := do return (← accept "\n") || (← accept "\x0d\n")

/-- Whether a character may stand in a comment: no control character other than the tabulator. -/
def printable (c : Char) : Bool := c == '\t' || (0x20 ≤ c.toNat && c.toNat != 0x7F)

/-- Passes over a comment, up to the end of its line. -/
def comment? : Reader Bool := do
  if ← accept "#" then
    let _ ← takeWhile printable
    return true
  else return false

/-- Passes over one run of blanks, end of a line or comment that more lines follow. -/
def gap? : Reader (Option Unit) := do
  blanks
  let commented ← comment?
  if ← newline? then return some ()
  require !commented
  return none

/-- Passes over blanks, ends of lines and comments. -/
def gaps : Reader Unit := do let _ ← many gap?

/-! ### Strings -/

/-- What a backslash and the character behind it stand for. -/
def escaped : Reader Char := do
  match ← any with
  | 'u' => fromCode 4
  | 'U' => fromCode 8
  | c =>
    let escapes := [('b', '\x08'), ('t', '\t'), ('n', '\n'), ('f', '\x0c'), ('r', '\r'), ('"', '"'),
      ('\\', '\\')]
    match escapes.lookup c with
    | some c => return c
    | none => failure
where
  /-- The character of a code with so many digits. -/
  fromCode (digits : Nat) : Reader Char := do
    match charOfCode? (digitsValue 16 (← takeExactly digits isHexDigit)) with
    | some c => return c
    | none => failure

/-- A string on one line, behind its opening quote. -/
def lineString (quote : Char) (escapes : Bool) : Reader String := do
  let characters ← many do
    let c ← any
    if c == quote then return none
    if escapes && c == '\\' then return some (← escaped)
    require (printable c)
    return some c
  return String.ofList characters

/-- A backslash at the end of a line joins it to the next character that is not blank. -/
def joinedLines : Reader Unit := do
  expect "\\"
  blanks
  require (← newline?)
  let _ ← many do
    blanks
    if ← newline? then return some () else return none

/-- A piece of a string over several lines that is not one of its quotes. -/
def blockPiece (escapes : Bool) : Reader (List Char) := do
  if ← newline? then return ['\n']
  if escapes && (← peek?) == some '\\' then
    if (joinedLines.run (← get)).isSome then
      joinedLines
      return []
    let _ ← any
    return [← escaped]
  let c ← any
  require (printable c)
  return [c]

/-- The rest of a string over several lines. Up to two quotes may stand inside, and up to two in
front of the three that close it. -/
def blockRest (quote : Char) (escapes : Bool) : (fuel : Nat) → Reader (List Char)
  | 0 => failure
  | fuel + 1 => do
    let quotes ← takeWhile (· == quote)
    if 3 ≤ quotes.length then
      require (quotes.length < 6)
      return quotes.drop 3
    let piece ← if quotes.isEmpty then blockPiece escapes else pure quotes
    return piece ++ (← blockRest quote escapes fuel)

/-- A string over several lines, behind its opening quotes. An end of line right behind them does
not count. -/
def blockString (quote : Char) (escapes : Bool) : Reader String := do
  let _ ← newline?
  return String.ofList (← blockRest quote escapes ((← get).length + 1))

/-- A string of any kind, if there is one. -/
def string? : Reader (Option String) := do
  if ← accept "\"\"\"" then return some (← blockString '"' true)
  if ← accept "'''" then return some (← blockString '\'' false)
  if ← accept "\"" then return some (← lineString '"' true)
  if ← accept "'" then return some (← lineString '\'' false)
  return none

/-! ### Numbers -/

/-- Digits of a base, with single underlines between them. -/
def digitRun (base : Nat) : Reader (List Char) := do
  let isDigit (c : Char) : Bool := isHexDigit c && digitsValue 16 [c] < base
  let run ← takeSome fun c => isDigit c || c == '_'
  require (isDigit (run.headD '_') && isDigit (run.getLastD '_'))
  require !((run.zip run.tail).any fun (a, b) => a == '_' && b == '_')
  return run.filter (· != '_')

/-- An integer, which has to fit into 64 bits. -/
def integer (n : Int) : Reader Value := do
  let some n := Numeral.integerOf? n | failure
  return .number
    { integer? := some n
      natural? := if n < 0 then none else some n.toNat
      real? := some (Binary64.ofInt n) }

/-- A real number, which must not be too large; only a negative one may. -/
def real (x : Float) : Reader Value := do
  require (!(x.isInf && 0.0 < x))
  return .number (.ofReal (some x))

/-- The sign of a number: whether it is negative, and whether there is one. -/
def sign : Reader (Bool × Bool) := do
  if ← accept "-" then return (true, true)
  if ← accept "+" then return (false, true)
  return (false, false)

/-- An exponent, where underlines may stand between the digits. -/
def exponent? : Reader (Option Int) := do
  if (← accept "e") || (← accept "E") then
    let (negative, _) ← sign
    let n : Int := digitsValue 10 (← digitRun 10)
    return some (if negative then -n else n)
  else return none

/-- A number. -/
def number : Reader Value := do
  let (negative, signed) ← sign
  if ← accept "inf" then return .number (.ofReal (some (Binary64.toFloat (.infinite negative))))
  if ← accept "nan" then return .number (.ofReal (some (Binary64.toFloat .nan)))
  if !signed then
    for (mark, base) in [("0x", 16), ("0o", 8), ("0b", 2)] do
      if ← accept mark then return ← integer (digitsValue base (← digitRun base))
  let whole ← digitRun 10
  require (whole.length == 1 || whole.head? != some '0')
  let fraction? ← if ← accept "." then some <$> digitRun 10 else pure none
  let exponent? ← exponent?
  if fraction?.isNone && exponent?.isNone then
    let n : Int := digitsValue 10 whole
    integer (if negative then -n else n)
  else real (Numeral.decimal negative whole (fraction?.getD []) (exponent?.getD 0))

end GalaxyMarket.Toml
