/-!
# Readers

A reader takes characters off the front of a text and gives back what it made of them, or fails. The
readers of the data formats are put together from the ones here. Wherever a reader repeats another
one, the number of characters that are left bounds the repetitions.
-/

namespace GalaxyMarket

/-- Takes characters off the front of a text, or fails. -/
abbrev Reader := StateT (List Char) Option

namespace Reader

variable {β : Type}

/-- Goes on only if a condition holds. -/
def require (condition : Bool) : Reader Unit := if condition then pure () else failure

/-- The next character, left where it is. -/
def peek? : Reader (Option Char) := return (← get).head?

/-- Takes the next character. -/
def any : Reader Char := do
  match ← get with
  | c :: rest => set rest; return c
  | [] => failure

/-- Takes a word if the text starts with it. -/
def accept (word : String) : Reader Bool := do
  let text ← get
  if word.toList.isPrefixOf text then
    set (text.drop word.length)
    return true
  else return false

/-- Takes a word that the text has to start with. -/
def expect (word : String) : Reader Unit := do require (← accept word)

/-- Takes characters as long as they are of a class. -/
def takeWhile (p : Char → Bool) : Reader (List Char) := do
  let text ← get
  set (text.dropWhile p)
  return text.takeWhile p

/-- Takes at least one character of a class. -/
def takeSome (p : Char → Bool) : Reader (List Char) := do
  let taken ← takeWhile p
  require !taken.isEmpty
  return taken

/-- Takes exactly `n` characters of a class. -/
def takeExactly (n : Nat) (p : Char → Bool) : Reader (List Char) := do
  let text ← get
  let taken := text.take n
  require (taken.length == n && taken.all p)
  set (text.drop n)
  return taken

/-- Repeats a reader until it finds nothing more, at most `fuel` times. -/
def repeatFor (item : Reader (Option β)) : Nat → Reader (List β)
  | 0 => failure
  | fuel + 1 => do
    match ← item with
    | some x => return x :: (← repeatFor item fuel)
    | none => return []

/-- Repeats a reader until it finds nothing more. It has to take at least one character each time
that it finds something. -/
def many (item : Reader (Option β)) : Reader (List β) := do
  repeatFor item ((← get).length + 1)

/-- The rest of a list in brackets, behind the opening one: items with commas between them. `skip`
passes over what may stand between the parts; a comma behind the last item is a matter of the
format. -/
def commaList (skip : Reader Unit) (close : String) (trailingComma : Bool) (item : Reader β) :
    Reader (List β) := do
  skip
  if ← accept close then return []
  let first ← item
  skip
  let others ← many do
    if ← accept close then return none
    expect ","
    skip
    if trailingComma then
      if ← accept close then return none
    let next ← item
    skip
    return some next
  return first :: others

/-- Reads a whole text. -/
def run? (reader : Reader β) (text : String) : Option β := do
  let (x, rest) ← reader.run text.toList
  if rest.isEmpty then some x else none

end Reader

/-- The number that digits of a base denote. -/
def digitsValue (base : Nat) (digits : List Char) : Nat :=
  digits.foldl (fun n c => n * base + digitValue c) 0
where
  /-- The value of a digit; letters go on after nine. -/
  digitValue (c : Char) : Nat :=
    if c.isDigit then c.toNat - '0'.toNat else c.toLower.toNat - 'a'.toNat + 10

/-- Whether a character is a digit of base sixteen. -/
def isHexDigit (c : Char) : Bool :=
  c.isDigit || ('a' ≤ c && c ≤ 'f') || ('A' ≤ c && c ≤ 'F')

/-- The character of a code point; surrogates and what is too large have none. -/
def charOfCode? (code : Nat) : Option Char :=
  if code.isValidChar then some (Char.ofNat code) else none

end GalaxyMarket
