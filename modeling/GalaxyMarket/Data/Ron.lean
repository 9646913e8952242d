import GalaxyMarket.Data.Schema
import GalaxyMarket.Data.Value

/-!
# RON

Reads RON texts: records in parentheses, `Some(...)` and `None` for optional values, bare words for
the cases of an enumeration, commas that may trail, and comments to the end of the line or between
`/*` and `*/`, which nest. Attributes in front of the value switch extensions on; the only one that
matters here lets `Some` be left out.

A text is read by a schema: where an optional value is expected, `Some` and `None` are looked for,
and nowhere else. What stands in an unknown field is read by its looks, and forgotten.

The depth of a value is bounded. Brackets take one level, and so does each thing inside of them and
the content of an optional value.
-/

namespace GalaxyMarket.Ron

open Reader

/-! ### Blanks and comments -/

/-- Passes over the rest of a comment that `/*` opened, at a nesting `level` below it. -/
def blockComment : (fuel level : Nat) → Reader Unit
  | 0, _ => failure
  | fuel + 1, level => do
    if ← accept "/*" then blockComment fuel (level + 1)
    else if ← accept "*/" then
      match level with
      | 0 => return
      | level + 1 => blockComment fuel level
    else
      let _ ← any
      blockComment fuel level

/-- Passes over blanks up to the end of the next comment; none when there is no comment. -/
def blanks : Reader (Option Unit) := do
  let _ ← takeWhile ([' ', '\n', '\t', '\r'].contains ·)
  if ← accept "//" then
    let _ ← takeWhile (· != '\n')
    return some ()
  else if ← accept "/*" then
    blockComment ((← get).length + 1) 0
    return some ()
  else return none

/-- Passes over blanks and comments. -/
def skip : Reader Unit := do let _ ← many blanks

/-! ### Words -/

/-- Whether a word can start with a character. -/
def startsWord (c : Char) : Bool := c.isAlpha || c == '_'

/-- Whether a character can stand inside a word. -/
def inWord (c : Char) : Bool := c.isAlphanum || c == '_'

/-- Whether a character can stand inside a word that is marked with `r#`. -/
def inRawWord (c : Char) : Bool := inWord c || ['.', '+', '-'].contains c

/-- Whether the text starts with a string whose escapes count for nothing. -/
def startsRawString : List Char → Bool
  | 'r' :: '"' :: _ => true
  | 'r' :: '#' :: c :: _ => !inRawWord c
  | _ => false

/-- A word. -/
def word : Reader String := do
  let text ← get
  require (text.head?.any startsWord && !startsRawString text)
  if ← accept "r#" then return String.ofList (← takeSome inRawWord)
  let letters ← takeWhile inWord
  require !((← peek?).any inRawWord)
  return String.ofList letters

/-! ### Strings -/

/-- One character behind a backslash. -/
def escaped : Reader Char := do
  match ← any with
  | 'x' => return Char.ofNat (digitsValue 16 (← takeExactly 2 isHexDigit))
  | 'u' =>
    expect "\x7b"
    let digits ← takeSome isHexDigit
    require (digits.length ≤ 6)
    expect "\x7d"
    match charOfCode? (digitsValue 16 digits) with
    | some c => return c
    | none => failure
  | c =>
    let escapes := [('\'', '\''), ('"', '"'), ('\\', '\\'), ('n', '\n'), ('r', '\r'), ('t', '\t'),
      ('0', '\x00')]
    match escapes.lookup c with
    | some c => return c
    | none => failure

/-- A string behind its opening quote. -/
def escapedString : Reader String := do
  let characters ← many do
    match ← any with
    | '"' => return none
    | '\\' => return some (← escaped)
    | c => return some c
  return String.ofList characters

/-- A string whose escapes count for nothing. It ends at a quote with as many marks behind it as it
has in front. -/
def rawString : Reader String := do
  expect "r"
  let marks ← takeWhile (· == '#')
  expect "\""
  let close := String.ofList ('"' :: marks)
  let characters ← many do
    if ← accept close then return none
    return some (← any)
  return String.ofList characters

/-- A string of either kind. -/
def string : Reader String := do if ← accept "\"" then escapedString else rawString

/-- A single character in quotes. -/
def quotedChar : Reader Unit := do
  expect "'"
  match ← any with
  | '\\' => let _ ← escaped
  | c => require (c != '\'')
  expect "'"

/-! ### Numbers -/

/-- A natural number: digits of base ten, or of another base behind a mark. Underlines may stand
between them but not in front. -/
def natural? (text : List Char) : Option Nat :=
  match text with
  | '0' :: 'x' :: digits => ofBase 16 digits
  | '0' :: 'o' :: digits => ofBase 8 digits
  | '0' :: 'b' :: digits => ofBase 2 digits
  | digits => ofBase 10 digits
where
  ofBase (base : Nat) (digits : List Char) : Option Nat :=
    let significant := digits.filter (· != '_')
    if digits.head?.any (· != '_') &&
        significant.all fun c => isHexDigit c && digitsValue 16 [c] < base then
      some (digitsValue base significant)
    else none

/-- A number with a point or an exponent, as a real. -/
def decimal : Reader Float := do
  let negative ← accept "-"
  if !negative then let _ ← accept "+"
  let whole ← takeWhile Char.isDigit
  let fraction ← if ← accept "." then takeWhile Char.isDigit else pure []
  require !(whole.isEmpty && fraction.isEmpty)
  return Numeral.decimal negative whole fraction (← Numeral.exponent)

/-- The real reading of a number. -/
def real? (text : String) : Option Float :=
  match text with
  | "inf" | "+inf" => some (Binary64.toFloat (.infinite false))
  | "-inf" => some (Binary64.toFloat (.infinite true))
  | "NaN" | "+NaN" | "-NaN" => some (Binary64.toFloat .nan)
  | _ => decimal.run? text

/-- The readings of a number. A sign keeps it from being natural. -/
def numeral (text : List Char) : Numeral where
  integer? :=
    match text with
    | '-' :: rest => (natural? rest).bind fun n => Numeral.integerOf? (-n)
    | '+' :: rest => (natural? rest).bind fun n => Numeral.integerOf? n
    | _ => (natural? text).bind fun n => Numeral.integerOf? n
  natural? := (natural? text).bind Numeral.naturalOf?
  real? := real? (String.ofList text)

/-- A number, which has to have some reading. -/
def number : Reader Numeral := do
  let n := numeral (← takeWhile inRawWord)
  require (n.integer?.isSome || n.natural?.isSome || n.real?.isSome)
  return n

/-! ### Parts of values -/

/-- Passes over a comma and what is around it; tells whether there is one. -/
def comma : Reader Bool := do
  skip
  let found ← accept ","
  skip
  return found

/-- What is one level deeper, if `depth` allows for it. -/
def nest {β : Type} (depth : Nat) (inner : Nat → Reader β) : Reader β :=
  match depth with
  | 0 => failure
  | depth + 1 => inner depth

/-- An optional value. If `Some` is implicit it may be left out, or stand there without parentheses.
Neither `Some` nor `None` has to end where a word ends. -/
def optional {β : Type} (implicitSome : Bool) (content : Reader β) : Reader (Option β) := do
  if ← accept "None" then return none
  if ← accept "Some" then
    skip
    if ← accept "(" then
      skip
      let x ← content
      let _ ← comma
      expect ")"
      return some x
  require implicitSome
  return some (← content)

/-- The key of a field, up to its value. -/
def key : Reader String := do
  let name ← word
  skip
  expect ":"
  skip
  return name

/-! ### Values that do not matter -/

/-- Whether a text starts with a whole word. -/
def startsWithWord (name : String) (text : List Char) : Bool :=
  name.toList.isPrefixOf text && !(text.drop name.length).head?.any inWord

/-- Words that are values by themselves; another word may be the name of a record. -/
def plainWords : List String := ["true", "false", "None", "inf", "-inf", "NaN"]

/-- Whether fields follow, as against values without names. -/
def fieldsFollow : Reader Bool := do return (key.run (← get)).isSome

/-- Passes over a value, at a depth that still has so many levels. `content` does so one level
deeper, and `item` two levels. -/
def ignoredOf (implicitSome : Bool) (depth : Nat) (content item : Reader Unit) : Reader Unit := do
  let text ← get
  if let some name := plainWords.find? (startsWithWord · text) then expect name
  else if startsWithWord "Some" text then
    let _ ← optional implicitSome content
  else if ← accept "()" then return
  else
    match text.head? with
    | some '(' => parentheses
    | some '[' => brackets "[" "]" item
    | some '{' => brackets "\x7b" "\x7d" do
      item
      skip
      expect ":"
      skip
      item
    | some '\'' => quotedChar
    | some c =>
      if c == '"' || startsRawString text then
        let _ ← string
      else if startsWord c then
        let _ ← word
        skip
        if (← peek?) == some '(' then parentheses
      else
        let _ ← number
    | none => failure
where
  /-- Parts in brackets. -/
  brackets (opening closing : String) (part : Reader Unit) : Reader Unit := do
    require (0 < depth)
    expect opening
    let _ ← commaList skip closing true part
  /-- Fields in parentheses, or values without names. -/
  parentheses : Reader Unit := do
    require (0 < depth)
    expect "("
    skip
    let named ← fieldsFollow
    let _ ← commaList skip ")" true do
      if named then
        let _ ← key
      item

/-- Passes over a value, at a depth that still has so many levels. -/
def ignored (implicitSome : Bool) : (depth : Nat) → Reader Unit
  | 0 => ignoredOf implicitSome 0 failure failure
  | 1 => ignoredOf implicitSome 1 (ignored implicitSome 0) failure
  | depth + 2 =>
    ignoredOf implicitSome (depth + 2) (ignored implicitSome (depth + 1))
      (ignored implicitSome depth)

/-! ### Values -/

/-- The name of a record, which may be left out, up to the opening parenthesis. -/
def recordName (name : String) : Reader Unit := do
  if (← peek?).any inWord then require ((← word) == name)
  skip
  expect "("

mutual

/-- A value of a schema, at a depth that still has so many levels. -/
def value (implicitSome : Bool) : Schema → (depth : Nat) → Reader Value
  | .text, _ => .text <$> string
  | .bool, _ => do
    if ← accept "true" then return .bool true
    expect "false"
    return .bool false
  | .number, _ => .number <$> number
  | .case, _ => .text <$> word
  | .list item, depth => do
    expect "["
    nest depth fun depth =>
      .list <$> commaList skip "]" true (nest depth (value implicitSome item))
  | .optional content, depth => do
    return (← optional implicitSome (nest depth (value implicitSome content))).getD .null
  | .record name fields, depth => do
    recordName name
    nest depth fun depth =>
      .record <$> commaList skip ")" true do
        let key ← key
        return (key, ← nest depth (fieldValue implicitSome fields key))

/-- The value of a field, whose schema depends on its key. -/
def fieldValue (implicitSome : Bool) :
    List (String × Schema) → (key : String) → (depth : Nat) → Reader Value
  | [], _, depth => do
    ignored implicitSome depth
    return .other
  | (name, schema) :: fields, key, depth =>
    if key == name then value implicitSome schema depth
    else fieldValue implicitSome fields key depth

end

/-! ### Documents -/

/-- The name of an extension. -/
def extension : Reader String := do
  let name ← word
  require (["unwrap_newtypes", "implicit_some", "unwrap_variant_newtypes"].contains name)
  return name

/-- Takes some marks, with what may stand behind each of them. -/
def marks (names : List String) : Reader Unit :=
  names.forM fun name => do
    expect name
    skip

/-- An attribute, which switches extensions on. -/
def attribute? : Reader (Option (List String)) := do
  if (← peek?) != some '#' then return none
  marks ["#", "!", "[", "enable", "("]
  let first ← extension
  let others ← many do
    let separated ← comma
    if separated && (← peek?).any inWord then return some (← extension) else return none
  marks [")", "]"]
  return some (first :: others)

/-- The number of levels that the value of a document may have. -/
def maxDepth : Nat := 128

/-- A whole text: attributes and one value. -/
def document (schema : Schema) : Reader Value := do
  skip
  let attributes ← many attribute?
  let v ← value (attributes.any (·.contains "implicit_some")) schema maxDepth
  skip
  return v

/-- Reads a text. -/
def parse? (schema : Schema) (text : String) : Option Value := (document schema).run? text

/-- A case is a bare word, never a record. -/
def dialect : Dialect where
  nothingMore _ := false

end GalaxyMarket.Ron
