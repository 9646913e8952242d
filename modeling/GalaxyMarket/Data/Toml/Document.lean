import GalaxyMarket.Data.Toml.Moment
import GalaxyMarket.Data.Toml.Table

/-!
# Documents of TOML

A document is a sequence of lines: headers, which choose the table that follows, and keys with their
values. Reading a line edits the tree of tables at once, so that the first line that contradicts an
earlier one ends the reading.
-/

namespace GalaxyMarket.Toml

open Reader

/-- How deep arrays and tables in braces may nest, and how many parts a key may have. -/
def maxDepth : Nat := 79

/-! ### Keys -/

/-- A key without dots. -/
def simpleKey : Reader String := do
  if ← accept "\"" then lineString '"' true
  else if ← accept "'" then lineString '\'' false
  else return String.ofList (← takeSome fun c => c.isAlphanum || c == '_' || c == '-')

/-- A key, split at its dots: the path and the last part. -/
def key : Reader (List String × String) := do
  blanks
  let first ← simpleKey
  blanks
  let others ← many do
    if ← accept "." then
      blanks
      let next ← simpleKey
      blanks
      return some next
    else return none
  let parts := first :: others
  require (parts.length ≤ maxDepth)
  return (parts.dropLast, parts.getLast?.getD first)

/-! ### Values -/

/-- A key and its value, for a reader of values. -/
def assignment (value : Reader Value) : Reader ((List String × String) × Value) := do
  let target ← key
  expect "="
  blanks
  let v ← value
  blanks
  return (target, v)

/-- The table of some assignments. -/
def tableOf? (assignments : List ((List String × String) × Value)) : Option Value := do
  let place ← assignments.foldlM (fun place ((path, key), v) => assign path key v place)
    (⟨.declared, []⟩ : Place)
  return .record (fields place.entries)

/-- A value that has no parts. -/
def scalar : Reader Value := do
  if let some s ← string? then return .text s
  if ← accept "true" then return .bool true
  if ← accept "false" then return .bool false
  momentTable <$> moment <|> number

/-- A value; `depth` bounds the nesting of brackets and braces. -/
def value : (depth : Nat) → Reader Value
  | 0 => scalar
  | depth + 1 => do
    if ← accept "[" then return .list (← commaList gaps "]" true (value depth))
    if ← accept "\x7b" then
      let some table := tableOf? (← commaList blanks "\x7d" false (assignment (value depth)))
        | failure
      return table
    scalar

/-! ### Lines -/

/-- The tree of tables, and the path to the table to which keys go. -/
structure State where
  root : Place
  path : List String

/-- A line of a document. -/
inductive Line where
  | empty
  | header (path : List String) (key : String)
  | seriesHeader (path : List String) (key : String)
  | assign (path : List String) (key : String) (value : Value)

/-- The edit that a line makes. -/
def State.apply? (s : State) : Line → Option State
  | .empty => some s
  | .header path key => do
    return { root := (← edit .implied (declare key) path s.root), path := path ++ [key] }
  | .seriesHeader path key => do
    return { root := (← edit .implied (extend key) path s.root), path := path ++ [key] }
  | .assign path key v => do
    return { s with root := (← edit .implied (Toml.assign path key v) s.path s.root) }

/-- The content of a line. -/
def lineContent : Reader Line := do
  if ← accept "[[" then
    let (path, key) ← key
    expect "]]"
    return .seriesHeader path key
  if ← accept "[" then
    let (path, key) ← key
    expect "]"
    return .header path key
  match ← peek? with
  | none | some '#' | some '\n' | some '\x0d' => return .empty
  | _ =>
    let ((path, key), v) ← assignment (value maxDepth)
    return .assign path key v

/-- A line with its end; none at the end of the document. -/
def line? : Reader (Option Line) := do
  if (← peek?).isNone then return none
  blanks
  let content ← lineContent
  blanks
  let _ ← comment?
  require ((← newline?) || (← peek?).isNone)
  return some content

/-- A whole document, as one record. -/
def document : Reader Value := do
  let _ ← accept "\uFEFF"
  let lines ← many line?
  let start : State := { root := ⟨.declared, []⟩, path := [] }
  let some s := lines.foldlM State.apply? start | failure
  return .record (fields s.root.entries)

/-- Reads a document; dates and times are in their tables. -/
def parse? (text : String) : Option Value := document.run? text

/-- What stands under a key of a document, once all of the document has been looked through for
dates and times. -/
def valueAt? (key : String) : Value → Option Value
  | .record fields => (fieldsWithMoments? fields).bind (·.lookup key)
  | _ => none

/-- A case may be a record with an empty table or list under its name. -/
def dialect : Dialect where
  nothingMore
    | .record [] | .list [] => true
    | _ => false

end GalaxyMarket.Toml
