import GalaxyMarket.Data.Toml.Scalar

/-!
# Dates and times of TOML

A date or time is kept as its text in canonical form, in a table under a reserved key. Nothing keeps
a document from writing such a table itself, and with a string there that is a date or time, it is
as good as one.
-/

namespace GalaxyMarket.Toml

open Reader

/-! ### Reading -/

/-- A number of exactly so many digits, within bounds. -/
def bounded (digits low high : Nat) : Reader Nat := do
  let n := digitsValue 10 (← takeExactly digits Char.isDigit)
  require (low ≤ n && n ≤ high)
  return n

/-- The number of days of a month. -/
def daysIn (year month : Nat) : Nat :=
  let leap := year % 4 == 0 && (year % 100 != 0 || year % 400 == 0)
  if month == 2 then (if leap then 29 else 28)
  else if [4, 6, 9, 11].contains month then 30
  else 31

/-- A date in the calendar. -/
def date : Reader String := do
  let year ← bounded 4 0 9999
  expect "-"
  let month ← bounded 2 1 12
  expect "-"
  let day ← bounded 2 1 (daysIn year month)
  return s!"{Decimal.padded 4 year}-{Decimal.padded 2 month}-{Decimal.padded 2 day}"

/-- Digits without the zeros at their end. -/
def trimZeros (digits : List Char) : List Char := (digits.reverse.dropWhile (· == '0')).reverse

/-- A time of day; of its fraction nine digits count. -/
def time : Reader String := do
  let hour ← bounded 2 0 23
  expect ":"
  let minute ← bounded 2 0 59
  expect ":"
  let second ← bounded 2 0 60
  let fraction ← if ← accept "." then takeSome Char.isDigit else pure []
  let fraction := trimZeros (fraction.take 9)
  let clock :=
    s!"{Decimal.padded 2 hour}:{Decimal.padded 2 minute}:{Decimal.padded 2 second}"
  return if fraction.isEmpty then clock else clock ++ "." ++ String.ofList fraction

/-- The distance from universal time, if it is given. -/
def zone : Reader String := do
  if (← accept "Z") || (← accept "z") then return "Z"
  let (negative, signed) ← sign
  if !signed then return ""
  let hour ← bounded 2 0 23
  expect ":"
  let minute ← bounded 2 0 59
  let mark := if negative && (hour, minute) != (0, 0) then "-" else "+"
  return s!"{mark}{Decimal.padded 2 hour}:{Decimal.padded 2 minute}"

/-- A date, a time, or both, in canonical form. -/
def moment : Reader String := do
  let dated : Reader String := do
    let day ← date
    let timed : Reader String := do
      let mark ← any
      require (['T', 't', ' '].contains mark)
      let clock ← time
      return "T" ++ clock ++ (← zone)
    return day ++ (← timed <|> pure "")
  dated <|> time

/-! ### Tables -/

/-- The reserved key. -/
def momentKey : String := "$__toml_private_datetime"

/-- The table for a date or time. -/
def momentTable (canonical : String) : Value := .record [(momentKey, .text canonical)]

/-- What a table says if its first key is the reserved one: a date or time, by its text. -/
def momentText? : Value → Option Value
  | .text s => (moment.run? s).map .text
  | _ => none

mutual

/-- A value with the texts of dates and times in place of their tables. There is none if a table
with the reserved key in front is not a date or time. -/
def withMoments? : Value → Option Value
  | .list items => (itemsWithMoments? items).map .list
  | .record [] => some (.record [])
  | .record ((key, v) :: fields) =>
    if key == momentKey then momentText? v
    else do
      let v ← withMoments? v
      return .record ((key, v) :: (← fieldsWithMoments? fields))
  | v => some v

/-- The items of a list, likewise. -/
def itemsWithMoments? : List Value → Option (List Value)
  | [] => some []
  | v :: items => do return (← withMoments? v) :: (← itemsWithMoments? items)

/-- The fields of a table, likewise, except that the first key is like any other. -/
def fieldsWithMoments? : List (String × Value) → Option (List (String × Value))
  | [] => some []
  | (key, v) :: fields => do return (key, ← withMoments? v) :: (← fieldsWithMoments? fields)

end

end GalaxyMarket.Toml
