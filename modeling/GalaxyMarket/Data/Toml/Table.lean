import GalaxyMarket.Data.Value

/-!
# Tables of TOML

A document builds a tree of tables piece by piece. Every table remembers where it comes from, since
that decides what may still be added to it:

* a *declared* table has a header of its own, or is written in braces; it is not declared again, and
  dotted keys from elsewhere do not reach into it;
* an *implied* table is there because a longer header names it, and can still be declared;
* a *dotted* table comes from a dotted key; only dotted keys add to it.

A header in double brackets adds a table to a series; a path through a series goes on in its last
table.
-/

namespace GalaxyMarket.Toml

/-- Where a table comes from. -/
inductive Origin where
  | declared
  | implied
  | dotted
  deriving DecidableEq, Repr

/-- What stands under a key. -/
inductive Item where
  | leaf (value : Value)
  | table (origin : Origin) (entries : List (String × Item))
  | series (tables : List (List (String × Item)))

/-- The keys of a table and what stands under them, in order. -/
abbrev Entries := List (String × Item)

/-! ### Values of tables -/

mutual

/-- The value that an item stands for. -/
def Item.value : Item → Value
  | .leaf v => v
  | .table _ entries => .record (fields entries)
  | .series tables => .list (records tables)

/-- The fields that the entries of a table stand for. -/
def fields : List (String × Item) → List (String × Value)
  | [] => []
  | (key, item) :: entries => (key, item.value) :: fields entries

/-- The records that the tables of a series stand for. -/
def records : List (List (String × Item)) → List Value
  | [] => []
  | entries :: tables => .record (fields entries) :: records tables

end

/-! ### Edits -/

/-- A table in the middle of an edit. -/
structure Place where
  origin : Origin
  entries : Entries

/-- Puts an item under a key, in place of the one that was there. -/
def put (entries : Entries) (key : String) (item : Item) : Entries :=
  if entries.any (·.1 == key) then
    entries.map fun entry => if entry.1 == key then (key, item) else entry
  else entries ++ [(key, item)]

/-- Edits the table at the end of a path. Tables that are missing on the way are made, with the
given origin; a path of dotted keys does not enter a declared table. -/
def edit (made : Origin) (f : Place → Option Place) : List String → Place → Option Place
  | [], place => f place
  | key :: path, place =>
    match place.entries.lookup key with
    | none => do
      let inner ← edit made f path ⟨made, []⟩
      return { place with entries := put place.entries key (.table inner.origin inner.entries) }
    | some (.leaf _) => none
    | some (.table origin entries) =>
      if made == .dotted && origin == .declared then none
      else do
        let inner ← edit made f path ⟨origin, entries⟩
        return { place with entries := put place.entries key (.table inner.origin inner.entries) }
    | some (.series tables) => do
      let last ← tables.getLast?
      let inner ← edit made f path ⟨.declared, last⟩
      return { place with
        entries := put place.entries key (.series (tables.dropLast ++ [inner.entries])) }

/-- Declares the table under a key. One that has been implied keeps its entries and moves behind the
others. -/
def declare (key : String) (place : Place) : Option Place :=
  match place.entries.lookup key with
  | none => some { place with entries := put place.entries key (.table .declared []) }
  | some (.table .implied entries) =>
    let others := place.entries.filter (·.1 != key)
    some { place with entries := others ++ [(key, .table .declared entries)] }
  | some _ => none

/-- Adds a table to the series under a key. -/
def extend (key : String) (place : Place) : Option Place :=
  match place.entries.lookup key with
  | none => some { place with entries := put place.entries key (.series [[]]) }
  | some (.series tables) =>
    some { place with entries := put place.entries key (.series (tables ++ [[]])) }
  | some _ => none

/-- Sets a key that is new, at the end of a dotted path. -/
def assign (path : List String) (key : String) (value : Value) : Place → Option Place :=
  edit .dotted (fun place =>
    -- A dotted key ends in a dotted table, and a plain key in the table of its header.
    if (place.origin == .dotted) == path.isEmpty || place.entries.any (·.1 == key) then none
    else some { place with entries := place.entries ++ [(key, .leaf value)] }) path

end GalaxyMarket.Toml
