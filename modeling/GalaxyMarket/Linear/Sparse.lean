import GalaxyMarket.Linear.Vector

/-!
# Sparse square matrices

A matrix is kept as the list of its stored entries, column by column and in each column from top to
bottom. It is made from entries in any order; entries at one place are added up, in the order in
which they come. A stored entry may be zero: what is stored is a matter of what was put in and not
of its value.
-/

namespace GalaxyMarket

/-- A number at a row and a column. -/
structure Entry (α : Type) where
  row : Nat
  col : Nat
  value : α
  deriving Repr

namespace Entry

variable {α : Type}

/-- Whether an entry may stand in front of another: its column comes first, or they share the column
and it is not further down. -/
def precedes (a b : Entry α) : Bool := a.col < b.col || (a.col == b.col && a.row ≤ b.row)

/-- Whether two entries stand at one place. -/
def samePlace (a b : Entry α) : Bool := a.row == b.row && a.col == b.col

/-- The sum of some entries at one place, from the first on; none of no entries. -/
def sum? [Scalar α] : List (Entry α) → Option (Entry α)
  | [] => none
  | e :: es => some { e with value := es.foldl (· + ·.value) e.value }

end Entry

/-- A square matrix, by its stored entries. -/
structure SparseMatrix (α : Type) where
  dim : Nat := 0
  entries : List (Entry α) := []
  deriving Repr

/-- The items under each number below `count`, in order. -/
def collect {β : Type} (count : Nat) (items : List (Nat × β)) : Array (List β) :=
  items.foldr (fun (i, x) lists => lists.modify i (x :: ·)) (Array.replicate count [])

namespace SparseMatrix

variable {α : Type}

instance : Inhabited (SparseMatrix α) := ⟨{}⟩

/-- The number of stored entries. -/
def size (m : SparseMatrix α) : Nat := m.entries.length

/-- The entry at a place, if one is stored. -/
def get? (m : SparseMatrix α) (row col : Nat) : Option α :=
  (m.entries.find? fun e => e.row == row && e.col == col).map Entry.value

/-- The stored rows of each column, with their values, from top to bottom. -/
def columns (m : SparseMatrix α) : Array (List (Nat × α)) :=
  collect m.dim (m.entries.map fun e => (e.col, e.row, e.value))

variable [Scalar α]

/-- The value at a place, zero where nothing is stored. -/
def get (m : SparseMatrix α) (row col : Nat) : α := (m.get? row col).getD 0

/-- The matrix of some entries. The first entry outside the matrix is refused. -/
def ofEntries (dim : Nat) (entries : List (Entry α)) : Except (Entry α) (SparseMatrix α) :=
  match entries.find? fun e => dim ≤ e.row || dim ≤ e.col with
  | some outside => .error outside
  | none =>
    -- Sorting keeps the order of entries at one place.
    let places := (entries.mergeSort Entry.precedes).splitBy Entry.samePlace
    .ok { dim, entries := places.filterMap Entry.sum? }

/-- The product with a vector. Each entry of it is added up by ascending column. -/
def mulVec (m : SparseMatrix α) (x : List α) : List α :=
  let x := x.toArray
  let terms := m.entries.filterMap fun e => x[e.col]?.map fun x => (e.row, e.value * x)
  (collect m.dim terms).toList.map Scalar.sum

end SparseMatrix

end GalaxyMarket
