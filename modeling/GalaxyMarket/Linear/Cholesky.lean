import GalaxyMarket.Linear.Sparse

/-!
# Sparse Cholesky factors

A symmetric positive definite matrix `A` is the product of a lower triangular matrix `L` and its
transpose. The factor is found column by column: the first column of `L` is the first column of
`A` over the square root of its pivot, and the rest is the factor of what remains of `A` once the
products of that column with itself are taken away. It exists exactly if every pivot on the way is
positive.

Only the lower triangle of the matrix is read. Where `L` may have entries, its *pattern*, is settled
first: it is the pattern of the upper triangle, read as that of a symmetric matrix, and what the
products fill in. An entry of the lower triangle whose transposed place is not stored may have no
place in the pattern. It is then set aside in its row, and the next column that has a place in that
row and nothing stored there takes it over. In a matrix whose stored places are symmetric no entry
is ever set aside.
-/

namespace GalaxyMarket.Cholesky

variable {α : Type}

/-! ### The pattern -/

/-- Ascending rows with one more among them. -/
def insertRow (row : Nat) : List Nat → List Nat
  | [] => [row]
  | first :: rows =>
    if row < first then row :: first :: rows
    else if row == first then first :: rows
    else first :: insertRow row rows

/-- The rows below the diagonal in each column of the transpose of the upper triangle. -/
def transposedUpper (m : SparseMatrix α) : Array (List Nat) :=
  collect m.dim ((m.entries.filter fun e => e.row < e.col).map fun e => (e.row, e.col))

/-- Hands the rows of a column on to the column of the first of them. Once that has been done from
left to right, each two rows of a column are a place of the pattern. -/
def spread (columns : Array (List Nat)) (col : Nat) : Array (List Nat) :=
  match columns[col]? with
  | some (first :: rows) => columns.modify first fun column => rows.foldr insertRow column
  | _ => columns

/-- The pattern of the factor, from that of the matrix. A column holds the rows below its diagonal
entry. -/
def fill (columns : Array (List Nat)) : Array (List Nat) :=
  (List.range columns.size).foldl spread columns

/-! ### The entries that the factor starts from -/

variable [Scalar α]

/-- A column of a lower triangular matrix: its diagonal entry, and below it an entry for each place
of the pattern, by ascending row. -/
structure Column (α : Type) where
  diagonal : α
  below : List (Nat × α)
  deriving Repr

/-- The columns that the factor starts from, the first of them with number `col`, from the places
below the diagonal and what is stored in each column. `aside` is what has been set aside, by row. -/
def startFrom (col : Nat) (aside : List (Nat × α)) :
    List (List Nat × List (Nat × α)) → List (Column α)
  | [] => []
  | (places, stored) :: rest =>
    -- What is stored goes before what was set aside in its row.
    let known := stored.filter (col < ·.1) ++ aside
    { diagonal := (stored.lookup col).getD 0
      below := places.map fun row => (row, (known.lookup row).getD 0) } ::
      startFrom (col + 1) (known.filter fun (row, _) => !places.contains row) rest

/-- The columns that the factor of a matrix starts from. -/
def start (m : SparseMatrix α) : List (Column α) :=
  startFrom 0 [] ((fill (transposedUpper m)).toList.zip m.columns.toList)

/-! ### The factor -/

/-- Takes the products with one entry away from the entries below it. The rows of `others` are among
those of the entries. -/
def subtract (entry : α) : (below others : List (Nat × α)) → List (Nat × α)
  | (row, value) :: below, (place, other) :: others =>
    if row == place then (row, value + other * -entry) :: subtract entry below others
    else (row, value) :: subtract entry below ((place, other) :: others)
  | below, _ => below

/-- Takes the products of a column with itself away from the columns to its right. -/
def reduce : (below : List (Nat × α)) → Array (Column α) → Array (Column α)
  | [], columns => columns
  | (row, entry) :: below, columns =>
    reduce below <| columns.modify row fun column =>
      { diagonal := column.diagonal + entry * -entry
        below := subtract entry column.below below }

/-- Turns a column into that of the factor, unless its pivot is not positive. -/
def eliminate? (columns : Array (Column α)) (col : Nat) : Option (Array (Column α)) :=
  match columns[col]? with
  | some column =>
    if Scalar.lt 0 column.diagonal then
      let root := Scalar.sqrt column.diagonal
      let below := column.below.map fun (row, entry) => (row, entry / root)
      some (reduce below (columns.setIfInBounds col { diagonal := column.diagonal / root, below }))
    else none
  | none => some columns

/-- The columns of the factor of a matrix, unless a pivot is not positive. -/
def ofMatrix? (m : SparseMatrix α) : Option (List (Column α)) :=
  ((List.range m.dim).foldlM eliminate? (start m).toArray).map Array.toList

/-! ### Solving -/

/-- Divides an entry by its pivot and takes its products away from the entries below. -/
def forwardStep (b : Array α) (column : Column α × Nat) : Array α :=
  match b[column.2]? with
  | some x =>
    let y := x / column.1.diagonal
    column.1.below.foldl (fun b (row, entry) => b.modify row (· - entry * y))
      (b.setIfInBounds column.2 y)
  | none => b

/-- Takes the products of the entries below away from an entry and divides it by its pivot. -/
def backwardStep (column : Column α × Nat) (y : Array α) : Array α :=
  match y[column.2]? with
  | some rest =>
    let rest := column.1.below.foldl (fun rest (row, entry) =>
      y[row]?.elim rest (rest - entry * ·)) rest
    y.setIfInBounds column.2 (rest / column.1.diagonal)
  | none => y

/-- Solves `L y = b` from the first row to the last. -/
def forward (factor : List (Column α)) (b : Array α) : Array α :=
  factor.zipIdx.foldl forwardStep b

/-- Solves `Lᵀ x = y` from the last row to the first. -/
def backward (factor : List (Column α)) (y : Array α) : Array α :=
  factor.zipIdx.foldr backwardStep y

/-- Solves `L Lᵀ x = b`. -/
def solve (factor : List (Column α)) (b : List α) : List α :=
  (backward factor (forward factor b.toArray)).toList

end GalaxyMarket.Cholesky
