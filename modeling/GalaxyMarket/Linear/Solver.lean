import GalaxyMarket.Linear.Cholesky
import GalaxyMarket.Linear.ConjugateGradient

/-!
# Linear solvers

A matrix is prepared once and then solved for many right-hand sides. There are two methods: a
Cholesky factor, and conjugate gradients on the matrix itself. A matrix that cannot be factored is
accepted all the same; each later solve reports it.

Both methods refuse a right-hand side of the wrong length or with an entry that is not finite, in
this order, and a solution that is not finite.

The solution may also be written over the right-hand side (`Prepared.solveInto`). What stands for
this is the order in which a solve reads and writes such a buffer: nothing is undone when it fails,
so that a write in front of a refusal would be seen. The buffer is read once at the beginning. The
search works on vectors of its own, and the buffer is written when it is over.
-/

namespace GalaxyMarket

/-- A way to solve linear systems. -/
inductive Solver (α : Type) where
  | cholesky
  | conjugateGradient (settings : ConjugateGradient.Settings α)
  deriving Repr

/-- A matrix that is ready to be solved. -/
inductive Prepared (α : Type) where
  /-- The factor, if the matrix has one. -/
  | factored (dim : Nat) (factor? : Option (List (Cholesky.Column α)))
  | iterative (settings : ConjugateGradient.Settings α) (matrix : SparseMatrix α)
  deriving Repr

/-- Where a value is not finite. -/
inductive Side where
  | rightHandSide
  | solution
  deriving DecidableEq, Repr

/-- Why a matrix has no factor to solve with. -/
inductive Obstacle where
  /-- A pivot is not positive. -/
  | pivot
  | search (failure : ConjugateGradient.Failure)
  deriving DecidableEq, Repr

/-- Why a system was not solved. -/
inductive SolveError where
  | dimensionMismatch (expected actual : Nat)
  | notFactorized (obstacle : Obstacle)
  | nonFinite (side : Side)
  deriving DecidableEq, Repr

/-- The wording of an obstacle. -/
def Obstacle.message : Obstacle → String
  | pivot => "NotPositiveDefinite"
  | search .notPositive => "matrix is not positive definite"
  | search (.notConverged steps) =>
    s!"conjugate gradient did not converge in {steps} iterations"

/-- The wording of a side. -/
def Side.name : Side → String
  | rightHandSide => "right-hand side"
  | solution => "solution"

/-- The wording of an error. -/
def SolveError.message : SolveError → String
  | dimensionMismatch expected actual =>
    s!"right-hand side has length {actual}, expected {expected}"
  | notFactorized obstacle => s!"matrix was not factorized: {obstacle.message}"
  | nonFinite side => s!"non-finite value in {side.name}"

namespace Solver

variable {α : Type} [Scalar α]

/-- Prepares a matrix for repeated solves. -/
def prepare (solver : Solver α) (m : SparseMatrix α) : Prepared α :=
  match solver with
  | cholesky => .factored m.dim (Cholesky.ofMatrix? m)
  | conjugateGradient settings => .iterative settings m

end Solver

namespace Prepared

variable {α : Type}

/-- The number of rows. -/
def dim : Prepared α → Nat
  | factored dim _ => dim
  | iterative _ m => m.dim

/-- Whether there is something to solve with. -/
def isFactorized : Prepared α → Bool
  | factored _ factor? => factor?.isSome
  | iterative .. => true

/-- A short description of a prepared matrix. -/
def describe : Prepared α → String
  | factored dim factor? => s!"CholeskyFactor \x7b dim: {dim}, factorized: {factor?.isSome} \x7d"
  | iterative _ m => s!"ConjugateGradient \x7b dim: {m.dim}, entries: {m.size} \x7d"

variable [Scalar α]

/-- The solution of either method, finite or not. -/
def candidate (p : Prepared α) (b : List α) : Except Obstacle (List α) :=
  match p with
  | factored _ (some factor) => .ok (Cholesky.solve factor b)
  | factored _ none => .error .pivot
  | iterative settings m => (ConjugateGradient.solve settings m b).mapError .search

/-- Solves for a right-hand side. -/
def solve (p : Prepared α) (b : List α) : Except SolveError (List α) :=
  if b.length != p.dim then .error (.dimensionMismatch p.dim b.length)
  else if !Vector.isFinite b then .error (.nonFinite .rightHandSide)
  else
    match p.candidate b with
    | .error obstacle => .error (.notFactorized obstacle)
    | .ok x => if Vector.isFinite x then .ok x else .error (.nonFinite .solution)

end Prepared

/-! ### Solving in place -/

/-- A procedure that works in a buffer. Where it fails, what it has written stays written. -/
abbrev InPlace (α : Type) := EStateM SolveError (List α)

namespace InPlace

variable {α : Type} [Scalar α]

/-- Refuses a buffer of another length. -/
def requireLength (expected : Nat) : InPlace α Unit := do
  let buffer ← get
  if buffer.length != expected then throw (.dimensionMismatch expected buffer.length)

/-- Refuses a vector with an entry that is not finite. -/
def requireFinite (side : Side) (x : List α) : InPlace α Unit :=
  if Vector.isFinite x then pure () else throw (.nonFinite side)

/-- Writes a solution over the buffer, if it is finite. -/
def write (x : List α) : InPlace α Unit := do
  requireFinite .solution x
  set x

/-- The search of `ConjugateGradient.search`, which writes what it finds. -/
def search (m : SparseMatrix α) (goal : α) (steps : Nat) :
    Nat → ConjugateGradient.Point α → InPlace α Unit
  | 0, _ => throw (.notFactorized (.search (.notConverged steps)))
  | fuel + 1, p =>
    match p.advance? m with
    | none => throw (.notFactorized (.search .notPositive))
    | some next =>
      if Scalar.le (Scalar.sqrt next.residualSq) goal then write next.x
      else search m goal steps fuel (p.turn next)

/-- Solves by conjugate gradients. Zeros are written without another look at them. -/
def conjugateGradient (settings : ConjugateGradient.Settings α) (m : SparseMatrix α) (b : List α) :
    InPlace α Unit :=
  let norm := Vector.norm b
  if Scalar.le norm 0 then set (b.map fun _ => (0 : α))
  else
    let steps := max settings.maxSteps b.length
    search m (settings.tolerance * norm) steps steps (.start b)

/-- Solves by either method. -/
def solve (p : Prepared α) : InPlace α Unit := do
  requireLength p.dim
  let b ← get
  requireFinite .rightHandSide b
  match p with
  | .factored _ none => throw (.notFactorized .pivot)
  | .factored _ (some factor) => write (Cholesky.solve factor b)
  | .iterative settings m => conjugateGradient settings m b

end InPlace

/-- Solves in a buffer that holds the right-hand side: the buffer afterwards, and why the solve
failed if it did. -/
def Prepared.solveInto {α : Type} [Scalar α] (p : Prepared α) (buffer : List α) :
    List α × Option SolveError :=
  match (InPlace.solve p).run buffer with
  | .ok _ buffer => (buffer, none)
  | .error e buffer => (buffer, some e)

end GalaxyMarket
