import GalaxyMarket.Linear.Sparse

/-!
# Conjugate gradients

Solves `A x = b` for a symmetric positive definite matrix by products with it alone. The search
starts at zero and goes along directions that are conjugate with respect to `A`; a step is refused
when the matrix is not positive along its direction. Over exact numbers the search ends after at
most as many steps as the matrix has rows.
-/

namespace GalaxyMarket.ConjugateGradient

variable {α : Type} [Scalar α]

/-- How long the search goes on. -/
structure Settings (α : Type) where
  /-- The residual at which it ends, relative to the right-hand side. -/
  tolerance : α
  /-- The number of steps after which it is given up, unless the matrix has more rows. -/
  maxSteps : Nat
  deriving Repr

instance : Inhabited (Settings α) := ⟨{ tolerance := 1e-10, maxSteps := 1000 }⟩

/-- Why the search failed. -/
inductive Failure where
  /-- The matrix is not positive along a direction. -/
  | notPositive
  /-- The steps were used up. -/
  | notConverged (steps : Nat)
  deriving DecidableEq, Repr

/-- A point of the search, what is left of the right-hand side there, the direction to go, and the
square of the length of what is left. -/
structure Point (α : Type) where
  x : List α
  residual : List α
  direction : List α
  residualSq : α
  deriving Repr

/-- The point at which the search starts. -/
def Point.start (b : List α) : Point α :=
  { x := b.map fun _ => 0, residual := b, direction := b, residualSq := Vector.normSq b }

/-- The point that is best along the direction of a point. Its direction is still that of the point
before. -/
def Point.advance? (m : SparseMatrix α) (p : Point α) : Option (Point α) :=
  let image := m.mulVec p.direction
  let curvature := Vector.dot p.direction image
  if Scalar.isFinite curvature && Scalar.lt 0 curvature then
    let step := p.residualSq / curvature
    let residual := Vector.addScaled (-step) image p.residual
    some { p with
      x := Vector.addScaled step p.direction p.x
      residual
      residualSq := Vector.normSq residual }
  else none

/-- Turns the direction of `next`, which was reached from `p`, to the next conjugate one. -/
def Point.turn (p next : Point α) : Point α :=
  { next with
    direction :=
      Vector.addScaled (next.residualSq / p.residualSq) next.direction next.residual }

/-- Searches for at most `fuel` steps until the length of the residual is at most `goal`. -/
def search (m : SparseMatrix α) (goal : α) (steps : Nat) :
    Nat → Point α → Except Failure (List α)
  | 0, _ => .error (.notConverged steps)
  | fuel + 1, p =>
    match p.advance? m with
    | none => .error .notPositive
    | some next =>
      if Scalar.le (Scalar.sqrt next.residualSq) goal then .ok next.x
      else search m goal steps fuel (p.turn next)

/-- Solves `A x = b`. A right-hand side of length zero has the solution zero. -/
def solve (settings : Settings α) (m : SparseMatrix α) (b : List α) : Except Failure (List α) :=
  let norm := Vector.norm b
  if Scalar.le norm 0 then .ok (b.map fun _ => 0)
  else
    -- As many steps as there are rows may be needed.
    let steps := max settings.maxSteps b.length
    search m (settings.tolerance * norm) steps steps (.start b)

end GalaxyMarket.ConjugateGradient
