import GalaxyMarket.Number.Scalar

/-!
# Vectors

Vectors are lists of numbers. Sums of products run in eight interleaved lanes, which are joined in
pairs at the end; whatever is left over from the last full block of eight is added one by one. Over
exact numbers the lanes make no difference to the sum.
-/

namespace GalaxyMarket.Vector

variable {α : Type} [Scalar α]

/-- Adds the numbers of `xs` to the eight lanes `a` to `h`, then the lanes to each other. -/
def laneSum : List α → (a b c d e f g h : α) → α
  | x₁ :: x₂ :: x₃ :: x₄ :: x₅ :: x₆ :: x₇ :: x₈ :: xs, a, b, c, d, e, f, g, h =>
    laneSum xs (a + x₁) (b + x₂) (c + x₃) (d + x₄) (e + x₅) (f + x₆) (g + x₇) (h + x₈)
  | xs, a, b, c, d, e, f, g, h =>
    xs.foldl (· + ·) (0 + (a + e) + (b + f) + (c + g) + (d + h))

/-- The inner product of two vectors. -/
def dot (x y : List α) : α := laneSum (x.zipWith (· * ·) y) 0 0 0 0 0 0 0 0

/-- The square of a vector's length. -/
def normSq (x : List α) : α := dot x x

/-- The length of a vector. -/
def norm (x : List α) : α := Scalar.sqrt (normSq x)

/-- `a * x + y`. -/
def addScaled (a : α) (x y : List α) : List α := x.zipWith (fun x y => a * x + y) y

/-- Whether every entry is finite. -/
def isFinite (x : List α) : Bool := x.all Scalar.isFinite

end GalaxyMarket.Vector
