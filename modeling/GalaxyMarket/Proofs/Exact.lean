import Mathlib
import GalaxyMarket.Linear.Vector

/-!
# Exact arithmetic

The instance of `Scalar` for the real numbers, on which the rules of the market are exact. Nothing
overflows there and every comparison is decided, so that only the reciprocal of zero is missing; the
tests for finite numbers always succeed.

What the rules are built from then is what it is taken to be: `Scalar.sum` is the sum of a list
(`Scalar.sum_eq`), and the eight lanes of `Vector.dot` make no difference to the inner product
(`Vector.dot_eq`). Vectors of length `n` are read as functions on `Fin n` by `Vector.coords`, which
turns the operations on lists into those of linear algebra.
-/

namespace GalaxyMarket

/-- The whole number nearest to a real one, a half going away from zero. -/
noncomputable def nearestWhole (x : ℝ) : ℤ := if 0 ≤ x then ⌊x + 1 / 2⌋ else -⌊-x + 1 / 2⌋

/-- Exact arithmetic. -/
noncomputable instance : Scalar ℝ where
  ofInt n := n
  lt a b := decide (a < b)
  le a b := decide (a ≤ b)
  isFinite _ := true
  recip? x := if x = 0 then none else some x⁻¹
  sqrt := Real.sqrt
  pow base exponent := base ^ exponent
  wholeProduct n x := nearestWhole (n * x)

namespace Scalar

@[simp] theorem ofInt_eq (n : ℤ) : (ofInt n : ℝ) = n := rfl

@[simp] theorem lt_eq (a b : ℝ) : lt a b = decide (a < b) := rfl

@[simp] theorem le_eq (a b : ℝ) : le a b = decide (a ≤ b) := rfl

@[simp] theorem isFinite_eq (a : ℝ) : isFinite a = true := rfl

@[simp] theorem sqrt_eq (a : ℝ) : sqrt a = Real.sqrt a := rfl

/-- Only zero has no reciprocal. -/
theorem recip?_eq (a : ℝ) : recip? a = if a = 0 then none else some a⁻¹ := rfl

/-- Every other number has one. -/
theorem recip?_of_ne_zero {a : ℝ} (h : a ≠ 0) : recip? a = some a⁻¹ := if_neg h

@[simp] theorem recip?_zero : recip? (0 : ℝ) = none := if_pos rfl

/-- What a reciprocal is the reciprocal of. -/
theorem recip?_eq_some_iff {a c : ℝ} : recip? a = some c ↔ a ≠ 0 ∧ a⁻¹ = c := by
  rw [recip?_eq, Option.ite_none_left_eq_some, Option.some.injEq]

instance : Std.Commutative fun a b : ℝ => a + b := ⟨add_comm⟩

instance : Std.Associative fun a b : ℝ => a + b := ⟨add_assoc⟩

/-- Adding up from a start is adding the sum to it. -/
theorem foldl_add_eq (xs : List ℝ) (a : ℝ) : xs.foldl (· + ·) a = a + xs.sum := by
  induction xs generalizing a with
  | nil => simp
  -- What was added so far is the start for the rest.
  | cons x xs ih => rw [List.foldl_cons, ih, List.sum_cons, add_assoc]

@[simp] theorem sum_eq (xs : List ℝ) : sum xs = xs.sum := (foldl_add_eq xs 0).trans (zero_add _)

end Scalar

namespace Vector

/-- The lanes and the numbers that are still to be added to them make up the sum. -/
theorem laneSum_eq (xs : List ℝ) (a b c d e f g h : ℝ) :
    laneSum xs a b c d e f g h = a + b + c + d + e + f + g + h + xs.sum := by
  fun_induction laneSum xs a b c d e f g h with
  -- Eight more numbers go into the eight lanes.
  | case1 a b c d e f g h x₁ x₂ x₃ x₄ x₅ x₆ x₇ x₈ xs ih =>
    rw [ih]
    simp only [List.sum_cons]
    ring
  -- The lanes are joined, and fewer than eight numbers are left.
  | case2 xs a b c d e f g h =>
    rw [Scalar.foldl_add_eq]
    ring

/-- **The inner product** is the sum of the products. -/
theorem dot_eq (x y : List ℝ) : dot x y = (x.zipWith (· * ·) y).sum := by
  rw [dot, laneSum_eq]
  ring

@[simp] theorem isFinite_eq (x : List ℝ) : isFinite x = true :=
  List.all_eq_true.mpr fun _ _ => rfl

/-! ### Coordinates -/

/-- The coordinates of a vector of length `n`. -/
def coords (n : ℕ) (x : List ℝ) : Fin n → ℝ := fun i => x.getD i 0

/-- Vectors of one length are told apart by their coordinates. -/
theorem coords_inj {n : ℕ} {x y : List ℝ} (hx : x.length = n) (hy : y.length = n) :
    coords n x = coords n y ↔ x = y := by
  refine ⟨fun h => List.ext_getElem (hx.trans hy.symm) fun i hi hi' => ?_, fun h => by rw [h]⟩
  have := congrFun h ⟨i, hx ▸ hi⟩
  simpa [coords, hi, hi'] using this

end Vector

end GalaxyMarket
