import GalaxyMarket.Linear.Solver
import GalaxyMarket.Number.Binary64
import GalaxyMarket.Proofs.Linear.Lengths

/-!
# A solve writes last

A solve in a buffer can fail before it looks at the matrix, in any pass of a search, or because of
what it has found. Wherever that is, it has not written by then: each part of `InPlace.solve` is
brought into the form `InPlace.commit`, which decides everything first and then writes once or not
at all. In this form it is the solve that returns a new vector, `Prepared.solve`, followed by a
single write (`Prepared.solveInto_eq`).
-/

namespace GalaxyMarket

namespace InPlace

variable {α : Type}

/-- Writes an answer over the buffer. A refusal leaves it alone. -/
def commit : Except SolveError (List α) → InPlace α Unit
  | .ok x => set x
  | .error e => throw e

section Bind

variable {β γ : Type} {x : InPlace α β} {f : β → InPlace α γ} {b b' : List α}

/-- A program goes on where its first part came to an end, -/
theorem run_bind_of_ok {value : β} (h : x.run b = .ok value b') :
    (x >>= f).run b = (f value).run b' := by
  change EStateM.bind x f b = _
  rw [EStateM.bind, show x b = _ from h]
  rfl

/-- or stops with it, in the buffer that it left. -/
theorem run_bind_of_error {e : SolveError} (h : x.run b = .error e b') :
    (x >>= f).run b = .error e b' := by
  change EStateM.bind x f b = _
  rw [EStateM.bind, show x b = _ from h]

end Bind

/-- Neither the check of the length -/
theorem run_requireLength (expected : ℕ) (b : List α) :
    (requireLength expected).run b =
      if b.length != expected then .error (.dimensionMismatch expected b.length) b
      else .ok () b := by
  refine (run_bind_of_ok rfl).trans ?_
  split <;> rfl

variable [Scalar α]

/-- nor that for finite numbers writes anything. -/
theorem run_requireFinite (side : Side) (x b : List α) :
    (requireFinite side x).run b = if !Vector.isFinite x then .error (.nonFinite side) b
      else .ok () b := by
  rw [requireFinite]
  cases Vector.isFinite x <;> rfl

/-- The answer to what either method has found. -/
def answer : Except Obstacle (List α) → Except SolveError (List α)
  | .error obstacle => .error (.notFactorized obstacle)
  | .ok x => if Vector.isFinite x then .ok x else .error (.nonFinite .solution)

/-- A vector is written if all of it is finite. -/
theorem write_eq (x : List α) : write x = commit (answer (.ok x)) := by
  rw [write, requireFinite, answer]
  split <;> rfl

/-- **A search writes last**: no pass of it does, and the last one after the final look. -/
theorem search_eq (m : SparseMatrix α) (goal : α) (steps fuel : ℕ) (p : ConjugateGradient.Point α) :
    search m goal steps fuel p =
      commit (answer ((ConjugateGradient.search m goal steps fuel p).mapError .search)) := by
  -- Each pass ends the search or hands on to the next, without having written.
  induction fuel generalizing p with
  | zero => rfl
  | succ fuel ih =>
    rw [search, ConjugateGradient.search]
    cases p.advance? m with
    | none => rfl
    | some next =>
      dsimp only
      split
      · exact write_eq next.x
      · exact ih (p.turn next)

/-- A vector of zeros is finite. -/
theorem answer_zeros (hzero : Scalar.isFinite (0 : α) = true) (b : List α) :
    answer (.ok (b.map fun _ => (0 : α))) = .ok (b.map fun _ => 0) := by
  refine if_pos (List.all_eq_true.mpr fun x hx => ?_)
  obtain ⟨_, -, rfl⟩ := List.mem_map.mp hx
  exact hzero

/-- Conjugate gradients write once, whether or not there is anything to search for. -/
theorem conjugateGradient_eq (hzero : Scalar.isFinite (0 : α) = true)
    (settings : ConjugateGradient.Settings α) (m : SparseMatrix α) (b : List α) :
    conjugateGradient settings m b =
      commit (answer ((ConjugateGradient.solve settings m b).mapError .search)) := by
  rw [conjugateGradient, ConjugateGradient.solve]
  dsimp only
  split
  · exact congrArg commit (answer_zeros hzero b).symm
  · exact search_eq ..

/-- **Solving in place is solving and then writing**, by either method. -/
theorem run_solve (hzero : Scalar.isFinite (0 : α) = true) (p : Prepared α) (b : List α) :
    (solve p).run b = (commit (p.solve b)).run b := by
  have hdim := run_requireLength p.dim b
  rw [solve, Prepared.solve]
  split at hdim
  · next hlength => rw [run_bind_of_error hdim, if_pos hlength]; rfl
  next hlength =>
  -- The right-hand side is read from the buffer before anything can be written to it.
  have hread : (get : InPlace α (List α)).run b = .ok b b := rfl
  rw [run_bind_of_ok hdim, run_bind_of_ok hread, if_neg hlength]
  have hfinite := run_requireFinite .rightHandSide b b
  split at hfinite
  · next hside => rw [run_bind_of_error hfinite, if_pos hside]; rfl
  next hside =>
  rw [run_bind_of_ok hfinite, if_neg hside]
  -- Past both refusals the methods part.
  cases p with
  | factored dim factor? =>
    cases factor? with
    | none => rfl
    | some factor => exact congrArg (EStateM.run · b) (write_eq _)
  | iterative settings m => exact congrArg (EStateM.run · b) (conjugateGradient_eq hzero ..)

end InPlace

namespace Prepared

variable {α : Type} [Scalar α]

/-- What a solve leaves in its buffer: the answer, or what was there. -/
theorem solveInto_eq (hzero : Scalar.isFinite (0 : α) = true) (p : Prepared α) (b : List α) :
    p.solveInto b = match p.solve b with
      | .ok x => (x, none)
      | .error e => (b, some e) := by
  rw [solveInto, InPlace.run_solve hzero]
  cases p.solve b <;> rfl

/-- **Nothing half solved is left behind**, whatever was prepared and whatever stands in the buffer:
a solve that fails leaves the buffer as it was, and one that succeeds leaves a vector of the same
length, all of it finite. -/
theorem solveInto_all_or_nothing (p : Prepared Float) (buffer : List Float) :
    match p.solveInto buffer with
    | (after, some _) => after = buffer
    | (after, none) =>
      after.length = buffer.length ∧ ∀ value ∈ after, Scalar.isFinite value = true := by
  rw [solveInto_eq (by decide)]
  cases hsolve : p.solve buffer with
  | error e => rfl
  | ok x =>
    obtain ⟨-, -, -, hfinite⟩ := solve_eq_ok_iff.mp hsolve
    exact ⟨length_of_solve hsolve, List.all_eq_true.mp hfinite⟩

/-- An indefinite matrix has no factor. Conjugate gradients find it out in their second pass. -/
example :
    let m : SparseMatrix Float := ⟨2, [⟨0, 0, 1⟩, ⟨1, 1, -1⟩]⟩
    ((Solver.cholesky.prepare m).solveInto [3, 1],
      ((Solver.conjugateGradient default).prepare m).solveInto [3, 1]) =
    (([3, 1], some (.notFactorized .pivot)),
      ([3, 1], some (.notFactorized (.search .notPositive)))) := by
  decide +kernel

end Prepared

end GalaxyMarket
