import GalaxyMarket.Market.Pricing

/-!
# Multipliers

Rescaling potentials gives one multiplier for each, unless there is none at all. A multiplier is one
half, or a number that was cut to the interval from 0 to 1.
-/

namespace GalaxyMarket

variable {α : Type} [Scalar α]

/-- What a multiplier can be. -/
def IsMultiplier (x : α) : Prop := x = 0.5 ∨ ∃ y, x = Scalar.clamp 0 1 y

/-- A number that is cut to the interval from 0 to 1 becomes one of its ends or lies inside. -/
theorem clamp_cases (x : α) : Scalar.clamp 0 1 x = 0 ∨ Scalar.clamp 0 1 x = 1 ∨
    Scalar.lt x 0 = false ∧ Scalar.lt 1 x = false ∧ Scalar.clamp 0 1 x = x := by
  unfold Scalar.clamp
  cases hlow : Scalar.lt x 0 with
  | true =>
    -- With any sort of numbers the two ends could be the wrong way round.
    cases hends : Scalar.lt (1 : α) 0 with
    | true => exact Or.inr (Or.inl (if_pos hends))
    | false => exact Or.inl (if_neg (Bool.eq_false_iff.mp hends))
  | false =>
    cases hhigh : Scalar.lt 1 x with
    | true => exact Or.inr (Or.inl (if_pos hhigh))
    | false => exact Or.inr (Or.inr ⟨rfl, rfl, if_neg (Bool.eq_false_iff.mp hhigh)⟩)

variable {potentials : List α} {multipliers : Multipliers α}

/-- There are two ways to rescale potentials. -/
theorem normalize?_cases (h : potentials ≠ []) :
    normalize? potentials = some (.flat potentials) ∨
      ∃ lo hi, normalize? potentials = some
        { least := 0, greatest := 1
          values := potentials.map fun x => Scalar.clamp 0 1 ((x - lo) / (hi - lo)) } := by
  unfold normalize?
  rw [if_neg (by simpa using h)]
  cases extent? potentials with
  | none => exact Or.inl rfl
  | some range =>
    obtain ⟨lo, hi⟩ := range
    dsimp only
    split
    · exact Or.inl rfl
    · exact Or.inr ⟨lo, hi, rfl⟩

/-- Only an empty list of potentials has no multipliers. -/
theorem exists_normalize? (h : potentials ≠ []) :
    ∃ multipliers, normalize? potentials = some multipliers := by
  rcases normalize?_cases h with hflat | ⟨lo, hi, hrange⟩
  · exact ⟨_, hflat⟩
  · exact ⟨_, hrange⟩

/-- **Rescaled potentials** are as many as before, and each is a multiplier. -/
theorem values_normalize? (h : normalize? potentials = some multipliers) :
    multipliers.values.length = potentials.length ∧ ∀ x ∈ multipliers.values, IsMultiplier x := by
  have hne : potentials ≠ [] := by
    rintro rfl
    cases h
  rcases normalize?_cases hne with hflat | ⟨lo, hi, hrange⟩
  · obtain rfl := Option.some.inj (hflat.symm.trans h)
    refine ⟨List.length_map _, fun x hx => ?_⟩
    obtain ⟨_, -, rfl⟩ := List.mem_map.mp hx
    exact Or.inl rfl
  · obtain rfl := Option.some.inj (hrange.symm.trans h)
    refine ⟨List.length_map _, fun x hx => ?_⟩
    obtain ⟨y, -, rfl⟩ := List.mem_map.mp hx
    exact Or.inr ⟨_, rfl⟩

end GalaxyMarket
