import Mathlib
import GalaxyMarket.Market.Config
import GalaxyMarket.Proofs.Exact

/-!
# Which tunings are accepted

Over exact numbers, where everything is finite, `Config.validate` accepts a tuning exactly if its
resistances and its production modifier are positive, its variabilities not negative, and its power
base exceeds one (`Config.validate_eq_ok_iff`).
-/

namespace GalaxyMarket.Config

variable {config : Config ℝ}

/-- Over exact numbers every number is finite, so that a check is a comparison. -/
theorem checkPositive_eq (field : String) (value : ℝ) : checkPositive field value =
    if 0 < value then .ok () else .error (.notPositive field value) := by
  simp [checkPositive]

theorem checkNonnegative_eq (field : String) (value : ℝ) : checkNonnegative field value =
    if 0 ≤ value then .ok () else .error (.negative field value) := by
  simp [checkNonnegative]

/-- A check that comes first lets through what passes it. -/
theorem check_bind_eq_ok_iff {ε : Type} {p : Prop} [Decidable p] {e : ε} {rest : Except ε Unit} :
    ((if p then .ok () else .error e : Except ε Unit) >>= fun _ => rest) = .ok () ↔
      p ∧ rest = .ok () := by
  by_cases h : p
  · rw [if_pos h, and_iff_right h]
    rfl
  · rw [if_neg h]
    exact iff_of_false (fun h' => nomatch h') fun h' => h h'.1

/-- **The accepted tunings.** -/
theorem validate_eq_ok_iff : config.validate = .ok () ↔
    0 < config.baseResistance ∧ 0 < config.selfResistance ∧ 0 < config.productionModifier ∧
      0 ≤ config.productionVariability ∧ 0 ≤ config.demandVariability ∧ 1 < config.powerBase := by
  rw [validate]
  -- The checks stand one after the other; each of them has to let through.
  simp only [checkPositive_eq, checkNonnegative_eq, check_bind_eq_ok_iff]
  simp

end GalaxyMarket.Config
