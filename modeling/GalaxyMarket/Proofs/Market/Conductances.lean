import GalaxyMarket.Proofs.Market.Readiness

/-!
# A network in double precision

A network is asked for its matrix before anything has been checked: nebulae and tunings may hold
infinities, negative numbers and what is no number at all, and jumps may lead nowhere. None of this
makes the matrix fail. Routes put in finite numbers or nothing, because a reciprocal that is not
finite counts as none (`Route.isFinite_of_mem_entries`), and what they put in lies inside, because
numbers are handed out below the size (`Galaxy.bounds_of_mem_networkEntries`). All that is left to
go wrong is the ground (`Galaxy.network_fails_by_ground`).
-/

namespace GalaxyMarket

open Scalar (recip?)

/-! ### Reciprocals of doubles -/

namespace Binary64

/-- A double has a reciprocal if that is finite. -/
theorem recip?_eq_some_iff {x y : Float} :
    recip? x = some y ↔ (1 / x).isFinite = true ∧ 1 / x = y := by
  have hrecip : recip? x = if (1 / x).isFinite = true then some (1 / x) else none := rfl
  rw [hrecip, Option.ite_none_right_eq_some, Option.some.injEq]

theorem isFinite_neg {x : Float} (h : x.isFinite = true) : (-x).isFinite = true := by
  obtain ⟨v, hv⟩ := exists_hasValue h
  -- Negation only turns the sign of what the double stands for.
  exact hv.neg.isFinite

end Binary64

/-- The ground is there exactly if the reciprocal of the self resistance is a finite positive
double. -/
theorem Config.isGrounded_iff {config : Config Float} : config.IsGrounded ↔
    (1 / config.selfResistance).isFinite = true ∧ 0 < 1 / config.selfResistance := by
  constructor
  · rintro ⟨ground, hground, hpos⟩
    obtain ⟨hfinite, rfl⟩ := Binary64.recip?_eq_some_iff.mp hground
    exact ⟨hfinite, of_decide_eq_true hpos⟩
  · rintro ⟨hfinite, hpos⟩
    exact ⟨_, Binary64.recip?_eq_some_iff.mpr ⟨hfinite, rfl⟩, decide_eq_true hpos⟩

/-! ### What a route puts in -/

namespace Route

variable {α : Type} [Scalar α]

/-- A route puts in its conductance, on one side of the zero or the other. -/
theorem value_of_mem_entries {r : Route α} {e : Entry α} (h : e ∈ r.entries) :
    ∃ c, recip? r.resistance = some c ∧ (e.value = c ∨ e.value = -c) := by
  unfold entries at h
  cases hc : recip? r.resistance with
  | none => simp [hc] at h
  | some c =>
    simp only [hc, Option.elim_some, List.mem_cons, List.not_mem_nil, or_false] at h
    refine ⟨c, rfl, ?_⟩
    -- Two entries off the diagonal and two on it.
    rcases h with rfl | rfl | rfl | rfl
    · exact Or.inr rfl
    · exact Or.inr rfl
    · exact Or.inl rfl
    · exact Or.inl rfl

/-- **Whatever its resistance**, a route puts in finite numbers only. -/
theorem isFinite_of_mem_entries {r : Route Float} {e : Entry Float} (h : e ∈ r.entries) :
    e.value.isFinite = true := by
  obtain ⟨c, hc, hvalue⟩ := value_of_mem_entries h
  obtain ⟨hfinite, rfl⟩ := Binary64.recip?_eq_some_iff.mp hc
  rcases hvalue with hvalue | hvalue
  · rwa [hvalue]
  · rw [hvalue]
    exact Binary64.isFinite_neg hfinite

/-- It puts in something if its conductance is finite. -/
theorem entries_ne_nil_iff {r : Route Float} :
    r.entries ≠ [] ↔ (1 / r.resistance).isFinite = true := by
  unfold entries
  cases hc : recip? r.resistance with
  | none =>
    have hnot : ¬(1 / r.resistance).isFinite = true := fun hfinite => by
      cases hc.symm.trans (Binary64.recip?_eq_some_iff.mpr ⟨hfinite, rfl⟩)
    exact iff_of_false (fun h => h rfl) hnot
  | some c => exact iff_of_true (List.cons_ne_nil _ _) (Binary64.recip?_eq_some_iff.mp hc).1

end Route

/-! ### What can go wrong -/

namespace Galaxy

/-- **A network fails by its ground alone**, whatever the galaxy and however odd its tuning: exactly
if the reciprocal of the self resistance is not finite or not positive, and then the self resistance
is named. The entries of routes and ground are never refused, and those of routes are finite. -/
theorem network_fails_by_ground (g : Galaxy Float) (config : Config Float) :
    ((∃ e, g.network config = .error e) ↔
      ¬((1 / config.selfResistance).isFinite = true ∧ 0 < 1 / config.selfResistance)) ∧
    (∀ e, g.network config = .error e → e = .selfResistance config.selfResistance) ∧
    (∀ ground, ∃ m, SparseMatrix.ofEntries (SystemIndex.ofGalaxy g).size
      (g.networkEntries config ground) = .ok m) ∧
    ∀ route : Route Float, (route.entries ≠ [] ↔ (1 / route.resistance).isFinite = true) ∧
      ∀ e ∈ route.entries, e.value.isFinite = true := by
  -- Routes and ground are put in without a failure, so that the check of the ground is the only one
  -- that can refuse.
  rw [← Config.isGrounded_iff]
  refine ⟨⟨?_, fun hnone => ⟨_, network_of_not_isGrounded hnone g⟩⟩, fun e he => ?_,
    fun ground => ?_, fun route => ⟨Route.entries_ne_nil_iff, fun e he => ?_⟩⟩
  · rintro ⟨e, he⟩ hground
    obtain ⟨index, m, hm⟩ := network_of_isGrounded hground g
    cases he.symm.trans hm
  · by_cases hground : config.IsGrounded
    · obtain ⟨index, m, hm⟩ := network_of_isGrounded hground g
      cases he.symm.trans hm
    · exact Except.error.inj (he.symm.trans (network_of_not_isGrounded hground g))
  · exact ⟨_, SparseMatrix.ofEntries_eq_ok_iff.mpr
      ⟨fun e he => bounds_of_mem_networkEntries he, rfl⟩⟩
  · exact Route.isFinite_of_mem_entries he

/-- Three systems in nebulae of every kind. The jumps lead home, to a system that is gone, to the
same system twice, and back. -/
def tangle : Galaxy Float where
  systems := {
    slots := #[
      ⟨1, some ⟨"Knot", ⟨0 / 0, 1⟩, some 0, [⟨⟨0, 1⟩, false, false⟩, ⟨⟨2, 1⟩, false, false⟩,
        ⟨⟨1, 1⟩, false, false⟩, ⟨⟨1, 1⟩, true, true⟩], []⟩⟩,
      ⟨1, some ⟨"Loop", ⟨1 / 0, -1⟩, some 0, [⟨⟨0, 1⟩, false, false⟩, ⟨⟨2, 3⟩, false, false⟩], []⟩⟩,
      ⟨3, some ⟨"Snarl", ⟨-30, -3⟩, none, [⟨⟨7, 1⟩, false, false⟩], []⟩⟩] }

/-- A tuning that passes no check. -/
def oddConfig : Config Float where
  baseResistance := 0 / 0
  selfResistance := 3
  factionModifier := 1 / 0
  productionVariability := -1
  demandVariability := 0 / 0
  powerBase := 0
  productionModifier := -1 / 0
  aggregation := .systemTotal

/-- The tangle has a matrix under the odd tuning, unless the self resistance is zero, negative,
infinite, no number, or so small that its reciprocal is infinite. -/
theorem network_fails_by_ground_tangle :
    (∃ index m, tangle.network oddConfig = .ok (index, m)) ∧
    ∀ r ∈ [0, -3, 1 / 0, 0 / 0, 1e-310], tangle.network { oddConfig with selfResistance := r } =
      .error (.selfResistance r) := by
  constructor
  · cases h : tangle.network oddConfig with
    | error e =>
      refine absurd ?_ ((network_fails_by_ground tangle oddConfig).1.mp ⟨e, h⟩)
      exact ⟨by decide +kernel, by decide +kernel⟩
    | ok found => exact ⟨found.1, found.2, rfl⟩
  · intro r hr
    obtain ⟨hfails, hnamed, -⟩ :=
      network_fails_by_ground tangle { oddConfig with selfResistance := r }
    obtain ⟨e, he⟩ := hfails.mpr <| by
      -- Each of these has a reciprocal that is not finite or not positive.
      simp only [List.mem_cons, List.not_mem_nil, or_false] at hr
      rcases hr with rfl | rfl | rfl | rfl | rfl <;> decide +kernel
    rw [he, hnamed e he]

end Galaxy

end GalaxyMarket
