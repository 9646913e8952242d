import GalaxyMarket.Proofs.Galaxy.Edits

/-!
# Edits that need systems

Five edits name systems that have to be there. What each of them does is one equation: the systems
it needs are looked for in a fixed order, the first that is missing is the reason for a refusal, and
if none is missing nothing else can be in the way (`Galaxy.provided`). The two edits that add jumps
have theirs beside the other facts on jumps (`Galaxy.addJump_eq`, `Galaxy.connect_eq`).
-/

namespace GalaxyMarket

namespace Galaxy

variable {α β : Type}

/-- The first of some systems that is not there. -/
def missing? (g : Galaxy α) (keys : List SystemKey) : Option SystemKey :=
  keys.find? fun key => !g.systems.contains key

/-- The result of an edit that needs some systems. -/
def provided (g : Galaxy α) (keys : List SystemKey) (result : β) : Except GalaxyError β :=
  match g.missing? keys with
  | some key => .error (.systemNotFound key)
  | none => .ok result

variable {g h : Galaxy α} {keys : List SystemKey} {key : SystemKey} {result : β}

/-- Nothing is missing if all systems are there. -/
theorem missing?_eq_none_iff :
    g.missing? keys = none ↔ ∀ key ∈ keys, g.systems.contains key = true := by
  simp [missing?]

/-- A system that is missing is one of those that are needed, and not there. -/
theorem mem_of_missing? (hmissing : g.missing? keys = some key) :
    key ∈ keys ∧ g.systems.contains key = false :=
  ⟨List.mem_of_find?_eq_some hmissing, by simpa using List.find?_some hmissing⟩

/-- What is missing depends on nothing but the systems that are there. -/
theorem missing?_congr (hcontains : ∀ key, h.systems.contains key = g.systems.contains key)
    (keys : List SystemKey) : h.missing? keys = g.missing? keys := by
  unfold missing?
  simp only [hcontains]

/-- **A refusal** names the first system that is missing. -/
theorem provided_of_missing? (hmissing : g.missing? keys = some key) :
    g.provided keys result = .error (.systemNotFound key) := by
  rw [provided, hmissing]

/-- Where all systems are there nothing is refused. -/
theorem provided_of_live (hlive : ∀ key ∈ keys, g.systems.contains key = true) :
    g.provided keys result = .ok result := by
  rw [provided, missing?_eq_none_iff.mpr hlive]

/-- What is made of a result does not change what is refused. -/
theorem map_provided {γ : Type} (f : β → γ) (keys : List SystemKey) (result : β) :
    (g.provided keys result).map f = g.provided keys (f result) := by
  unfold provided
  cases g.missing? keys <;> rfl

/-- Looking for one system and then for some others. -/
theorem provided_cons (key : SystemKey) (keys : List SystemKey) (result : β) :
    g.provided (key :: keys) result =
      if g.systems.contains key then g.provided keys result else .error (.systemNotFound key) := by
  unfold provided missing?
  rw [List.find?_cons]
  -- If the first one is there the search goes on, and if not it ends with it.
  cases g.systems.contains key <;> rfl

/-- An edit that needs no system is not refused. -/
theorem provided_nil (result : β) : g.provided [] result = .ok result := rfl

/-! ### The edits -/

/-- A system that is changed has to be there. -/
theorem updateSystem_eq (g : Galaxy α) (key : SystemKey) (f : System α → System α) :
    g.updateSystem key f =
      g.provided [key] { g with systems := g.systems.modify key f } := by
  rw [provided_cons, provided_nil]
  rfl

/-- A planet is put into a system, which has to be there, and is listed at the end of its planets.
-/
theorem addPlanet_eq (g : Galaxy α) (system : SystemKey) (planet : Planet) :
    g.addPlanet system planet =
      let (key, planets) := g.planets.insert { planet with system }
      g.provided [system] (key, { g with
        systems := g.systems.modify system fun s => { s with planets := s.planets ++ [key] }
        planets }) := by
  dsimp only
  rw [provided_cons, provided_nil]
  rfl

end Galaxy

end GalaxyMarket
