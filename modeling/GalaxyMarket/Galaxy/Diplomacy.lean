/-!
# Diplomacy

How factions stand to each other: a map from unordered pairs of factions to their standing, where
the last word on a pair counts and pairs that were never mentioned are neutral. A faction is its own
ally, whatever was said.
-/

namespace GalaxyMarket

/-- How two factions stand to each other. -/
inductive Standing where
  | neutral
  | allied
  | hostile
  deriving DecidableEq, Repr

/-- The standings of all pairs of factions. -/
structure Diplomacy where
  /-- What was said of which pair, the lower faction in front, the latest first. -/
  words : List ((Nat × Nat) × Standing) := []
  deriving Repr

namespace Diplomacy

/-- An unordered pair of factions, the lower one in front. -/
def pair (a b : Nat) : Nat × Nat := if a ≤ b then (a, b) else (b, a)

/-- Sets the standing of a pair. -/
def declare (d : Diplomacy) (a b : Nat) (standing : Standing) : Diplomacy :=
  ⟨(pair a b, standing) :: d.words.filter fun word => word.1 != pair a b⟩

/-- What was said last of a pair. -/
def word (d : Diplomacy) (a b : Nat) : Standing := (d.words.lookup (pair a b)).getD .neutral

/-- Whether two factions are allies. -/
def allies (d : Diplomacy) (a b : Nat) : Bool := a == b || d.word a b == .allied

/-- Whether two factions are enemies. -/
def enemies (d : Diplomacy) (a b : Nat) : Bool := a != b && d.word a b == .hostile

end Diplomacy

end GalaxyMarket
