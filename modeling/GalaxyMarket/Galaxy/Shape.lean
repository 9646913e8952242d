import GalaxyMarket.Galaxy.Basic

/-!
# Galaxies of a regular shape

`n` systems in clear space with one planet each, without jumps, in a row or in a circle. They serve
to try the market on.
-/

namespace GalaxyMarket

/-- How the systems of a regular galaxy are linked. -/
inductive Shape where
  | isolated
  | chain
  | ring
  deriving DecidableEq, Repr

/-- The pairs of systems that a shape links. A circle of two is a row. -/
def Shape.links (shape : Shape) (keys : List SystemKey) : List (SystemKey × SystemKey) :=
  let row := keys.zip keys.tail
  match shape, keys.head?, keys.getLast? with
  | .isolated, _, _ => []
  | .ring, some first, some last => if 2 < keys.length then row ++ [(last, first)] else row
  | _, _, _ => row

namespace Galaxy

variable {α : Type} [Scalar α]

/-- Adds a system and its one planet, both numbered `i`. -/
def addNumbered (population : Nat) (commodities : List Nat) (g : Galaxy α) (i : Nat) :
    Except GalaxyError (Galaxy α) := do
  let (key, g) := g.addSystem { name := s!"System {i}", nebula := ⟨0, 0⟩ }
  let (_, g) ← g.addPlanet key { name := s!"Planet {i}", population, commodities }
  return g

/-- Connects the systems of each pair, in order. -/
def link (g : Galaxy α) (pairs : List (SystemKey × SystemKey)) : Except GalaxyError (Galaxy α) :=
  pairs.foldlM (fun g (a, b) => g.connect a b) g

/-- Builds the galaxy of `n` systems of a shape from an empty one. -/
def build (shape : Shape) (n population : Nat) (commodities : List Nat) :
    Except GalaxyError (Galaxy α) := do
  let g : Galaxy α ← (List.range n).foldlM (addNumbered population commodities) {}
  g.link (shape.links g.systems.keys)

/-- The galaxy of `n` systems of a shape, each planet with the same population and market. Only
systems that are there are named on the way, so that no edit is refused. -/
def ofShape (shape : Shape) (n population : Nat) (commodities : List Nat) : Galaxy α :=
  (build shape n population commodities).toOption.getD {}

end Galaxy

end GalaxyMarket
