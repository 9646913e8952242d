import GalaxyMarket.Galaxy.Basic
import GalaxyMarket.KeyMap
import GalaxyMarket.Linear.Sparse
import GalaxyMarket.Market.Config

/-!
# The network of trade routes

A galaxy is read as a network of resistors. Each system is a node, tied to a common ground by the
self resistance; two systems are joined by a resistor if a jump leads from one to the other, in
whatever direction and however often. The matrix of the network is its grounded Laplacian: with the
conductance `g` of each route, the sum of the conductances at a node on the diagonal and `-g` beside
it.

Nebulae and factions change the resistance of a route. A resistance may come out as zero, or not
finite; a route whose conductance is not finite is left out.
-/

namespace GalaxyMarket

/-! ### Numbering the systems -/

/-- The systems of a galaxy, numbered from zero. -/
structure SystemIndex where
  keys : List SystemKey := []
  /-- The number of each system. -/
  positions : KeyMap .system Nat := {}
  deriving DecidableEq, Repr

namespace SystemIndex

instance : Inhabited SystemIndex := ⟨{}⟩

variable {α : Type}

/-- Numbers the systems of a galaxy by ascending slot. -/
def ofGalaxy (g : Galaxy α) : SystemIndex :=
  let keys := g.systems.keys
  { keys, positions := .ofList keys.zipIdx }

/-- The number of a system. -/
def position? (index : SystemIndex) (key : SystemKey) : Option Nat := index.positions.get? key

/-- The system of a number. -/
def system? (index : SystemIndex) (position : Nat) : Option SystemKey := index.keys[position]?

/-- How many systems are numbered. -/
def size (index : SystemIndex) : Nat := index.keys.length

end SystemIndex

/-! ### Routes -/

/-- A route between two numbered systems. -/
structure Route (α : Type) where
  origin : Nat
  target : Nat
  resistance : α
  deriving Repr

/-- Why there is no matrix for a network. -/
inductive NetworkError (α : Type) where
  | selfResistance (value : α)
  | outOfBounds (row col dim : Nat)
  deriving Repr

/-- The wording of an error. -/
def NetworkError.message : NetworkError Float → String
  | selfResistance value =>
    s!"self resistance must be finite and positive, got {Decimal.shortest value}"
  | outOfBounds row col dim => s!"matrix entry ({row}, {col}) out of bounds for dimension {dim}"

namespace Route

variable {α : Type} [Scalar α]

/-- The resistance between two systems. Nebulae on either side add to it; so does hostility between
the factions that hold the two ends, while an alliance takes off. -/
def resistanceBetween (config : Config α) (diplomacy : Diplomacy) (a b : System α) : α :=
  let base := config.baseResistance
  let r := base + (a.nebula.density + b.nebula.density) / Scalar.ofInt 1000
  let r := r + (a.nebula.volatility + b.nebula.volatility) / Scalar.ofInt 100
  match a.faction?, b.faction? with
  | some f, some h =>
    if diplomacy.enemies f h then r + config.factionModifier * base
    else if diplomacy.allies f h then r - config.factionModifier * base
    else r
  | _, _ => r

/-- What a route adds to the matrix; nothing when its conductance is not finite. -/
def entries (route : Route α) : List (Entry α) :=
  let (i, j) := (route.origin, route.target)
  (Scalar.recip? route.resistance).elim [] fun conductance =>
    [⟨i, j, -conductance⟩, ⟨j, i, -conductance⟩, ⟨i, i, conductance⟩, ⟨j, j, conductance⟩]

end Route

/-! ### Collecting the routes -/

/-- A set of unordered pairs of numbers below a bound: for each number, the greater ones that it is
paired with. -/
structure PairSet where
  greater : Array (List Nat)
  deriving Repr

namespace PairSet

/-- No pairs, of numbers below a bound. -/
def empty (bound : Nat) : PairSet := ⟨.replicate bound []⟩

/-- Whether a pair is in the set. -/
def contains (s : PairSet) (i j : Nat) : Bool :=
  (s.greater[min i j]?.getD []).contains (max i j)

/-- Puts a pair into the set. -/
def insert (s : PairSet) (i j : Nat) : PairSet :=
  ⟨s.greater.modify (min i j) (max i j :: ·)⟩

end PairSet

/-- A walk along the jumps of a galaxy: the pairs of systems met so far, and their routes. -/
structure Survey (α : Type) where
  seen : PairSet
  routes : Array (Route α) := #[]
  deriving Repr

/-- Takes a route down, unless its two systems were met before. -/
def Survey.add {α : Type} (survey : Survey α) (route : Route α) : Survey α :=
  if survey.seen.contains route.origin route.target then survey
  else
    let ⟨seen, routes⟩ := survey
    { seen := seen.insert route.origin route.target, routes := routes.push route }

namespace Galaxy

variable {α : Type} [Scalar α]

/-- The route of a jump; none of a jump that leads nowhere or back to its own system. -/
def routeOf? (g : Galaxy α) (config : Config α) (index : SystemIndex)
    (origin : SystemKey × System α) (jump : Jump) : Option (Route α) := do
  let i ← index.position? origin.1
  let j ← index.position? jump.target
  let target ← g.system? jump.target
  if i == j then none
  else some ⟨i, j, Route.resistanceBetween config g.diplomacy origin.2 target⟩

/-- The routes of all jumps, system by system. -/
def jumpRoutes (g : Galaxy α) (config : Config α) (index : SystemIndex) : List (Route α) :=
  g.systems.toList.flatMap fun origin => origin.2.jumps.filterMap (g.routeOf? config index origin)

/-- The routes of a galaxy, one for each pair of systems that a jump links: that of the first jump
between them. -/
def routes (g : Galaxy α) (config : Config α) (index : SystemIndex) : List (Route α) :=
  let start : Survey α := { seen := .empty index.size }
  ((g.jumpRoutes config index).foldl Survey.add start).routes.toList

/-- The network of a galaxy: its systems, numbered, and the matrix of conductances. -/
def network (g : Galaxy α) (config : Config α) :
    Except (NetworkError α) (SystemIndex × SparseMatrix α) :=
  match (Scalar.recip? config.selfResistance).filter (Scalar.lt 0) with
  | none => .error (.selfResistance config.selfResistance)
  | some ground =>
    let index := SystemIndex.ofGalaxy g
    -- The routes come first, so that every diagonal entry ends with the ground.
    let coupling := (g.routes config index).flatMap Route.entries
    let grounding := (List.range index.size).map fun i => ⟨i, i, ground⟩
    match SparseMatrix.ofEntries index.size (coupling ++ grounding) with
    | .ok matrix => .ok (index, matrix)
    | .error e => .error (.outOfBounds e.row e.col index.size)

end Galaxy

end GalaxyMarket
