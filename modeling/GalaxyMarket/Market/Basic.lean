import GalaxyMarket.Linear.Solver
import GalaxyMarket.Market.Intensity
import GalaxyMarket.Market.Pricing
import GalaxyMarket.Market.Summary

/-!
# The market

A market keeps a catalog, a ledger and the prepared matrix of a galaxy's network from one pass to
the next. The galaxy itself is shown to it with each call and never kept.

```text
uninitialized --init--> initialized --refresh--> refreshing --> ready
      ^                                                           |
      +------------------------- destroy -------------------------+
```

After every lasting change to the galaxy the market has to be refreshed. `update` lets some time
pass: for each commodity that has a source it draws samples, moves the trackers, solves for the
potentials and writes prices. A solve that fails leaves the prices of its commodity as they are. A
refresh that fails leaves the market without a matrix, and until one succeeds an update does
nothing.
-/

namespace GalaxyMarket

/-- Where a market is in its life. -/
inductive Phase where
  | uninitialized
  /-- There is a ledger but no matrix. -/
  | initialized
  /-- The matrix is being made. -/
  | refreshing
  | ready
  deriving DecidableEq, Repr

/-- What a call to a market made happen. -/
inductive Event (α : Type) where
  /-- A matrix was made, for so many systems and with so many entries. -/
  | refreshed (systems entries : Nat)
  /-- Prices of a commodity were written, from the least to the greatest multiplier. -/
  | pricesUpdated (commodity : Nat) (least greatest : α)
  /-- The solve for a commodity failed and its prices stayed. -/
  | solveFailed (commodity : Nat) (reason : SolveError)
  deriving Repr

/-- A market. -/
structure Market (α : Type) where
  catalog : Catalog α
  config : Config α
  solver : Solver α
  phase : Phase := .uninitialized
  ledger : Ledger α := {}
  index : SystemIndex := {}
  matrix : SparseMatrix α := {}
  prepared? : Option (Prepared α) := none
  lastUpdate? : Option α := none
  refreshQueued : Bool := false

namespace Market

variable {α : Type} [Scalar α]

/-- A new market, if its tuning makes sense. -/
def ofConfig (catalog : Catalog α) (config : Config α) (solver : Solver α) :
    Except (ConfigError α) (Market α) := do
  config.validate
  return { catalog, config, solver }

/-! ### Updates -/

/-- Lets one commodity's markets move and writes its prices. -/
def reprice (g : Galaxy α) (dt : α) (prepared : Prepared α) (m : Market α) (commodity : Nat) :
    Market α × List (Event α) :=
  match m.catalog.listings[commodity]? with
  | some ⟨good, some source⟩ =>
    let pass : Pass α := { source, ledger := m.ledger }
    let (intensities, pass) := pass.systems m.config dt g commodity m.index.keys
    let m := { m with
      catalog := m.catalog.setSource commodity (some pass.source)
      ledger := pass.ledger }
    match prepared.solve intensities with
    | .error reason =>
      -- The trackers have moved all the same.
      (m, [.solveFailed commodity reason])
    | .ok potentials =>
      match normalize? potentials with
      | none => (m, [])
      | some multipliers =>
        let ledger :=
          m.ledger.writePrices g m.index commodity good.basePrice multipliers.values
        ({ m with ledger },
          [.pricesUpdated commodity multipliers.least multipliers.greatest])
  | _ => (m, [])

/-- Reprices some commodities, in order. -/
def repriceAll (g : Galaxy α) (dt : α) (prepared : Prepared α) (m : Market α) :
    List Nat → Market α × List (Event α)
  | [] => (m, [])
  | commodity :: commodities =>
    let (m, events) := m.reprice g dt prepared commodity
    let (m, later) := m.repriceAll g dt prepared commodities
    (m, events ++ later)

/-- An elapsed time; one that is negative or not finite counts as zero. -/
def elapsed (dt : α) : α := if Scalar.isFinite dt && Scalar.le 0 dt then dt else 0

/-- Lets the time `dt` pass. Only a market that is ready does anything. -/
def update (m : Market α) (g : Galaxy α) (dt : α) : Market α × List (Event α) :=
  match m.phase, m.prepared? with
  | .ready, some prepared => m.repriceAll g (elapsed dt) prepared (List.range m.catalog.size)
  | _, _ => (m, [])

/-- Lets the time pass up to `now`. The first time after the start no time passes. -/
def updateAt (m : Market α) (g : Galaxy α) (now : α) : Market α × List (Event α) :=
  match m.phase with
  | .ready =>
    let dt := m.lastUpdate?.elim 0 (now - ·)
    update { m with lastUpdate? := some now } g dt
  | _ => (m, [])

/-! ### The life of a market -/

/-- Brings the ledger in line with a galaxy, makes the matrix of its network and writes prices. A
market that was never initialized is left alone. -/
def refresh (m : Market α) (g : Galaxy α) :
    Market α × Except (NetworkError α) (List (Event α)) :=
  if m.phase == .uninitialized then (m, .ok [])
  else
    let m := { m with phase := .refreshing, refreshQueued := false, ledger := m.ledger.sync g }
    match g.network m.config with
    | .error e => ({ m with phase := .initialized, prepared? := none }, .error e)
    | .ok (index, matrix) =>
      let m := { m with
        phase := .ready, index, matrix, prepared? := some (m.solver.prepare matrix) }
      -- No time passes, but the prices follow the new network.
      let (m, events) := m.update g 0
      (m, .ok (.refreshed index.size matrix.size :: events))

/-- Opens a ledger for a galaxy and refreshes. Does nothing the second time. -/
def init (m : Market α) (g : Galaxy α) :
    Market α × Except (NetworkError α) (List (Event α)) :=
  if m.phase == .uninitialized then
    refresh { m with phase := .initialized, ledger := .ofGalaxy g m.catalog } g
  else (m, .ok [])

/-- Asks for a refresh at the next `execQueued`. -/
def queueRefresh (m : Market α) : Market α := { m with refreshQueued := true }

/-- Refreshes, if that was asked for. -/
def execQueued (m : Market α) (g : Galaxy α) :
    Market α × Except (NetworkError α) (List (Event α)) :=
  if m.refreshQueued then m.refresh g else (m, .ok [])

/-- Closes the ledger and forgets the network. A market that was never initialized is left alone. -/
def destroy (m : Market α) : Market α :=
  if m.phase == .uninitialized then m
  else { catalog := m.catalog, config := m.config, solver := m.solver }

/-! ### Questions -/

/-- The price of a commodity on a planet. -/
def price? (m : Market α) (planet : PlanetKey) (commodity : Nat) : Option Int := do
  let _ ← m.catalog.commodity? commodity
  let quote ← m.ledger.get? planet commodity
  return quote.price

/-- Mean and spread of the price of a commodity. -/
def summary? (m : Market α) (g : Galaxy α) (commodity : Nat) : Option (PriceSummary α) :=
  PriceSummary.ofGalaxy? g m.ledger commodity

/-- Takes the source of a commodity away for good. -/
def detach (m : Market α) (commodity : Nat) : Market α :=
  { m with catalog := m.catalog.setSource commodity none }

end Market

end GalaxyMarket
