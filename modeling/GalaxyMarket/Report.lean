import GalaxyMarket.Data.Load
import GalaxyMarket.Market.Basic

/-!
# The price report

Opens a market in a galaxy and follows it up to the tenth day. The report tells what happened at the
start, on the fifth day and on the tenth, and then the last prices and their averages. The galaxy
comes from a data directory; without one a small built-in galaxy serves.
-/

namespace GalaxyMarket.Report

/-! ### The built-in galaxy -/

/-- Four goods, two of them with scattered supply and demand. -/
def builtInCatalog : Catalog Float where
  listings :=
    [ ⟨⟨"Food", "Staple rations.", 120⟩, some (.ofSeed ⟨1.0, 1.5⟩ 0.2 42)⟩,
      ⟨⟨"Ore", "Unrefined metals.", 450⟩, some (.constant ⟨1.2, 0.6⟩)⟩,
      ⟨⟨"Medicine", "Vaccines and trauma kits.", 2300⟩, some (.ofSeed ⟨0.4, 0.9⟩ 0.1 7)⟩,
      ⟨⟨"Luxury Goods", "Silks, spirits, art.", 1250000⟩, some (.constant ⟨0.2, 0.3⟩)⟩ ]

/-- Five systems under three factions, by name, faction and nebula. -/
def builtInSystems : List (System Float) :=
  [ { name := "Sol", nebula := ⟨0.0, 0.0⟩, faction? := some 0 },
    { name := "Vega", nebula := ⟨0.0, 0.0⟩, faction? := some 0 },
    { name := "Altair", nebula := ⟨250.0, 10.0⟩, faction? := some 1 },
    { name := "Rigel", nebula := ⟨800.0, 60.0⟩, faction? := some 2 },
    { name := "Deneb", nebula := ⟨0.0, 0.0⟩ } ]

/-- The connections of the systems, by number. -/
def builtInLinks : List (Nat × Nat) := [(0, 1), (0, 2), (1, 3), (2, 4), (3, 4)]

/-- The planets, each with the number of its system. -/
def builtInPlanets : List (Nat × Planet) :=
  [ (0, { name := "Earth", population := 8000000, commodities := [0, 1, 2, 3] }),
    (0, { name := "Mars", population := 250000, commodities := [0, 1] }),
    (1, { name := "Vega Prime", population := 1200000, commodities := [0, 2, 3] }),
    (2, { name := "Guildhall", population := 600000, commodities := [1, 2, 3] }),
    (3, { name := "Blackport", population := 90000, commodities := [0, 1, 3] }),
    (4, { name := "Deneb Outpost", population := 3000, commodities := [0, 1, 2] }) ]

/-- The built-in galaxy. -/
def builtInGalaxy : Galaxy Float :=
  let start : Galaxy Float :=
    ((({} : Galaxy Float).declare 0 1 .allied).declare 0 2 .hostile).declare 1 2 .hostile
  let g := builtInSystems.foldl (fun g system => (g.addSystem system).2) start
  let key (i : Nat) : SystemKey := g.systems.keys[i]?.getD .null
  let g := builtInLinks.foldl (fun g (a, b) => ((g.connect (key a) (key b)).toOption).getD g) g
  builtInPlanets.foldl (fun g (system, planet) =>
    ((g.addPlanet (key system) planet).toOption.map Prod.snd).getD g) g

/-! ### Text -/

/-- Fills a text up with blanks behind it. -/
def left (width : Nat) (s : String) : String :=
  s ++ String.ofList (List.replicate (width - s.length) ' ')

/-- Fills a text up with blanks in front of it. -/
def right (width : Nat) (s : String) : String :=
  String.ofList (List.replicate (width - s.length) ' ') ++ s

/-- A number of which a whole one is written with one decimal place. -/
def real (x : Float) : String :=
  let s := Decimal.shortest x
  if s.all fun c => c.isDigit || c == '-' then s ++ ".0" else s

/-- The cause of a failed solve. -/
def failure : SolveError → String
  | .dimensionMismatch expected actual =>
    s!"DimensionMismatch \x7b expected: {expected}, got: {actual} \x7d"
  | .notFactorized obstacle => "NotFactorized(\"" ++ obstacle.message ++ "\")"
  | .nonFinite side => "NonFinite(\"" ++ side.name ++ "\")"

/-- An event, on one line. -/
def event : Event Float → String
  | .refreshed systems entries =>
    s!"Refreshed \x7b systems: {systems}, entries: {entries} \x7d"
  | .pricesUpdated commodity least greatest =>
    s!"PricesUpdated \x7b commodity: CommodityId({commodity}), min_multiplier: {real least}, " ++
      s!"max_multiplier: {real greatest} \x7d"
  | .solveFailed commodity reason =>
    s!"SolveFailed \x7b commodity: CommodityId({commodity}), reason: {failure reason} \x7d"

/-- The lines of some events. -/
def eventLines (events : List (Event Float)) : List String :=
  events.map fun e => "  Event: " ++ event e

/-- A heading with blank lines around it. -/
def heading (title : String) : List String := ["", s!"=== {title} ===", ""]

/-! ### Tables -/

/-- The price of a commodity on a planet, if its market lists it. -/
def cell (m : Market Float) (key : PlanetKey) (planet : Planet) (commodity : Nat) : String :=
  match m.price? key commodity with
  | some price => if planet.trades commodity then Credits.display price 2 else "-"
  | none => "-"

/-- The name of the commodity at a place. -/
def commodityName (m : Market Float) (commodity : Nat) : String :=
  ((m.catalog.commodity? commodity).map Commodity.name).getD ""

/-- The prices of all commodities, by value, on all planets. -/
def priceTable (m : Market Float) (g : Galaxy Float) : List String :=
  let columns := m.catalog.byValue
  let row (name : String) (cells : List String) : String :=
    left 16 name ++ String.join (cells.map (right 14))
  row "" (columns.map (commodityName m)) ::
    g.planets.toList.map fun (key, planet) => row planet.name (columns.map (cell m key planet))

/-- The mean of some prices in whole credits, a half going away from zero. -/
def wholeMean (summary : PriceSummary Float) : Int :=
  Credits.ofInt (Scalar.wholeProduct 1 summary.mean)

/-- The spread of some prices with one decimal place. -/
def spread (summary : PriceSummary Float) : String :=
  Decimal.write (Decimal.fixed 1) (Binary64.ofFloat summary.deviation)

/-- Mean and spread of the prices of each commodity that some market lists. -/
def averages (m : Market Float) (g : Galaxy Float) : List String :=
  m.catalog.byValue.filterMap fun commodity =>
    (m.summary? g commodity).map fun summary =>
      s!"  {left 14 (commodityName m commodity)}" ++
      s!" mean {right 10 (Credits.display (wholeMean summary) 2)}" ++
      s!"  spread {right 8 (spread summary)}  over {summary.samples} planets"

/-! ### The report -/

/-- Lets some days pass, and writes the events of every fifth. -/
def days (g : Galaxy Float) (m : Market Float) : List Nat → Market Float × List String
  | [] => (m, [])
  | day :: rest =>
    let (m, events) := m.updateAt g (Binary64.ofInt day)
    let lines := if day % 5 == 0 then heading s!"Day {day}" ++ eventLines events else []
    let (m, later) := days g m rest
    (m, lines ++ later)

/-- What a run of the program leaves behind: its exit code, the lines of its report, and a complaint
when there is no report. -/
structure Outcome where
  exitCode : UInt32
  lines : List String := []
  complaint? : Option String := none

/-- The outcome for a directory from which no galaxy can be made. -/
def loadFailed (path : String) (e : LoadError) : Outcome :=
  { exitCode := 1, complaint? := some s!"failed to load {path}: {e.message}" }

/-- The outcome for a market that cannot be opened. -/
def marketFailed (message : String) : Outcome := { exitCode := 101, complaint? := some message }

/-- The report on a galaxy. -/
def ofGalaxy (catalog : Catalog Float) (g : Galaxy Float) (config : Config Float) : Outcome :=
  match Market.ofConfig catalog config .cholesky with
  | .error e => marketFailed e.message
  | .ok m =>
    match m.init g with
    | (_, .error e) => marketFailed e.message
    | (m, .ok events) =>
      -- The first call only sets the clock, so nine days pass.
      let (m, dayLines) := days g m (List.range' 1 10)
      { exitCode := 0
        lines := ["=== Initial solve ===", ""] ++ eventLines events ++ dayLines ++
          heading "Price table" ++ priceTable m g ++ heading "Galaxy averages" ++ averages m g }

/-- The report on the galaxy of a directory, or on the built-in one. -/
def run : Option Folder → Outcome
  | none => ofGalaxy builtInCatalog builtInGalaxy .standard
  | some folder =>
    match folder.load .none with
    | .ok data => ofGalaxy data.catalog data.galaxy data.config
    | .error e => loadFailed folder.path e

end GalaxyMarket.Report
