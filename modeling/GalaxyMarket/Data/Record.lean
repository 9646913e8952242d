import GalaxyMarket.Data.Schema
import GalaxyMarket.Data.Value
import GalaxyMarket.Market.Config

/-!
# Records of data files

The records from which a galaxy is made, and how a value tree is read as one. A field that is
unknown is passed over; a known field must not come twice. Fields without which a record makes no
sense are required, all others have a default. Where a record is written as a list of its fields'
values, in order, the list may stop early. A record and its decoder name the fields in one order.
-/

namespace GalaxyMarket

/-! ### The records -/

/-- How a commodity is supplied and demanded. -/
structure CurveRecord where
  supply : Float
  demand : Float
  /-- How far samples scatter. -/
  jitter : Float
  seed : Nat

/-- A good, with its base price. -/
structure CommodityRecord where
  name : String
  description : String
  price : Int
  /-- A script that gives samples, by its place in the data directory. -/
  script? : Option String
  curve? : Option CurveRecord

/-- A faction, and the names of those that it stands to. -/
structure FactionRecord where
  name : String
  allies : List String
  enemies : List String

/-- A one-way jump to the system of a name. -/
structure JumpRecord where
  target : String
  exitOnly : Bool
  hidden : Bool

/-- A planet, and the names of the commodities on its market. -/
structure PlanetRecord where
  name : String
  population : Nat
  /-- Whether it is inhabited, if that does not follow from its population. -/
  inhabited? : Option Bool
  commodities : List String

/-- A system with its nebula, the faction that holds it, its jumps and its planets. -/
structure SystemRecord where
  name : String
  density : Float
  volatility : Float
  faction? : Option String
  jumps : List JumpRecord
  planets : List PlanetRecord

/-! ### Reading values -/

/-- What is expected somewhere, and how a value that is found there is read, in some dialect. -/
structure Decoder (β : Type) where
  schema : Schema
  decode? : Dialect → Value → Option β

/-- The fields of a record, or some of them, in order, and how they are read, each value under its
name. -/
structure Fields (β : Type) where
  schemas : List (String × Schema)
  decode? : Dialect → List (String × Value) → Option β

namespace Fields

variable {β : Type}

/-- Fields side by side; their values are put together in the order in which they are named. -/
instance : Applicative Fields where
  pure x := { schemas := [], decode? := fun _ _ => some x }
  seq f x :=
    { schemas := f.schemas ++ (x ()).schemas
      decode? := fun dialect values =>
        (f.decode? dialect values).bind fun g => ((x ()).decode? dialect values).map g }

/-- A field that has to be there. -/
def required (name : String) (content : Decoder β) : Fields β where
  schemas := [(name, content.schema)]
  decode? dialect values := (values.lookup name).bind (content.decode? dialect)

/-- A field that has a default. -/
def optional (name : String) (content : Decoder β) (default : β) : Fields β where
  schemas := [(name, content.schema)]
  decode? dialect values := (values.lookup name).elim (some default) (content.decode? dialect)

end Fields

namespace Decoder

variable {β : Type}

/-- A text. -/
def text : Decoder String where
  schema := .text
  decode?
    | _, .text s => some s
    | _, _ => none

/-- A truth value. -/
def bool : Decoder Bool where
  schema := .bool
  decode?
    | _, .bool b => some b
    | _, _ => none

/-- A number, in one of its readings. -/
def numeral (reading : Numeral → Option β) : Decoder β where
  schema := .number
  decode?
    | _, .number n => reading n
    | _, _ => none

/-- A signed integer of 64 bits. -/
def integer : Decoder Int := numeral Numeral.integer?

/-- An unsigned integer of 64 bits. -/
def natural : Decoder Nat := numeral Numeral.natural?

/-- A real number. -/
def real : Decoder Float := numeral Numeral.real?

/-- One of several cases, by name. -/
def oneOf (cases : List (String × β)) : Decoder β where
  schema := .case
  decode?
    | _, .text name => cases.lookup name
    | dialect, .record [(name, v)] => if dialect.nothingMore v then cases.lookup name else none
    | _, _ => none

/-- A list, every item of which is read the same way. -/
def list (item : Decoder β) : Decoder (List β) where
  schema := .list item.schema
  decode?
    | dialect, .list items => items.mapM (item.decode? dialect)
    | _, _ => none

/-- A value that may be absent. -/
def optional (content : Decoder β) : Decoder (Option β) where
  schema := .optional content.schema
  decode?
    | _, .null => some none
    | dialect, v => (content.decode? dialect v).map some

/-- A record of a type. -/
def record (typeName : String) (fields : Fields β) : Decoder β where
  schema := .record typeName fields.schemas
  decode? dialect v :=
    let names := fields.schemas.map Prod.fst
    match v with
    | .record values =>
      let known := values.filter fun (name, _) => names.contains name
      let twice := names.any fun name => 1 < (known.filter (·.1 == name)).length
      if twice then none else fields.decode? dialect known
    | .list items =>
      if items.length ≤ names.length then fields.decode? dialect (names.zip items) else none
    | _ => none

end Decoder

/-! ### Reading records -/

open Decoder (text bool integer natural real oneOf list record)
open Fields (required optional)

/-- Reads a curve; without jitter and seed it is constant. -/
def CurveRecord.decoder : Decoder CurveRecord :=
  record "CurveData" (CurveRecord.mk
    <$> required "supply" real
    <*> required "demand" real
    <*> optional "jitter" real 0.0
    <*> optional "seed" natural 0)

/-- Reads a commodity; name and price are required. -/
def CommodityRecord.decoder : Decoder CommodityRecord :=
  record "CommodityData" (CommodityRecord.mk
    <$> required "name" text
    <*> optional "description" text ""
    <*> required "price" integer
    <*> optional "script" text.optional none
    <*> optional "curve" CurveRecord.decoder.optional none)

/-- Reads a faction; its name is required. -/
def FactionRecord.decoder : Decoder FactionRecord :=
  record "FactionData" (FactionRecord.mk
    <$> required "name" text
    <*> optional "allies" text.list []
    <*> optional "enemies" text.list [])

/-- Reads a jump; its target is required. -/
def JumpRecord.decoder : Decoder JumpRecord :=
  record "JumpData" (JumpRecord.mk
    <$> required "target" text
    <*> optional "exit_only" bool false
    <*> optional "hidden" bool false)

/-- Reads a planet; its name is required. -/
def PlanetRecord.decoder : Decoder PlanetRecord :=
  record "PlanetData" (PlanetRecord.mk
    <$> required "name" text
    <*> optional "population" natural 0
    <*> optional "inhabited" bool.optional none
    <*> optional "commodities" text.list [])

/-- Reads a system; its name is required. -/
def SystemRecord.decoder : Decoder SystemRecord :=
  record "SystemData" (SystemRecord.mk
    <$> required "name" text
    <*> optional "nebula_density" real 0.0
    <*> optional "nebula_volatility" real 0.0
    <*> optional "faction" text.optional none
    <*> optional "jumps" JumpRecord.decoder.list []
    <*> optional "planets" PlanetRecord.decoder.list [])

/-- Reads the name of an aggregation. -/
def Aggregation.decoder : Decoder Aggregation :=
  oneOf [("system_total", .systemTotal), ("last_planet", .lastPlanet)]

/-- Reads the tuning of a market; what is not said is as usual. -/
def Config.decoder : Decoder (Config Float) :=
  let usual : Config Float := .standard
  record "EconomyConfig" (Config.mk
    <$> optional "base_resistance" real usual.baseResistance
    <*> optional "self_resistance" real usual.selfResistance
    <*> optional "faction_modifier" real usual.factionModifier
    <*> optional "production_variability" real usual.productionVariability
    <*> optional "demand_variability" real usual.demandVariability
    <*> optional "power_base" real usual.powerBase
    <*> optional "production_modifier" real usual.productionModifier
    <*> optional "aggregation" Aggregation.decoder usual.aggregation)

end GalaxyMarket
