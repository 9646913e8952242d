import GalaxyMarket.Number.Decimal

/-!
# The tuning of a market

The constants of the price model, and the check that they make sense: resistances and the production
modifier are positive, variabilities are not negative, the power base exceeds one, and everything is
finite.
-/

namespace GalaxyMarket

/-- How the trackers of a system's planets make up the intensity of the system. -/
inductive Aggregation where
  /-- By the sums over all inhabited planets, each weighted by its population. -/
  | systemTotal
  /-- By the last inhabited planet alone. -/
  | lastPlanet
  deriving DecidableEq, Repr

/-- The constants of the price model. -/
structure Config (α : Type) where
  /-- The resistance of every route before nebulae and factions. -/
  baseResistance : α
  /-- The resistance that ties each system to the reference potential. -/
  selfResistance : α
  /-- The share of the base resistance that enemies add and allies take off. -/
  factionModifier : α
  /-- How fast production trackers revert. -/
  productionVariability : α
  /-- How fast demand trackers revert. -/
  demandVariability : α
  /-- The base of the intensity. -/
  powerBase : α
  /-- What demand less production is divided by in the exponent of the intensity. -/
  productionModifier : α
  aggregation : Aggregation
  deriving Repr

/-- What is wrong with a tuning. -/
inductive ConfigError (α : Type) where
  | notPositive (field : String) (value : α)
  | negative (field : String) (value : α)
  | notFinite (field : String) (value : α)
  | powerBase (value : α)
  deriving Repr

/-- The wording of an error. -/
def ConfigError.message : ConfigError Float → String
  | notPositive field value =>
    s!"{field} must be finite and positive, got {Decimal.shortest value}"
  | negative field value =>
    s!"{field} must be finite and non-negative, got {Decimal.shortest value}"
  | notFinite field value => s!"{field} must be finite, got {Decimal.shortest value}"
  | powerBase value => s!"power_base must be greater than 1, got {Decimal.shortest value}"

namespace Config

variable {α : Type} [Scalar α]

/-- The tuning that is used when nothing else is said. -/
def standard : Config α where
  baseResistance := Scalar.ofInt 30
  selfResistance := Scalar.ofInt 3
  factionModifier := 0.1
  productionVariability := 0.01
  demandVariability := 0.01
  powerBase := 1.1
  productionModifier := 1
  aggregation := .systemTotal

instance : Inhabited (Config α) := ⟨standard⟩

/-- Accepts a finite positive number. -/
def checkPositive (field : String) (value : α) : Except (ConfigError α) Unit :=
  if Scalar.isFinite value && Scalar.lt 0 value then .ok () else .error (.notPositive field value)

/-- Accepts a finite number that is not negative. -/
def checkNonnegative (field : String) (value : α) : Except (ConfigError α) Unit :=
  if Scalar.isFinite value && Scalar.le 0 value then .ok () else .error (.negative field value)

/-- Checks a tuning and reports the first thing that is wrong. -/
def validate (config : Config α) : Except (ConfigError α) Unit := do
  checkPositive "base_resistance" config.baseResistance
  checkPositive "self_resistance" config.selfResistance
  checkPositive "production_modifier" config.productionModifier
  checkNonnegative "production_variability" config.productionVariability
  checkNonnegative "demand_variability" config.demandVariability
  if !Scalar.isFinite config.factionModifier then
    .error (.notFinite "faction_modifier" config.factionModifier)
  else if Scalar.isFinite config.powerBase && Scalar.lt 1 config.powerBase then .ok ()
  else .error (.powerBase config.powerBase)

end Config

end GalaxyMarket
