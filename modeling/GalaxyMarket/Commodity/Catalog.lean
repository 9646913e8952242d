import GalaxyMarket.Commodity.Source

/-!
# The catalog of commodities

Commodities are collected in a draft and then frozen. A draft takes everything: that a name was
registered twice, or that a price is negative, is found when it is frozen. In a catalog a commodity
is named by its place, counted from zero; places follow the order of registration.

Only the sources of a catalog change later on: drawing from one moves it forward, and a source can
be taken away for good.
-/

namespace GalaxyMarket

/-- What is fixed about a good. -/
structure Commodity where
  name : String
  description : String
  basePrice : Int
  deriving DecidableEq, Repr

/-- A commodity and its source. A commodity without a source keeps its price. -/
structure Listing (α : Type) where
  commodity : Commodity
  source? : Option (Source α) := none

/-- Why a source cannot be attached or a draft not be frozen. -/
inductive CatalogError where
  | notFound (name : String)
  | duplicate (name : String)
  | negativePrice (name : String) (price : Int)
  deriving DecidableEq, Repr

/-- The wording of an error. -/
def CatalogError.message : CatalogError → String
  | notFound name => s!"not found: {name}"
  | duplicate name => s!"duplicate commodity: {name}"
  | negativePrice name price => s!"commodity {name} has negative base price {price}"

/-- Commodities in the order of their registration, and the names that were registered again. -/
structure CatalogDraft (α : Type) where
  listings : List (Listing α) := []
  repeated : List String := []

/-- The frozen list of commodities: their names differ and no price is negative. -/
structure Catalog (α : Type) where
  listings : List (Listing α) := []

namespace CatalogDraft

variable {α : Type}

instance : Inhabited (CatalogDraft α) := ⟨{}⟩

/-- The place of the last commodity registered under a name. -/
def find? (draft : CatalogDraft α) (name : String) : Option Nat :=
  (draft.listings.zipIdx.reverse.find? fun (l, _) => l.commodity.name == name).map Prod.snd

/-- Registers a commodity, without a source. -/
def register (draft : CatalogDraft α) (commodity : Commodity) : CatalogDraft α :=
  { listings := draft.listings ++ [{ commodity }]
    repeated :=
      if (draft.find? commodity.name).isSome then draft.repeated ++ [commodity.name]
      else draft.repeated }

/-- Gives a source to the commodity registered last under a name, in place of any other. -/
def attach (draft : CatalogDraft α) (name : String) (source : Source α) :
    Except CatalogError (CatalogDraft α) :=
  match draft.find? name with
  | some i => .ok { draft with
      listings := draft.listings.modify i fun l => { l with source? := some source } }
  | none => .error (.notFound name)

/-- Registers a commodity with its source, if it has one. -/
def add (draft : CatalogDraft α) (l : Listing α) : Except CatalogError (CatalogDraft α) :=
  let draft := draft.register l.commodity
  l.source?.elim (.ok draft) (draft.attach l.commodity.name)

/-- Freezes a draft. A repeated name is reported before a negative price, and of each the first. -/
def freeze (draft : CatalogDraft α) : Except CatalogError (Catalog α) :=
  match draft.repeated, draft.listings.find? fun l => l.commodity.basePrice < 0 with
  | name :: _, _ => .error (.duplicate name)
  | [], some l => .error (.negativePrice l.commodity.name l.commodity.basePrice)
  | [], none => .ok ⟨draft.listings⟩

end CatalogDraft

namespace Catalog

variable {α : Type}

instance : Inhabited (Catalog α) := ⟨{}⟩

/-- The number of commodities. -/
def size (catalog : Catalog α) : Nat := catalog.listings.length

/-- The commodity at a place. -/
def commodity? (catalog : Catalog α) (i : Nat) : Option Commodity :=
  catalog.listings[i]?.map Listing.commodity

/-- The place of the commodity of a name. -/
def find? (catalog : Catalog α) (name : String) : Option Nat :=
  catalog.listings.findIdx? fun l => l.commodity.name == name

/-- The source of the commodity at a place. -/
def source? (catalog : Catalog α) (i : Nat) : Option (Source α) :=
  catalog.listings[i]?.bind Listing.source?

/-- The base prices, by place. -/
def basePrices (catalog : Catalog α) : List Int := catalog.listings.map (·.commodity.basePrice)

/-- Replaces the source of the commodity at a place, or takes it away. -/
def setSource (catalog : Catalog α) (i : Nat) (source? : Option (Source α)) : Catalog α :=
  ⟨catalog.listings.modify i fun l => { l with source? }⟩

/-- Draws `n` samples from the source of the commodity at a place. -/
def draw? [Scalar α] (catalog : Catalog α) (i n : Nat) : Option (List (Sample α) × Catalog α) :=
  (catalog.source? i).map fun source =>
    let (samples, source) := source.drawMany n
    (samples, catalog.setSource i (some source))

/-- The order by value: the dearer commodity first, and by name where the prices are the same. -/
def moreValuable (a b : Commodity) : Bool :=
  b.basePrice < a.basePrice || (a.basePrice == b.basePrice && a.name ≤ b.name)

/-- The places of all commodities, by value. -/
def byValue (catalog : Catalog α) : List Nat :=
  let entries := catalog.listings.zipIdx.map fun (l, i) => (l.commodity, i)
  (entries.mergeSort fun a b => moreValuable a.1 b.1).map Prod.snd

/-- The catalog of the listings, provided that it can be frozen. -/
def ofListings (listings : List (Listing α)) : Except CatalogError (Catalog α) :=
  listings.foldlM CatalogDraft.add {} >>= CatalogDraft.freeze

/-- Three goods to try the market on: one in demand, one in supply, and one in balance. -/
def standard [Scalar α] : Catalog α :=
  let listing (name : String) (basePrice supply demand : Int) : Listing α :=
    { commodity := { name, description := "", basePrice }
      source? := some (.constant ⟨Scalar.ofInt supply, Scalar.ofInt demand⟩) }
  ⟨[listing "Food" 100 1 3, listing "Ore" 200 3 1, listing "Luxury Goods" 800 2 2]⟩

end Catalog

end GalaxyMarket
