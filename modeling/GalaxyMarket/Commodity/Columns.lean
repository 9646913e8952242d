import GalaxyMarket.Commodity.Catalog

/-!
# A draft in columns

The draft of a catalog as it is kept while others register and attach: goods and sources stand in
two columns, under the same number, and an index says which number a name has. A name that is
registered again gets the new number. Numbers have 32 bits. The index goes into the catalog with the
columns.

Only the order in which they are written ties the columns and the index together. A number from the
index for which there is no place in the column of sources would be the end of the program, which is
told apart from an error here (`DraftColumns.attach`).
-/

namespace GalaxyMarket

/-- The number of a commodity. -/
abbrev CommodityId := UInt32

/-- The columns of a draft, its index and the names that were registered again. -/
structure DraftColumns (α : Type) where
  commodities : Array Commodity := #[]
  sources : Array (Option (Source α)) := #[]
  /-- The numbers by name. Of two for one name that in front counts. -/
  ids : List (String × CommodityId) := []
  repeated : Array String := #[]

/-- A catalog with an index of its names. -/
structure IndexedCatalog (α : Type) extends Catalog α where
  ids : List (String × CommodityId) := []

namespace DraftColumns

variable {α : Type}

instance : Inhabited (DraftColumns α) := ⟨{}⟩

/-- The number of a name. -/
def id? (draft : DraftColumns α) (name : String) : Option CommodityId := draft.ids.lookup name

/-- Registers a commodity, without a source, and gives it the next number. -/
def register (draft : DraftColumns α) (commodity : Commodity) : CommodityId × DraftColumns α :=
  let ⟨commodities, sources, ids, repeated⟩ := draft
  let id := UInt32.ofNat commodities.size
  (id, {
    commodities := commodities.push commodity
    sources := sources.push none
    ids := (commodity.name, id) :: ids
    repeated :=
      if (ids.lookup commodity.name).isSome then repeated.push commodity.name else repeated })

/-- Gives a source to the commodity of a name, in place of any other. Nothing comes back if there is
no place for it. -/
def attach (draft : DraftColumns α) (name : String) (source : Source α) :
    Option (Except CatalogError (DraftColumns α)) :=
  match draft.id? name with
  | none => some (.error (.notFound name))
  | some id =>
    if id.toNat < draft.sources.size then
      let ⟨commodities, sources, ids, repeated⟩ := draft
      some (.ok {
        commodities, sources := sources.setIfInBounds id.toNat (some source), ids, repeated })
    else none

/-- Freezes a draft. A repeated name is reported before a negative price, and of each the first. -/
def freeze (draft : DraftColumns α) : Except CatalogError (IndexedCatalog α) :=
  match draft.repeated[0]?, draft.commodities.find? fun commodity => commodity.basePrice < 0 with
  | some name, _ => .error (.duplicate name)
  | none, some commodity => .error (.negativePrice commodity.name commodity.basePrice)
  | none, none => .ok {
      listings := List.zipWith Listing.mk draft.commodities.toList draft.sources.toList
      ids := draft.ids }

end DraftColumns

namespace IndexedCatalog

variable {α : Type}

instance : Inhabited (IndexedCatalog α) := ⟨{}⟩

/-- The number of a name. -/
def id? (catalog : IndexedCatalog α) (name : String) : Option CommodityId :=
  catalog.ids.lookup name

/-- The numbers of all commodities. The count of the commodities has 32 bits as well, so that of
`2 ^ 32` commodities none is listed. -/
def numbers (catalog : IndexedCatalog α) : List CommodityId :=
  (List.range (UInt32.ofNat catalog.size).toNat).map UInt32.ofNat

/-- The numbers of all commodities, by value. -/
def ranking (catalog : IndexedCatalog α) : List CommodityId :=
  let entries := catalog.numbers.filterMap fun id => (catalog.commodity? id.toNat).map (·, id)
  (entries.mergeSort fun a b => Catalog.moreValuable a.1 b.1).map Prod.snd

end IndexedCatalog

end GalaxyMarket
