import CatalogSync.Catalog.ProductAction

/- Prices of a variant, matched by scope. Prices whose scope the draft lacks are removed, those
   with another amount or key are replaced, and those of a new scope are added. A stored price
   without an id cannot be addressed and is left as it is. -/
namespace CatalogSync.Diff

/-- The removal of a stored price, if no price of the draft has its scope. -/
def dropPriceActions (new : List Price) (price : Price) : List ProductAction :=
  if new.any fun p => p.sameScope price then []
  else (price.id.map .removePrice).toList

/-- The change or the addition that a price of the draft calls for. -/
def placePriceActions (id : UInt32) (old : List Price) (price : Price) : List ProductAction :=
  match old.find? fun p => p.sameScope price with
  | some existing =>
    if existing.value != price.value || existing.key != price.key then
      (existing.id.map (.changePrice · price)).toList
    else []
  | none => [.addPrice id price]

/-- All actions on the prices of a variant. -/
def priceActions (old : Variant) (new : VariantDraft) : List ProductAction :=
  old.prices.flatMap (dropPriceActions new.prices) ++
    new.prices.flatMap (placePriceActions old.id old.prices)

end CatalogSync.Diff
