import CatalogSync.Catalog.ProductAction
import CatalogSync.Diff.Context
import CatalogSync.Diff.Rules

/- Sku and attributes of a variant. Attributes that the draft lacks are unset before others are
   set, each in ascending order of names. An attribute that is the same for all variants is
   written once for the whole product. -/
namespace CatalogSync.Diff

/-- The new sku, if it differs. -/
def skuActions (old : Variant) (new : VariantDraft) : List ProductAction :=
  whenChanged old.sku new.sku (.setSku old.id new.sku)

/-- Writes an attribute, on the one variant or on all. -/
def writeAttribute (ctx : DiffContext) (id : UInt32) (name : String) (value : Option Json) :
    ProductAction :=
  if ctx.isSameForAll name then .setAttributeInAllVariants name value
  else .setAttribute id name value

/-- All actions on the attributes of a variant. -/
def attributeActions (ctx : DiffContext) (old : Variant) (new : VariantDraft) :
    List ProductAction :=
  let dropped := old.attributes.keys.filter fun name => !new.attributes.contains name
  let changed := new.attributes.entries.filter fun e => !(old.attributes.get? e.1 == some e.2)
  dropped.map (writeAttribute ctx old.id · none) ++
    changed.map fun e => writeAttribute ctx old.id e.1 (some e.2)

end CatalogSync.Diff
