import CatalogSync.Catalog.Product
import CatalogSync.Edit.Variant

/- What actions do to a product. Every action but the publication leaves staged changes behind,
   and publishing clears them. -/
namespace CatalogSync.Edit

/-- Sets the order hint of a category, or clears it when there is none. -/
def orderHints (id : String) (hint : Option String) (m : Option (SortedMap String String)) :
    Option (SortedMap String String) :=
  match hint with
  | some h => some ((m.getD .empty).insert id h)
  | none => m.map (·.erase id)

/-- The effect of an action on the details of a product. -/
def details : ProductAction → ProductDetails → ProductDetails
  | .changeName name, d => { d with name }
  | .setDescription description, d => { d with description }
  | .changeSlug slug, d => { d with slug }
  | .setSearchKeywords keywords, d => { d with searchKeywords := keywords }
  | .setMetaTitle text, d => { d with metaTitle := text }
  | .setMetaDescription text, d => { d with metaDescription := text }
  | .setMetaKeywords text, d => { d with metaKeywords := text }
  | .setTaxCategory category, d => { d with taxCategory := category }
  | .transitionState state _, d => { d with state := some state }
  | .removeFromCategory category, d =>
    { d with categories := d.categories.filter fun c => !c.isEquivalent category }
  | .addToCategory category, d => { d with categories := d.categories ++ [category] }
  | .setCategoryOrderHint id hint, d =>
    { d with categoryOrderHints := orderHints id hint d.categoryOrderHints }
  | _, d => d

/-- The least positive id that is not in use: one of the first `used.length + 1` is free. -/
def freshId (used : List UInt32) : UInt32 :=
  let candidates := (List.range (used.length + 1)).map fun n => (n + 1).toUInt32
  (candidates.find? fun id => !used.contains id).getD 0

/-- Makes the variant with a sku the master; the former master takes its place. -/
def promote (sku : String) (p : Product) : Product :=
  if p.masterVariant.sku = some sku then p
  else
    match p.variants.find? fun v => v.sku == some sku with
    | some v =>
      { p with
        masterVariant := v
        variants := changeFirst (fun v => v.sku == some sku) (fun _ => p.masterVariant) p.variants }
    | none => p

/-- The effect of an action on the variants of a product. -/
def variants : ProductAction → Product → Product
  | .addVariant content, p =>
    { p with variants := p.variants ++ [.ofDraft (freshId (p.allVariants.map (·.id))) content] }
  | .removeVariant id, p => { p with variants := p.variants.filter fun v => v.id != id }
  | .changeMasterVariant sku, p => promote sku p
  | a, p =>
    { p with
      masterVariant := variant a p.masterVariant
      variants := p.variants.map (variant a) }

/-- The effect of an action on a product. -/
def product : ProductAction → Product → Product
  | .publish, p => { p with published := true, hasStagedChanges := false }
  | .unpublish, p => { p with published := false }
  | a, p =>
    let q := variants a p
    { q with toProductDetails := details a q.toProductDetails, hasStagedChanges := true }

end CatalogSync.Edit
