import CatalogSync.Catalog.Product
import CatalogSync.Diff.Plan
import CatalogSync.Diff.Attribute
import CatalogSync.Diff.Image
import CatalogSync.Diff.Price
import CatalogSync.Diff.Asset
import CatalogSync.Text.Blank

/- Variants of a product, matched by key over the master and the other variants. Variants that the
   draft dropped are removed first; then each entry of the draft is updated or added, in order;
   and last the master variant is changed. Null entries and entries without a key are reported and
   skipped, and blank master keys call the whole variant diff off. -/
namespace CatalogSync.Diff

/-- The addition of everything that a draft defines. -/
def addVariantAction (v : VariantDraft) : ProductAction := .addVariant v

/-- The actions that lead one stored variant to its draft. -/
def variantActions (ctx : DiffContext) (old : Variant) (new : VariantDraft) : List ProductAction :=
  ctx.filter.gate .sku (skuActions old new) ++
    ctx.filter.gate .attributes (attributeActions ctx old new) ++
    ctx.filter.gate .images (imageActions old new) ++
    ctx.filter.gate .prices (priceActions old new) ++
    ctx.filter.gate .assets (assetActions old new)

/-- The stored variants by key; of several with one key the last counts. -/
def variantsByKey (old : Product) : SortedMap String Variant :=
  SortedMap.indexBy (·.key) old.allVariants

/-- The old variants other than the master whose key the draft does not have. -/
def removeVariantActions (old : Product) (new : ProductDraft) : List ProductAction :=
  let kept (v : Variant) : Bool := v.key.any new.variantKeys.contains
  (old.variants.filter fun v => !kept v).map fun v => .removeVariant v.id

/-- Why an entry of the draft is skipped, if it is. -/
def entryProblem : Option VariantDraft → Option VariantProblem
  | none => some .nullVariant
  | some v => if isBlank v.key then some .blankVariantKey else none

/-- What an entry of the draft calls for, given the stored variants by key. -/
def entryActions (ctx : DiffContext) (stored : SortedMap String Variant) :
    Option VariantDraft → List ProductAction
  | none => []
  | some v =>
    if isBlank v.key then []
    else
      match v.key.bind stored.get? with
      | some existing => variantActions ctx existing v
      | none => ctx.filter.gate .variants [addVariantAction v]

/-- The action writes an attribute of every variant, so one occurrence in a list is enough. -/
def isProductWide : ProductAction → Bool
  | .setAttributeInAllVariants .. => true
  | _ => false

/-- Appends an action, except for a product-wide one that is there already. -/
def collect (collected : List ProductAction) (action : ProductAction) : List ProductAction :=
  if isProductWide action && collected.contains action then collected else collected ++ [action]

/-- The change of the master variant. While the keys agree there is none; else the new master is
    promoted by its sku, and the old one is removed unless the draft keeps it as another variant.
    -/
def masterActions (old : Product) (new : ProductDraft) :
    Except VariantProblem (List ProductAction) :=
  match new.masterVariant.filter fun m => !isBlank m.key with
  | none => .error .blankNewMasterKey
  | some master =>
    if isBlank old.masterVariant.key then .error .blankOldMasterKey
    else if old.masterVariant.key = master.key then .ok []
    else
      match master.sku.filter fun s => !isBlankText s with
      | none => .error .blankNewMasterSku
      | some sku =>
        let demoted := new.variants.any fun v => v.any fun v => v.key == old.masterVariant.key
        .ok (.changeMasterVariant sku ::
          if demoted then [] else [.removeVariant old.masterVariant.id])

/-- The blank master keys, the old one first. -/
def masterKeyProblems (old : Product) (new : ProductDraft) : List VariantProblem :=
  (if isBlank old.masterVariant.key then [.blankOldMasterKey] else []) ++
    (if isBlank (new.masterVariant.bind (·.key)) then [.blankNewMasterKey] else [])

/-- All actions on the variants of a product. -/
def variantListPlan (ctx : DiffContext) (old : Product) (new : ProductDraft) : Plan ProductAction :=
  let issue (p : VariantProblem) : Issue := ⟨new.key.getD "", p⟩
  match masterKeyProblems old new with
  | [] =>
    let removals := ctx.filter.gate .variants (removeVariantActions old new)
    let updates := new.allVariants.flatMap (entryActions ctx (variantsByKey old))
    let collected := updates.foldl collect removals
    let skipped := new.allVariants.filterMap entryProblem
    let (master, refused) :=
      if ctx.filter.passes .variants then
        match masterActions old new with
        | .ok actions => (actions, [])
        | .error problem => ([], [problem])
      else ([], [])
    ⟨collected ++ master, (skipped ++ refused).map issue⟩
  | problems => ⟨[], problems.map issue⟩

end CatalogSync.Diff
