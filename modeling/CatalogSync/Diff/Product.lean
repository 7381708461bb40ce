import CatalogSync.Diff.Category
import CatalogSync.Diff.Publication
import CatalogSync.Diff.VariantList

/- The product diff: details first, then categories and their order hints, then variants, and the
   publication last, since it depends on whether anything else has changed. -/
namespace CatalogSync.Diff

/-- The tax category, if the references are not equivalent; a draft without one unsets it. -/
def taxCategoryActions (old : Product) (new : ProductDraft) : List ProductAction :=
  if Reference.areEquivalent old.taxCategory new.taxCategory then []
  else [.setTaxCategory new.taxCategory]

/-- The workflow state, if the draft names one that the product is not in; a state cannot be
    unset. -/
def stateActions (old : Product) (new : ProductDraft) : List ProductAction :=
  match new.state with
  | none => []
  | some state =>
    if old.state.any fun s => s.isEquivalent state then [] else [.transitionState state true]

/-- The actions on the details of a product, in their order. -/
def detailActions (f : Filter) (old : Product) (new : ProductDraft) : List ProductAction :=
  f.gate .name (whenChanged old.name new.name (.changeName new.name)) ++
    f.gate .description
      (whenChanged old.description new.description (.setDescription new.description)) ++
    f.gate .slug (whenChanged old.slug new.slug (.changeSlug new.slug)) ++
    f.gate .searchKeywords
      (whenChanged old.searchKeywords new.searchKeywords (.setSearchKeywords new.searchKeywords)) ++
    f.gate .metaTitle (whenChanged old.metaTitle new.metaTitle (.setMetaTitle new.metaTitle)) ++
    f.gate .metaDescription
      (whenChanged old.metaDescription new.metaDescription
        (.setMetaDescription new.metaDescription)) ++
    f.gate .metaKeywords
      (whenChanged old.metaKeywords new.metaKeywords (.setMetaKeywords new.metaKeywords)) ++
    f.gate .taxCategory (taxCategoryActions old new) ++
    f.gate .state (stateActions old new) ++
    f.gate .categories (categoryActions old new) ++
    f.gate .categoryOrderHints (orderHintActions old new)

/-- The actions that lead a stored product to its draft. -/
def productPlan (ctx : DiffContext) (old : Product) (new : ProductDraft) : Plan ProductAction :=
  let variants := variantListPlan ctx old new
  let actions := detailActions ctx.filter old new ++ variants.actions
  ⟨actions ++ ctx.filter.gate .publish
      (publication new.publish old.published (!actions.isEmpty) old.hasStagedChanges),
    variants.issues⟩

end CatalogSync.Diff
