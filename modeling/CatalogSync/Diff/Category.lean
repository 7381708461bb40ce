import CatalogSync.Catalog.Product
import CatalogSync.Catalog.ProductAction
import CatalogSync.Diff.Rules

/- Categories of a product and the order hints within them. Categories are compared by equivalence
   of references. Hints are kept for the categories that the draft lists; those of a category that
   the product leaves go with the membership. -/
namespace CatalogSync.Diff

/-- One removal for every old category that the draft no longer lists. -/
def removeFromCategoryActions (old : Product) (new : ProductDraft) : List ProductAction :=
  (difference Reference.isEquivalent old.categories new.categories).map .removeFromCategory

/-- One addition for every category of the draft that the product is not in. -/
def addToCategoryActions (old : Product) (new : ProductDraft) : List ProductAction :=
  (difference Reference.isEquivalent new.categories old.categories).map .addToCategory

/-- The changes of the categories of a product, the removals first. -/
def categoryActions (old : Product) (new : ProductDraft) : List ProductAction :=
  removeFromCategoryActions old new ++ addToCategoryActions old new

/-- The id of a category of the draft; one given by key takes that of the first old category it is
    equivalent to. -/
def memberId? (old : List Reference) (category : Reference) : Option String :=
  match category.id with
  | some id => some id
  | none => (old.find? fun c => c.isEquivalent category).bind (·.id)

/-- The ids of the categories that the draft lists. -/
def memberIds (old : Product) (new : ProductDraft) : List String :=
  new.categories.filterMap (memberId? old.categories)

/-- Clears the hints that the draft drops and sets those that are new or changed, each in
    ascending order and only for categories that the draft lists. -/
def orderHintActions (old : Product) (new : ProductDraft) : List ProductAction :=
  let members := memberIds old new
  let oldHints := old.categoryOrderHints.getD .empty
  let newHints := new.categoryOrderHints.getD .empty
  if oldHints = newHints then []
  else
    let cleared := oldHints.keys.filter fun id => !newHints.contains id && members.contains id
    let changed := newHints.entries.filter fun e =>
      members.contains e.1 && oldHints.get? e.1 != some e.2
    cleared.map (.setCategoryOrderHint · none) ++
      changed.map fun e => .setCategoryOrderHint e.1 (some e.2)

end CatalogSync.Diff
