import CatalogSync.Diff.Filter

/- The settings of a product diff. -/
namespace CatalogSync

/-- Which groups of actions are built, and which attributes have to hold the same value on every
    variant, so that a change of one is sent once for the whole product. -/
structure DiffContext where
  filter : Filter
  sameForAll : SortedSet String
deriving DecidableEq, Repr, Inhabited

namespace DiffContext

/-- Every group passes and no attribute is the same for all variants. -/
def unrestricted : DiffContext := ⟨.all, .empty⟩

/-- The attribute has to hold the same value on every variant. -/
def isSameForAll (c : DiffContext) (name : String) : Bool := c.sameForAll.contains name

instance : JsonForm DiffContext where
  write c := Json.record [
    ("filter", some (write c.filter)),
    ("same_for_all_attributes", some (write c.sameForAll))]
  read? j := do
    let ms ← j.record? ["filter", "same_for_all_attributes"]
    let filter ← ms.defaulted "filter" .all
    let sameForAll ← ms.defaulted "same_for_all_attributes" .empty
    some ⟨filter, sameForAll⟩

end DiffContext

end CatalogSync
