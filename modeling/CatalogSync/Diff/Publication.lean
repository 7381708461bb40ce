import CatalogSync.Catalog.ProductAction

/- Publication. A product that should be published and is published already is published again
   when there is something to flush: changes made by the same list of actions, or staged earlier.
   -/
namespace CatalogSync.Diff

/-- Whether to publish or unpublish, or neither: `desired` is the flag of the draft, `current`
    whether the product is published, `others` whether other actions precede, and `staged` whether
    the product has staged changes. -/
def publication (desired : Option Bool) (current others staged : Bool) : List ProductAction :=
  match desired.getD false, current with
  | false, false => []
  | false, true => [.unpublish]
  | true, false => [.publish]
  | true, true => if others || staged then [.publish] else []

end CatalogSync.Diff
