import CatalogSync.Catalog.ProductAction
import CatalogSync.Diff.Rules

/- Images of a variant, told apart by their urls. Images that the draft lacks are removed, missing
   ones are appended, and then each image that is not in its place is moved there, every move
   being reckoned against the order that the actions before it have left. Labels come last. -/
namespace CatalogSync.Diff

/-- Takes the first `a` out of a list and puts it back at a position, or at the end of a shorter
    list. -/
def relocate {α : Type} [BEq α] (a : α) (position : Nat) (xs : List α) : List α :=
  let rest := xs.erase a
  rest.insertIdx (min position rest.length) a

/-- The moves that bring the urls `current` into the order of the targets, which start at the
    given position. -/
def moveActions (id : UInt32) : Nat → List String → List String → List ProductAction
  | _, _, [] => []
  | position, current, url :: targets =>
    if current[position]? = some url then moveActions id (position + 1) current targets
    else if current.contains url then
      .moveImageToPosition id url position ::
        moveActions id (position + 1) (relocate url position current) targets
    else moveActions id (position + 1) current targets

/-- The label of an image that the variant already has, if the first one with its url has another.
    -/
def labelActions (id : UInt32) (old : List Image) (image : Image) : List ProductAction :=
  match old.find? fun i => i.url == image.url with
  | some existing =>
    whenChanged existing.label image.label (.setImageLabel id image.url image.label)
  | none => []

/-- All actions on the images of a variant. -/
def imageActions (old : Variant) (new : VariantDraft) : List ProductAction :=
  let oldUrls := old.images.map (·.url)
  let newUrls := new.images.map (·.url)
  let added := new.images.filter fun i => !oldUrls.contains i.url
  let current := oldUrls.filter newUrls.contains ++ added.map (·.url)
  (oldUrls.filter fun url => !newUrls.contains url).map (.removeImage old.id) ++
    added.map (.addExternalImage old.id) ++
    moveActions old.id 0 current newUrls ++
    new.images.flatMap (labelActions old.id old.images)

end CatalogSync.Diff
