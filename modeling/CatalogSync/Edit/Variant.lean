import CatalogSync.Catalog.ProductAction
import CatalogSync.Edit.Sequence

/- What the actions on a variant do to its sku, attributes, images, prices and assets. Images are
   addressed by url, prices by id and assets by key, in each case the first that matches. An
   action on something else leaves them as they are. -/
namespace CatalogSync.Edit

/-- The effect of an action on a sku. -/
def sku : ProductAction → Option String → Option String
  | .setSku _ sku, _ => sku
  | _, s => s

/-- Sets an attribute, or unsets it when there is no value. -/
def writeAttribute (name : String) (value : Option Json) (m : SortedMap String Json) :
    SortedMap String Json :=
  match value with
  | some j => m.insert name j
  | none => m.erase name

/-- The effect of an action on attributes. -/
def attributes : ProductAction → SortedMap String Json → SortedMap String Json
  | .setAttribute _ name value, m => writeAttribute name value m
  | .setAttributeInAllVariants name value, m => writeAttribute name value m
  | _, m => m

/-- The effect of an action on a list of images: additions are appended, and a move takes the
    image out before it counts positions. -/
def images : ProductAction → List Image → List Image
  | .removeImage _ url, is => is.eraseP fun i => i.url == url
  | .addExternalImage _ image, is => is ++ [image]
  | .moveImageToPosition _ url n, is => moveFirst (fun i => i.url == url) n is
  | .setImageLabel _ url label, is =>
    changeFirst (fun i => i.url == url) (fun i => { i with label }) is
  | _, is => is

/-- A changed price keeps its id and is otherwise replaced. -/
def prices : ProductAction → List Price → List Price
  | .removePrice id, ps => ps.eraseP fun p => p.id == some id
  | .changePrice id price, ps =>
    changeFirst (fun p => p.id == some id) (fun p => { price with id := p.id }) ps
  | .addPrice _ price, ps => ps ++ [price]
  | _, ps => ps

/-- Puts an asset behind the first `n` assets that have a key. -/
def insertKeyed : Nat → Asset → List Asset → List Asset
  | _, a, [] => [a]
  | 0, a, x :: xs => a :: x :: xs
  | n + 1, a, x :: xs => x :: insertKeyed (if x.key.isSome then n else n + 1) a xs

/-- Puts the given assets one after the other into the places of the assets that have a key. -/
def fillKeyed : List Asset → List Asset → List Asset
  | _, [] => []
  | [], xs => xs
  | a :: as, x :: xs => if x.key.isSome then a :: fillKeyed as xs else x :: fillKeyed (a :: as) xs

/-- Rearranges the assets that have a key: those listed first, in the order of the list. -/
def orderKeyed (order : List String) (xs : List Asset) : List Asset :=
  let keyed := xs.filter fun a => a.key.isSome
  let first := order.filterMap fun k => keyed.find? fun a => a.key == some k
  fillKeyed (first ++ keyed.filter fun a => !a.key.any order.contains) xs

/-- The effect of an action on a list of assets, in which those without a key keep their places.
    -/
def assets : ProductAction → List Asset → List Asset
  | .removeAsset _ key, xs => xs.eraseP fun a => a.key == some key
  | .changeAssetName _ key name, xs =>
    changeFirst (fun a => a.key == some key) (fun a => { a with name }) xs
  | .setAssetSources _ key sources, xs =>
    changeFirst (fun a => a.key == some key) (fun a => { a with sources }) xs
  | .addAsset _ asset n, xs => insertKeyed n asset xs
  | .changeAssetOrder _ order, xs => orderKeyed order xs
  | _, xs => xs

/-- The variant that an action names by id. -/
def target? : ProductAction → Option UInt32
  | .setSku id _ => some id
  | .setAttribute id _ _ => some id
  | .addExternalImage id _ => some id
  | .removeImage id _ => some id
  | .moveImageToPosition id _ _ => some id
  | .setImageLabel id _ _ => some id
  | .addPrice id _ => some id
  | .addAsset id _ _ => some id
  | .removeAsset id _ => some id
  | .changeAssetName id _ _ => some id
  | .setAssetSources id _ _ => some id
  | .changeAssetOrder id _ => some id
  | _ => none

/-- The effect of an action on a variant: none if the action names another one. -/
def variant (a : ProductAction) (v : Variant) : Variant :=
  if (target? a).all (· == v.id) then
    { v with
      sku := sku a v.sku
      attributes := attributes a v.attributes
      images := images a v.images
      prices := prices a v.prices
      assets := assets a v.assets }
  else v

end CatalogSync.Edit
