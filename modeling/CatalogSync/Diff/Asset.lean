import CatalogSync.Catalog.ProductAction
import CatalogSync.Diff.Rules

/- Assets of a variant, told apart by their keys. Assets without a key are left alone, on either
   side, so positions count the keyed ones. Removals come first, then changes and additions in the
   order of the draft, and one reordering at the end if the order still differs. -/
namespace CatalogSync.Diff

/-- The assets that have a key, with it. -/
def keyedAssets (assets : List Asset) : List (String × Asset) :=
  assets.filterMap fun a => a.key.map (·, a)

/-- The changes of name and sources of an asset that both sides have. -/
def changeAssetActions (id : UInt32) (key : String) (old new : Asset) : List ProductAction :=
  whenChanged old.name new.name (.changeAssetName id key new.name) ++
    whenChanged old.sources new.sources (.setAssetSources id key new.sources)

/-- Changes and additions for the keyed assets of the draft from a position on, and the order of
    the keys `current` after them. -/
def placeAssets (id : UInt32) (old : List Asset) :
    Nat → List String → List (String × Asset) → List ProductAction × List String
  | _, current, [] => ([], current)
  | position, current, (key, asset) :: rest =>
    match old.find? fun a => a.key == some key with
    | some existing =>
      let (actions, order) := placeAssets id old (position + 1) current rest
      (changeAssetActions id key existing asset ++ actions, order)
    | none =>
      let (actions, order) :=
        placeAssets id old (position + 1) (current.insertIdx (min position current.length) key) rest
      (.addAsset id asset position :: actions, order)

/-- All actions on the assets of a variant. -/
def assetActions (old : Variant) (new : VariantDraft) : List ProductAction :=
  let oldKeys := (keyedAssets old.assets).map (·.1)
  let newKeys := (keyedAssets new.assets).map (·.1)
  let (placed, order) :=
    placeAssets old.id old.assets 0 (oldKeys.filter newKeys.contains) (keyedAssets new.assets)
  (oldKeys.filter fun key => !newKeys.contains key).map (.removeAsset old.id) ++ placed ++
    (if order = newKeys then [] else [.changeAssetOrder old.id newKeys])

end CatalogSync.Diff
