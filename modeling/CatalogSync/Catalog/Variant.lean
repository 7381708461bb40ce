import CatalogSync.Catalog.Price
import CatalogSync.Catalog.Image
import CatalogSync.Catalog.Asset

/- Variants of a product. A stored variant has the content of a draft and an id that is unique
   within its product. -/
namespace CatalogSync

/-- The wanted content of a variant. -/
structure VariantDraft where
  key : Option String
  sku : Option String
  attributes : SortedMap String Json
  images : List Image
  prices : List Price
  assets : List Asset
deriving BEq, Repr, Inhabited

namespace VariantDraft

/-- The draft without any content. -/
def empty : VariantDraft := ⟨none, none, .empty, [], [], []⟩

def ofKey (key : String) : VariantDraft := { empty with key := some key }

def withSku (v : VariantDraft) (sku : String) : VariantDraft := { v with sku := some sku }

def withAttribute (v : VariantDraft) (name : String) (value : Json) : VariantDraft :=
  { v with attributes := v.attributes.insert name value }

def withImage (v : VariantDraft) (image : Image) : VariantDraft :=
  { v with images := v.images ++ [image] }

def withPrice (v : VariantDraft) (price : Price) : VariantDraft :=
  { v with prices := v.prices ++ [price] }

def withAsset (v : VariantDraft) (asset : Asset) : VariantDraft :=
  { v with assets := v.assets ++ [asset] }

/-- The names of the members that drafts and stored variants have in common, in their order. -/
def memberNames : List String := ["key", "sku", "attributes", "images", "prices", "assets"]

/-- The members of the content in the JSON form of drafts and stored variants. -/
def fields (v : VariantDraft) : List (String × Option Json) := [
  ("key", v.key.map write),
  ("sku", v.sku.map write),
  ("attributes", some (write v.attributes)),
  ("images", some (write v.images)),
  ("prices", some (write v.prices)),
  ("assets", some (write v.assets))]

theorem map_fst_fields (v : VariantDraft) : v.fields.map (·.1) = memberNames := rfl

/-- Reads the content from the members of a draft or a stored variant. -/
def ofMembers? (ms : Json.Members) : Option VariantDraft := do
  let key ← ms.optional "key"
  let sku ← ms.optional "sku"
  let attributes ← ms.defaulted "attributes" .empty
  let images ← ms.defaulted "images" []
  let prices ← ms.defaulted "prices" []
  let assets ← ms.defaulted "assets" []
  some ⟨key, sku, attributes, images, prices, assets⟩

instance : JsonForm VariantDraft where
  write v := Json.record v.fields
  read? j := (j.record? memberNames).bind ofMembers?

end VariantDraft

/-- A variant as it is stored. -/
structure Variant extends VariantDraft where
  id : UInt32
deriving BEq, Repr, Inhabited

namespace Variant

/-- The stored form of a draft under an id. -/
def ofDraft (id : UInt32) (d : VariantDraft) : Variant := ⟨d, id⟩

instance : JsonForm Variant where
  write v := Json.record (("id", some (write v.id)) :: v.fields)
  read? j := do
    let ms ← j.record? ("id" :: VariantDraft.memberNames)
    let id ← ms.required "id"
    let content ← VariantDraft.ofMembers? ms
    some ⟨content, id⟩

end Variant

end CatalogSync
