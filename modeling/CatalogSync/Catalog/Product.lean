import CatalogSync.Catalog.Variant
import CatalogSync.Catalog.ResourceId

/- Products. A draft says what a product should be: its details, whether it should be published,
   its master variant and the other variants, among which incoming data may hold nulls. A product
   is what is stored: the same details, with an id, a version, the publication flags and at least
   a master variant. -/
namespace CatalogSync

/-- What a draft says of a product apart from publication and variants, and what is stored of it.
    -/
structure ProductDetails where
  key : Option String
  name : LocalizedText
  slug : LocalizedText
  description : Option LocalizedText
  metaTitle : Option LocalizedText
  metaDescription : Option LocalizedText
  metaKeywords : Option LocalizedText
  searchKeywords : Option (SortedMap String (List String))
  categories : List Reference
  categoryOrderHints : Option (SortedMap String String)
  taxCategory : Option Reference
  state : Option Reference
deriving DecidableEq, Repr, Inhabited

namespace ProductDetails

/-- The details of a product with a key, a name and a slug. -/
def of (key : String) (name slug : LocalizedText) : ProductDetails :=
  ⟨some key, name, slug, none, none, none, none, none, [], none, none, none⟩

/-- The names of the members that drafts and products have in common, in their order. -/
def memberNames : List String :=
  ["key", "name", "slug", "description", "meta_title", "meta_description", "meta_keywords",
   "search_keywords", "categories", "category_order_hints", "tax_category", "state"]

/-- The members of the details in the JSON form of drafts and products. -/
def fields (d : ProductDetails) : List (String × Option Json) := [
  ("key", d.key.map write),
  ("name", some (write d.name)),
  ("slug", some (write d.slug)),
  ("description", d.description.map write),
  ("meta_title", d.metaTitle.map write),
  ("meta_description", d.metaDescription.map write),
  ("meta_keywords", d.metaKeywords.map write),
  ("search_keywords", d.searchKeywords.map write),
  ("categories", some (write d.categories)),
  ("category_order_hints", d.categoryOrderHints.map write),
  ("tax_category", d.taxCategory.map write),
  ("state", d.state.map write)]

theorem map_fst_fields (d : ProductDetails) : d.fields.map (·.1) = memberNames := rfl

/-- Reads the details from the members of a draft or a product. -/
def ofMembers? (ms : Json.Members) : Option ProductDetails := do
  let key ← ms.optional "key"
  let name ← ms.required "name"
  let slug ← ms.required "slug"
  let description ← ms.optional "description"
  let metaTitle ← ms.optional "meta_title"
  let metaDescription ← ms.optional "meta_description"
  let metaKeywords ← ms.optional "meta_keywords"
  let searchKeywords ← ms.optional "search_keywords"
  let categories ← ms.defaulted "categories" []
  let categoryOrderHints ← ms.optional "category_order_hints"
  let taxCategory ← ms.optional "tax_category"
  let state ← ms.optional "state"
  some ⟨key, name, slug, description, metaTitle, metaDescription, metaKeywords, searchKeywords,
    categories, categoryOrderHints, taxCategory, state⟩

end ProductDetails

/-- The wanted state of a product; a publication flag that is not given counts as false. -/
structure ProductDraft extends ProductDetails where
  publish : Option Bool
  masterVariant : Option VariantDraft
  variants : List (Option VariantDraft)
deriving BEq, Repr, Inhabited

namespace ProductDraft

/-- A draft with a key, a name and a slug, and without variants. -/
def of (key : String) (name slug : LocalizedText) : ProductDraft :=
  ⟨ProductDetails.of key name slug, none, none, []⟩

def withMasterVariant (d : ProductDraft) (v : VariantDraft) : ProductDraft :=
  { d with masterVariant := some v }

def withVariant (d : ProductDraft) (v : VariantDraft) : ProductDraft :=
  { d with variants := d.variants ++ [some v] }

def withCategory (d : ProductDraft) (category : Reference) : ProductDraft :=
  { d with categories := d.categories ++ [category] }

def withPublish (d : ProductDraft) (publish : Bool) : ProductDraft :=
  { d with publish := some publish }

/-- The entries for the master variant and the other variants, in this order. -/
def allVariants (d : ProductDraft) : List (Option VariantDraft) := d.masterVariant :: d.variants

/-- The keys of the variants that have one, the master first. -/
def variantKeys (d : ProductDraft) : List String := d.allVariants.filterMap fun v => v.bind (·.key)

/-- One step through a list of keys: the keys met so far, and those that were met again. -/
def meetKey (met : SortedSet String × SortedSet String) (key : String) :
    SortedSet String × SortedSet String :=
  if met.1.contains key then (met.1, met.2.insert key) else (met.1.insert key, met.2)

/-- The variant keys that occur more than once, in ascending order. -/
def repeatedVariantKeys (d : ProductDraft) : SortedSet String :=
  (d.variantKeys.foldl meetKey (.empty, .empty)).2

instance : JsonForm ProductDraft where
  write d := Json.record (d.fields ++ [
    ("publish", d.publish.map write),
    ("master_variant", d.masterVariant.map write),
    ("variants", some (write d.variants))])
  read? j := do
    let ms ← j.record? (ProductDetails.memberNames ++ ["publish", "master_variant", "variants"])
    let details ← ProductDetails.ofMembers? ms
    let publish ← ms.optional "publish"
    let masterVariant ← ms.optional "master_variant"
    let variants ← ms.defaulted "variants" []
    some ⟨details, publish, masterVariant, variants⟩

end ProductDraft

/-- A product as it is stored. -/
structure Product extends ProductDetails where
  id : ResourceId
  version : UInt64
  published : Bool
  hasStagedChanges : Bool
  masterVariant : Variant
  variants : List Variant
deriving BEq, Repr, Inhabited

namespace Product

/-- Gives the drafts ids that count up from `n`. -/
def numbered : UInt32 → List VariantDraft → List Variant
  | _, [] => []
  | n, d :: ds => Variant.ofDraft n d :: numbered (n + 1) ds

/-- What is stored for a draft when it is created: version 1, the master variant, which is empty
    if the draft has none, under id 1, and the other variants that are not null under the ids from
    2. -/
def ofDraft (id : ResourceId) (d : ProductDraft) : Product where
  toProductDetails := d.toProductDetails
  id := id
  version := 1
  published := d.publish.getD false
  hasStagedChanges := false
  masterVariant := Variant.ofDraft 1 (d.masterVariant.getD .empty)
  variants := numbered 2 (d.variants.filterMap fun v => v)

/-- The master variant and the other variants, in this order. -/
def allVariants (p : Product) : List Variant := p.masterVariant :: p.variants

/-- The product at its next version. -/
def bumpVersion (p : Product) : Product := { p with version := p.version + 1 }

instance : JsonForm Product where
  write p := Json.record (p.fields ++ [
    ("id", some (write p.id)),
    ("version", some (write p.version)),
    ("published", some (write p.published)),
    ("has_staged_changes", some (write p.hasStagedChanges)),
    ("master_variant", some (write p.masterVariant)),
    ("variants", some (write p.variants))])
  read? j := do
    let ms ← j.record? (["id", "version"] ++ ProductDetails.memberNames ++
      ["published", "has_staged_changes", "master_variant", "variants"])
    let details ← ProductDetails.ofMembers? ms
    let id ← ms.required "id"
    let version ← ms.required "version"
    let published ← ms.defaulted "published" false
    let hasStagedChanges ← ms.defaulted "has_staged_changes" false
    let masterVariant ← ms.required "master_variant"
    let variants ← ms.defaulted "variants" []
    some ⟨details, id, version, published, hasStagedChanges, masterVariant, variants⟩

end Product

end CatalogSync
