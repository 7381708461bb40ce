import CatalogSync.Catalog.Variant
import CatalogSync.Catalog.ActionGroup

/- Update actions on products. An action is one named instruction; a list of them is sent in a
   single update and applied in sequence. In JSON an action is an object whose member `action`
   holds its name; optional fields are written as null when absent, and may be missing when read.
   An array of the name and then every field in its order is read, too. -/
namespace CatalogSync

/-- What an action does: its name without the fields. -/
inductive ProductVerb where
  | changeName
  | setDescription
  | changeSlug
  | setSearchKeywords
  | setMetaTitle
  | setMetaDescription
  | setMetaKeywords
  | setTaxCategory
  | transitionState
  | addToCategory
  | removeFromCategory
  | setCategoryOrderHint
  | addVariant
  | removeVariant
  | changeMasterVariant
  | setSku
  | setAttribute
  | setAttributeInAllVariants
  | addExternalImage
  | removeImage
  | moveImageToPosition
  | setImageLabel
  | addPrice
  | changePrice
  | removePrice
  | addAsset
  | removeAsset
  | changeAssetName
  | setAssetSources
  | changeAssetOrder
  | publish
  | unpublish
deriving DecidableEq, Repr, Inhabited

namespace ProductVerb

def all : List ProductVerb :=
  [.changeName, .setDescription, .changeSlug, .setSearchKeywords, .setMetaTitle,
   .setMetaDescription, .setMetaKeywords, .setTaxCategory, .transitionState, .addToCategory,
   .removeFromCategory, .setCategoryOrderHint, .addVariant, .removeVariant, .changeMasterVariant,
   .setSku, .setAttribute, .setAttributeInAllVariants, .addExternalImage, .removeImage,
   .moveImageToPosition, .setImageLabel, .addPrice, .changePrice, .removePrice, .addAsset,
   .removeAsset, .changeAssetName, .setAssetSources, .changeAssetOrder, .publish, .unpublish]

/-- The name as it is sent. -/
def label : ProductVerb → String
  | .changeName => "changeName"
  | .setDescription => "setDescription"
  | .changeSlug => "changeSlug"
  | .setSearchKeywords => "setSearchKeywords"
  | .setMetaTitle => "setMetaTitle"
  | .setMetaDescription => "setMetaDescription"
  | .setMetaKeywords => "setMetaKeywords"
  | .setTaxCategory => "setTaxCategory"
  | .transitionState => "transitionState"
  | .addToCategory => "addToCategory"
  | .removeFromCategory => "removeFromCategory"
  | .setCategoryOrderHint => "setCategoryOrderHint"
  | .addVariant => "addVariant"
  | .removeVariant => "removeVariant"
  | .changeMasterVariant => "changeMasterVariant"
  | .setSku => "setSku"
  | .setAttribute => "setAttribute"
  | .setAttributeInAllVariants => "setAttributeInAllVariants"
  | .addExternalImage => "addExternalImage"
  | .removeImage => "removeImage"
  | .moveImageToPosition => "moveImageToPosition"
  | .setImageLabel => "setImageLabel"
  | .addPrice => "addPrice"
  | .changePrice => "changePrice"
  | .removePrice => "removePrice"
  | .addAsset => "addAsset"
  | .removeAsset => "removeAsset"
  | .changeAssetName => "changeAssetName"
  | .setAssetSources => "setAssetSources"
  | .changeAssetOrder => "changeAssetOrder"
  | .publish => "publish"
  | .unpublish => "unpublish"

def ofLabel? (s : String) : Option ProductVerb := all.find? fun v => v.label == s

theorem ofLabel?_label (v : ProductVerb) : ofLabel? v.label = some v := by cases v <;> rfl

/-- The names of the fields of an action, in their order. -/
def fieldNames : ProductVerb → List String
  | .changeName => ["name"]
  | .setDescription => ["description"]
  | .changeSlug => ["slug"]
  | .setSearchKeywords => ["searchKeywords"]
  | .setMetaTitle => ["metaTitle"]
  | .setMetaDescription => ["metaDescription"]
  | .setMetaKeywords => ["metaKeywords"]
  | .setTaxCategory => ["taxCategory"]
  | .transitionState => ["state", "force"]
  | .addToCategory => ["category"]
  | .removeFromCategory => ["category"]
  | .setCategoryOrderHint => ["categoryId", "orderHint"]
  | .addVariant => ["key", "sku", "attributes", "prices", "images", "assets"]
  | .removeVariant => ["variantId"]
  | .changeMasterVariant => ["sku"]
  | .setSku => ["variantId", "sku"]
  | .setAttribute => ["variantId", "name", "value"]
  | .setAttributeInAllVariants => ["name", "value"]
  | .addExternalImage => ["variantId", "image"]
  | .removeImage => ["variantId", "imageUrl"]
  | .moveImageToPosition => ["variantId", "imageUrl", "position"]
  | .setImageLabel => ["variantId", "imageUrl", "label"]
  | .addPrice => ["variantId", "price"]
  | .changePrice => ["priceId", "price"]
  | .removePrice => ["priceId"]
  | .addAsset => ["variantId", "asset", "position"]
  | .removeAsset => ["variantId", "assetKey"]
  | .changeAssetName => ["variantId", "assetKey", "name"]
  | .setAssetSources => ["variantId", "assetKey", "sources"]
  | .changeAssetOrder => ["variantId", "assetOrder"]
  | .publish => []
  | .unpublish => []

end ProductVerb

/-- An instruction to change a product. Variants are named by id, images by url, prices by id and
    assets by key. -/
inductive ProductAction where
  | changeName (name : LocalizedText)
  | setDescription (description : Option LocalizedText)
  | changeSlug (slug : LocalizedText)
  | setSearchKeywords (keywords : Option (SortedMap String (List String)))
  | setMetaTitle (text : Option LocalizedText)
  | setMetaDescription (text : Option LocalizedText)
  | setMetaKeywords (text : Option LocalizedText)
  | setTaxCategory (category : Option Reference)
  /-- Moves to a workflow state; `force` skips the check of the transition. -/
  | transitionState (state : Reference) (force : Bool)
  | addToCategory (category : Reference)
  | removeFromCategory (category : Reference)
  /-- Without a hint, clears the one of the category. -/
  | setCategoryOrderHint (categoryId : String) (hint : Option String)
  | addVariant (content : VariantDraft)
  | removeVariant (variantId : UInt32)
  /-- Names the new master by sku, since it may have been added by the same list. -/
  | changeMasterVariant (sku : String)
  | setSku (variantId : UInt32) (sku : Option String)
  /-- Without a value, unsets the attribute. -/
  | setAttribute (variantId : UInt32) (name : String) (value : Option Json)
  | setAttributeInAllVariants (name : String) (value : Option Json)
  | addExternalImage (variantId : UInt32) (image : Image)
  | removeImage (variantId : UInt32) (url : String)
  | moveImageToPosition (variantId : UInt32) (url : String) (position : Nat)
  | setImageLabel (variantId : UInt32) (url : String) (label : Option String)
  | addPrice (variantId : UInt32) (price : Price)
  | changePrice (priceId : String) (price : Price)
  | removePrice (priceId : String)
  /-- The position counts the assets with a key. -/
  | addAsset (variantId : UInt32) (asset : Asset) (position : Nat)
  | removeAsset (variantId : UInt32) (key : String)
  | changeAssetName (variantId : UInt32) (key : String) (name : LocalizedText)
  | setAssetSources (variantId : UInt32) (key : String) (sources : List AssetSource)
  | changeAssetOrder (variantId : UInt32) (order : List String)
  | publish
  | unpublish
deriving BEq, Repr, Inhabited

namespace ProductAction

/-- What an action does, apart from its fields. -/
def verb : ProductAction → ProductVerb
  | .changeName _ => .changeName
  | .setDescription _ => .setDescription
  | .changeSlug _ => .changeSlug
  | .setSearchKeywords _ => .setSearchKeywords
  | .setMetaTitle _ => .setMetaTitle
  | .setMetaDescription _ => .setMetaDescription
  | .setMetaKeywords _ => .setMetaKeywords
  | .setTaxCategory _ => .setTaxCategory
  | .transitionState .. => .transitionState
  | .addToCategory _ => .addToCategory
  | .removeFromCategory _ => .removeFromCategory
  | .setCategoryOrderHint .. => .setCategoryOrderHint
  | .addVariant _ => .addVariant
  | .removeVariant _ => .removeVariant
  | .changeMasterVariant _ => .changeMasterVariant
  | .setSku .. => .setSku
  | .setAttribute .. => .setAttribute
  | .setAttributeInAllVariants .. => .setAttributeInAllVariants
  | .addExternalImage .. => .addExternalImage
  | .removeImage .. => .removeImage
  | .moveImageToPosition .. => .moveImageToPosition
  | .setImageLabel .. => .setImageLabel
  | .addPrice .. => .addPrice
  | .changePrice .. => .changePrice
  | .removePrice _ => .removePrice
  | .addAsset .. => .addAsset
  | .removeAsset .. => .removeAsset
  | .changeAssetName .. => .changeAssetName
  | .setAssetSources .. => .setAssetSources
  | .changeAssetOrder .. => .changeAssetOrder
  | .publish => .publish
  | .unpublish => .unpublish

/-- The name of the action as it is sent. -/
def name (a : ProductAction) : String := a.verb.label

/-- The group an action belongs to. -/
def group : ProductAction → ActionGroup
  | .changeName _ => .name
  | .setDescription _ => .description
  | .changeSlug _ => .slug
  | .setSearchKeywords _ => .searchKeywords
  | .setMetaTitle _ => .metaTitle
  | .setMetaDescription _ => .metaDescription
  | .setMetaKeywords _ => .metaKeywords
  | .setTaxCategory _ => .taxCategory
  | .transitionState .. => .state
  | .addToCategory _ => .categories
  | .removeFromCategory _ => .categories
  | .setCategoryOrderHint .. => .categoryOrderHints
  | .addVariant _ => .variants
  | .removeVariant _ => .variants
  | .changeMasterVariant _ => .variants
  | .setSku .. => .sku
  | .setAttribute .. => .attributes
  | .setAttributeInAllVariants .. => .attributes
  | .addExternalImage .. => .images
  | .removeImage .. => .images
  | .moveImageToPosition .. => .images
  | .setImageLabel .. => .images
  | .addPrice .. => .prices
  | .changePrice .. => .prices
  | .removePrice _ => .prices
  | .addAsset .. => .assets
  | .removeAsset .. => .assets
  | .changeAssetName .. => .assets
  | .setAssetSources .. => .assets
  | .changeAssetOrder .. => .assets
  | .publish => .publish
  | .unpublish => .publish

/-- The fields of an action in its JSON form. -/
def fields : ProductAction → List (String × Json)
  | .changeName name => [("name", write name)]
  | .setDescription description => [("description", write description)]
  | .changeSlug slug => [("slug", write slug)]
  | .setSearchKeywords keywords => [("searchKeywords", write keywords)]
  | .setMetaTitle text => [("metaTitle", write text)]
  | .setMetaDescription text => [("metaDescription", write text)]
  | .setMetaKeywords text => [("metaKeywords", write text)]
  | .setTaxCategory category => [("taxCategory", write category)]
  | .transitionState state force => [("state", write state), ("force", write force)]
  | .addToCategory category => [("category", write category)]
  | .removeFromCategory category => [("category", write category)]
  | .setCategoryOrderHint categoryId hint =>
    [("categoryId", write categoryId), ("orderHint", write hint)]
  | .addVariant v =>
    [("key", write v.key), ("sku", write v.sku), ("attributes", write v.attributes),
     ("prices", write v.prices), ("images", write v.images), ("assets", write v.assets)]
  | .removeVariant id => [("variantId", write id)]
  | .changeMasterVariant sku => [("sku", write sku)]
  | .setSku id sku => [("variantId", write id), ("sku", write sku)]
  | .setAttribute id name value =>
    [("variantId", write id), ("name", write name), ("value", write value)]
  | .setAttributeInAllVariants name value => [("name", write name), ("value", write value)]
  | .addExternalImage id image => [("variantId", write id), ("image", write image)]
  | .removeImage id url => [("variantId", write id), ("imageUrl", write url)]
  | .moveImageToPosition id url position =>
    [("variantId", write id), ("imageUrl", write url), ("position", write position)]
  | .setImageLabel id url label =>
    [("variantId", write id), ("imageUrl", write url), ("label", write label)]
  | .addPrice id price => [("variantId", write id), ("price", write price)]
  | .changePrice priceId price => [("priceId", write priceId), ("price", write price)]
  | .removePrice priceId => [("priceId", write priceId)]
  | .addAsset id asset position =>
    [("variantId", write id), ("asset", write asset), ("position", write position)]
  | .removeAsset id key => [("variantId", write id), ("assetKey", write key)]
  | .changeAssetName id key name =>
    [("variantId", write id), ("assetKey", write key), ("name", write name)]
  | .setAssetSources id key sources =>
    [("variantId", write id), ("assetKey", write key), ("sources", write sources)]
  | .changeAssetOrder id order => [("variantId", write id), ("assetOrder", write order)]
  | .publish => []
  | .unpublish => []

theorem map_fst_fields (a : ProductAction) : a.fields.map (·.1) = a.verb.fieldNames := by
  cases a <;> rfl

/-- Reads the fields of an action. -/
def ofFields? (ms : Json.Members) : ProductVerb → Option ProductAction
  | .changeName => do some (.changeName (← ms.required "name"))
  | .setDescription => do some (.setDescription (← ms.optional "description"))
  | .changeSlug => do some (.changeSlug (← ms.required "slug"))
  | .setSearchKeywords => do some (.setSearchKeywords (← ms.optional "searchKeywords"))
  | .setMetaTitle => do some (.setMetaTitle (← ms.optional "metaTitle"))
  | .setMetaDescription => do some (.setMetaDescription (← ms.optional "metaDescription"))
  | .setMetaKeywords => do some (.setMetaKeywords (← ms.optional "metaKeywords"))
  | .setTaxCategory => do some (.setTaxCategory (← ms.optional "taxCategory"))
  | .transitionState => do some (.transitionState (← ms.required "state") (← ms.required "force"))
  | .addToCategory => do some (.addToCategory (← ms.required "category"))
  | .removeFromCategory => do some (.removeFromCategory (← ms.required "category"))
  | .setCategoryOrderHint => do
    some (.setCategoryOrderHint (← ms.required "categoryId") (← ms.optional "orderHint"))
  | .addVariant => do
    let key ← ms.optional "key"
    let sku ← ms.optional "sku"
    let attributes ← ms.required "attributes"
    let prices ← ms.required "prices"
    let images ← ms.required "images"
    let assets ← ms.required "assets"
    some (.addVariant ⟨key, sku, attributes, images, prices, assets⟩)
  | .removeVariant => do some (.removeVariant (← ms.required "variantId"))
  | .changeMasterVariant => do some (.changeMasterVariant (← ms.required "sku"))
  | .setSku => do some (.setSku (← ms.required "variantId") (← ms.optional "sku"))
  | .setAttribute => do
    some (.setAttribute (← ms.required "variantId") (← ms.required "name") (← ms.optional "value"))
  | .setAttributeInAllVariants => do
    some (.setAttributeInAllVariants (← ms.required "name") (← ms.optional "value"))
  | .addExternalImage => do
    some (.addExternalImage (← ms.required "variantId") (← ms.required "image"))
  | .removeImage => do some (.removeImage (← ms.required "variantId") (← ms.required "imageUrl"))
  | .moveImageToPosition => do
    some (.moveImageToPosition (← ms.required "variantId") (← ms.required "imageUrl")
      (← ms.required "position"))
  | .setImageLabel => do
    some (.setImageLabel (← ms.required "variantId") (← ms.required "imageUrl")
      (← ms.optional "label"))
  | .addPrice => do some (.addPrice (← ms.required "variantId") (← ms.required "price"))
  | .changePrice => do some (.changePrice (← ms.required "priceId") (← ms.required "price"))
  | .removePrice => do some (.removePrice (← ms.required "priceId"))
  | .addAsset => do
    some (.addAsset (← ms.required "variantId") (← ms.required "asset") (← ms.required "position"))
  | .removeAsset => do some (.removeAsset (← ms.required "variantId") (← ms.required "assetKey"))
  | .changeAssetName => do
    some (.changeAssetName (← ms.required "variantId") (← ms.required "assetKey")
      (← ms.required "name"))
  | .setAssetSources => do
    some (.setAssetSources (← ms.required "variantId") (← ms.required "assetKey")
      (← ms.required "sources"))
  | .changeAssetOrder => do
    some (.changeAssetOrder (← ms.required "variantId") (← ms.required "assetOrder"))
  | .publish => some .publish
  | .unpublish => some .unpublish

instance : JsonForm ProductAction where
  write a := .obj (("action", .str a.name) :: a.fields)
  read?
    | .obj ms => do
      let verb ← ProductVerb.ofLabel? (← Json.Members.required ms "action")
      ofFields? ms verb
    | .arr (.str label :: xs) => do
      let verb ← ProductVerb.ofLabel? label
      ofFields? (← Json.positional? verb.fieldNames xs) verb
    | _ => none

/-- The action as it comes out of its JSON form: an attribute value of null is the same there as
    an absent one. -/
def normal : ProductAction → ProductAction
  | .setAttribute id name (some .null) => .setAttribute id name none
  | .setAttributeInAllVariants name (some .null) => .setAttributeInAllVariants name none
  | a => a

end ProductAction

end CatalogSync
