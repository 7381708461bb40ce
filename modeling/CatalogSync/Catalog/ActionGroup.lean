import CatalogSync.Json.Form

/- Groups of product actions. A caller that wants to sync a part of a product, say its prices,
   names the groups it cares about; the order of the groups is the order in which sets of them are
   written. -/
namespace CatalogSync

/-- A part of a product that is synced, or left alone, as a whole. -/
inductive ActionGroup where
  | name
  | description
  | slug
  | searchKeywords
  | metaTitle
  | metaDescription
  | metaKeywords
  | taxCategory
  | state
  | categories
  | categoryOrderHints
  | variants
  | attributes
  | images
  | prices
  | assets
  | sku
  | publish
deriving DecidableEq, Repr, Inhabited

namespace ActionGroup

def all : List ActionGroup :=
  [.name, .description, .slug, .searchKeywords, .metaTitle, .metaDescription, .metaKeywords,
   .taxCategory, .state, .categories, .categoryOrderHints, .variants, .attributes, .images, .prices,
   .assets, .sku, .publish]

/-- The place of a group in their order. -/
def rank : ActionGroup → Nat
  | .name => 0
  | .description => 1
  | .slug => 2
  | .searchKeywords => 3
  | .metaTitle => 4
  | .metaDescription => 5
  | .metaKeywords => 6
  | .taxCategory => 7
  | .state => 8
  | .categories => 9
  | .categoryOrderHints => 10
  | .variants => 11
  | .attributes => 12
  | .images => 13
  | .prices => 14
  | .assets => 15
  | .sku => 16
  | .publish => 17

theorem rank_injective {a b : ActionGroup} (h : a.rank = b.rank) : a = b := by
  cases a <;> cases b <;> first | rfl | contradiction

instance : LT ActionGroup := ⟨fun a b => a.rank < b.rank⟩

theorem lt_def {a b : ActionGroup} : a < b ↔ a.rank < b.rank := Iff.rfl

instance : DecidableLT ActionGroup := fun a b => inferInstanceAs (Decidable (a.rank < b.rank))

instance : LinearKey ActionGroup where
  irrefl a := Nat.lt_irrefl a.rank
  trans := Nat.lt_trans
  total a b := by
    rcases Nat.lt_trichotomy a.rank b.rank with h | h | h
    · exact Or.inl h
    · exact Or.inr (Or.inl (rank_injective h))
    · exact Or.inr (Or.inr h)

/-- The name of a group in JSON. -/
def label : ActionGroup → String
  | .name => "NAME"
  | .description => "DESCRIPTION"
  | .slug => "SLUG"
  | .searchKeywords => "SEARCH_KEYWORDS"
  | .metaTitle => "META_TITLE"
  | .metaDescription => "META_DESCRIPTION"
  | .metaKeywords => "META_KEYWORDS"
  | .taxCategory => "TAX_CATEGORY"
  | .state => "STATE"
  | .categories => "CATEGORIES"
  | .categoryOrderHints => "CATEGORY_ORDER_HINTS"
  | .variants => "VARIANTS"
  | .attributes => "ATTRIBUTES"
  | .images => "IMAGES"
  | .prices => "PRICES"
  | .assets => "ASSETS"
  | .sku => "SKU"
  | .publish => "PUBLISH"

def ofLabel? (s : String) : Option ActionGroup := all.find? fun g => g.label == s

theorem ofLabel?_label (g : ActionGroup) : ofLabel? g.label = some g := by cases g <;> rfl

instance : JsonForm ActionGroup where
  write g := .str g.label
  read? j := j.label?.bind ofLabel?

instance : LawfulJsonForm ActionGroup := ⟨ofLabel?_label⟩

end ActionGroup

end CatalogSync
