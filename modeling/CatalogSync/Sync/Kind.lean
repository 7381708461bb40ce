import CatalogSync.Diff.Product
import CatalogSync.Diff.Channel
import CatalogSync.Sync.Config

/- The kinds of resources that can be synced. A kind names its drafts, stored entities and actions
   and says how to read keys, compare drafts, plan an update and store a new entity. The sync
   itself is written once, for every kind. -/
namespace CatalogSync

/-- What a sync has to know of a kind of resources. -/
structure Kind where
  Draft : Type
  Entity : Type
  Action : Type
  /-- The singular in lower case, as in `product`. -/
  name : String
  plural : String
  /-- What a draft is called in messages. -/
  draftName : String
  same : Draft → Draft → Bool
  draftKey : Draft → Option String
  /-- How a draft without a key is called in messages. -/
  displayName : Draft → String
  /-- The keys within a draft that occur more than once; a draft with any is refused. -/
  repeatedKeys : Draft → List String
  entityKey : Entity → Option String
  entityVersion : Entity → UInt64
  actionName : Action → String
  plan : Config → Entity → Draft → Plan Action
  /-- What is stored when a draft is created. -/
  store : ResourceId → Draft → Entity
  bumpVersion : Entity → Entity

namespace Kind

/-- Products, with variants that are matched by key. -/
@[reducible] def product : Kind where
  Draft := ProductDraft
  Entity := Product
  Action := ProductAction
  name := "product"
  plural := "products"
  draftName := "ProductDraft"
  same := (· == ·)
  draftKey d := d.key
  displayName d := d.name.display
  repeatedKeys d := d.repeatedVariantKeys.toList
  entityKey p := p.key
  entityVersion p := p.version
  actionName a := a.name
  plan c := Diff.productPlan c.context
  store := Product.ofDraft
  bumpVersion := Product.bumpVersion

/-- Channels; their diffs never meet a problem, and the settings do not bear on them. -/
@[reducible] def channel : Kind where
  Draft := ChannelDraft
  Entity := Channel
  Action := ChannelAction
  name := "channel"
  plural := "channels"
  draftName := "ChannelDraft"
  same := (· == ·)
  draftKey d := d.key
  displayName d := (d.name.map LocalizedText.display).getD "null"
  repeatedKeys _ := []
  entityKey c := some c.key
  entityVersion c := c.version
  actionName a := a.name
  plan _ old new := Plan.clean (Diff.channelActions old new)
  store := Channel.ofDraft
  bumpVersion := Channel.bumpVersion

/-- Why a draft with a key is refused, if it is: keys occur more than once within it. -/
def refusal? (K : Kind) (d : K.Draft) : Option String :=
  match K.repeatedKeys d with
  | [] => none
  | keys => some (K.draftName ++ " with key: '" ++ (K.draftKey d).getD "" ++
      "' has duplicated variant keys: [" ++ String.intercalate ", " keys ++ "].")

end Kind

end CatalogSync
