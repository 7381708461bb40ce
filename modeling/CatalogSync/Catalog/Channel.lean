import CatalogSync.Catalog.LocalizedText
import CatalogSync.Catalog.ResourceId

/- Channels: flat resources with a name, a description and a list of roles that stands for a set.
   -/
namespace CatalogSync

/-- What a channel is used for. -/
inductive ChannelRole where
  | inventorySupply
  | productDistribution
  | orderExport
  | orderImport
  | primary
deriving DecidableEq, Repr, Inhabited

namespace ChannelRole

def all : List ChannelRole :=
  [.inventorySupply, .productDistribution, .orderExport, .orderImport, .primary]

/-- The name of a role in JSON. -/
def label : ChannelRole → String
  | .inventorySupply => "InventorySupply"
  | .productDistribution => "ProductDistribution"
  | .orderExport => "OrderExport"
  | .orderImport => "OrderImport"
  | .primary => "Primary"

def ofLabel? (s : String) : Option ChannelRole := all.find? fun r => r.label == s

theorem ofLabel?_label (r : ChannelRole) : ofLabel? r.label = some r := by cases r <;> rfl

instance : JsonForm ChannelRole where
  write r := .str r.label
  read? j := j.label?.bind ofLabel?

instance : LawfulJsonForm ChannelRole := ⟨ofLabel?_label⟩

end ChannelRole

/-- The wanted state of a channel. -/
structure ChannelDraft where
  key : Option String
  name : Option LocalizedText
  description : Option LocalizedText
  roles : List ChannelRole
deriving DecidableEq, Repr, Inhabited

namespace ChannelDraft

def ofKey (key : String) : ChannelDraft := ⟨some key, none, none, []⟩

def withName (d : ChannelDraft) (name : LocalizedText) : ChannelDraft :=
  { d with name := some name }

def withDescription (d : ChannelDraft) (text : LocalizedText) : ChannelDraft :=
  { d with description := some text }

def withRoles (d : ChannelDraft) (roles : List ChannelRole) : ChannelDraft := { d with roles }

instance : JsonForm ChannelDraft where
  write d := Json.record [
    ("key", d.key.map write),
    ("name", d.name.map write),
    ("description", d.description.map write),
    ("roles", some (write d.roles))]
  read? j := do
    let ms ← j.record? ["key", "name", "description", "roles"]
    let key ← ms.optional "key"
    let name ← ms.optional "name"
    let description ← ms.optional "description"
    let roles ← ms.defaulted "roles" []
    some ⟨key, name, description, roles⟩

end ChannelDraft

/-- A channel as it is stored. -/
structure Channel where
  id : ResourceId
  version : UInt64
  key : String
  name : Option LocalizedText
  description : Option LocalizedText
  roles : List ChannelRole
deriving DecidableEq, Repr, Inhabited

namespace Channel

/-- What is stored for a draft when it is created: version 1, and an empty key if it has none. -/
def ofDraft (id : ResourceId) (d : ChannelDraft) : Channel :=
  ⟨id, 1, d.key.getD "", d.name, d.description, d.roles⟩

/-- The channel at its next version. -/
def bumpVersion (c : Channel) : Channel := { c with version := c.version + 1 }

instance : JsonForm Channel where
  write c := Json.record [
    ("id", some (write c.id)),
    ("version", some (write c.version)),
    ("key", some (write c.key)),
    ("name", c.name.map write),
    ("description", c.description.map write),
    ("roles", some (write c.roles))]
  read? j := do
    let ms ← j.record? ["id", "version", "key", "name", "description", "roles"]
    let id ← ms.required "id"
    let version ← ms.required "version"
    let key ← ms.required "key"
    let name ← ms.optional "name"
    let description ← ms.optional "description"
    let roles ← ms.defaulted "roles" []
    some ⟨id, version, key, name, description, roles⟩

end Channel

end CatalogSync
