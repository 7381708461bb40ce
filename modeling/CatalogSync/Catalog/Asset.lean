import CatalogSync.Catalog.LocalizedText

/- Assets of a variant: named media with their sources. Assets are told apart by their keys, and
   one without a key cannot be addressed. -/
namespace CatalogSync

/-- Where the media of an asset is found. -/
structure AssetSource where
  uri : String
  key : Option String
deriving DecidableEq, Repr, Inhabited

instance : JsonForm AssetSource where
  write s := Json.record [("uri", some (write s.uri)), ("key", s.key.map write)]
  read? j := do
    let ms ← j.record? ["uri", "key"]
    let uri ← ms.required "uri"
    let key ← ms.optional "key"
    some ⟨uri, key⟩

/-- An asset; its sources are listed in order of preference. -/
structure Asset where
  key : Option String
  name : LocalizedText
  sources : List AssetSource
deriving DecidableEq, Repr, Inhabited

namespace Asset

def of (key : String) (name : LocalizedText) : Asset := ⟨some key, name, []⟩

/-- Appends a source without a key. -/
def withSource (a : Asset) (uri : String) : Asset :=
  { a with sources := a.sources ++ [⟨uri, none⟩] }

instance : JsonForm Asset where
  write a := Json.record [
    ("key", a.key.map write),
    ("name", some (write a.name)),
    ("sources", some (write a.sources))]
  read? j := do
    let ms ← j.record? ["key", "name", "sources"]
    let key ← ms.optional "key"
    let name ← ms.required "name"
    let sources ← ms.defaulted "sources" []
    some ⟨key, name, sources⟩

end Asset

end CatalogSync
