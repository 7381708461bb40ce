import CatalogSync.Json.Form

/- Images of a variant, told apart by their urls. -/
namespace CatalogSync

/-- Width and height of an image in pixels. -/
structure ImageDimensions where
  w : UInt32
  h : UInt32
deriving DecidableEq, Repr, Inhabited

instance : JsonForm ImageDimensions where
  write d := Json.record [("w", some (write d.w)), ("h", some (write d.h))]
  read? j := do
    let ms ← j.record? ["w", "h"]
    let w ← ms.required "w"
    let h ← ms.required "h"
    some ⟨w, h⟩

/-- An image at a url. -/
structure Image where
  url : String
  dimensions : Option ImageDimensions
  label : Option String
deriving DecidableEq, Repr, Inhabited

namespace Image

def of (url : String) : Image := ⟨url, none, none⟩

instance : JsonForm Image where
  write i := Json.record [
    ("url", some (write i.url)),
    ("dimensions", i.dimensions.map write),
    ("label", i.label.map write)]
  read? j := do
    let ms ← j.record? ["url", "dimensions", "label"]
    let url ← ms.required "url"
    let dimensions ← ms.optional "dimensions"
    let label ← ms.optional "label"
    some ⟨url, dimensions, label⟩

end Image

end CatalogSync
