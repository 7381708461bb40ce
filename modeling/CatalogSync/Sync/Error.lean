/- Errors of a sync: what a service can answer instead of a result, and what is wrong with
   options. -/
namespace CatalogSync

/-- What can go wrong in a call of a service or with the options, each with a text of its own. -/
inductive SyncError where
  /-- The entity has changed since it was read. -/
  | concurrentModification (text : String)
  | notFound (text : String)
  /-- The service refused the request. -/
  | remote (text : String)
  | network (text : String)
  /-- Data could not be read or written; the text is the one of the error that the reader gave. -/
  | serialization (text : String)
  | invalidOptions (text : String)
deriving DecidableEq, Repr, Inhabited

namespace SyncError

def label : SyncError → String
  | .concurrentModification _ => "ConcurrentModification"
  | .notFound _ => "NotFound"
  | .remote _ => "Remote"
  | .network _ => "Network"
  | .serialization _ => "Serialization"
  | .invalidOptions _ => "InvalidOptions"

/-- The error with a given label and text. A serialization error is not made from a text alone: it
    wraps the error of a reader. -/
def ofLabel? : String → Option (String → SyncError)
  | "ConcurrentModification" => some .concurrentModification
  | "NotFound" => some .notFound
  | "Remote" => some .remote
  | "Network" => some .network
  | "InvalidOptions" => some .invalidOptions
  | _ => none

/-- The text that is shown for an error. -/
def message : SyncError → String
  | .concurrentModification text => "concurrent modification: " ++ text
  | .notFound text => "not found: " ++ text
  | .remote text => "remote error: " ++ text
  | .network text => "network error: " ++ text
  | .serialization text => "serialization error: " ++ text
  | .invalidOptions text => "invalid options: " ++ text

/-- The update was based on an outdated version, so it may be tried again on a fresh one. -/
def isConcurrentModification : SyncError → Bool
  | .concurrentModification _ => true
  | _ => false

end SyncError

end CatalogSync
