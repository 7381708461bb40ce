import CatalogSync.Sync.Validation

/- Events: the problems that a sync reports, each with what was known where it arose. -/
namespace CatalogSync

/-- How serious an event is. -/
inductive Severity where
  | error
  | warning
deriving DecidableEq, Repr, Inhabited

def Severity.label : Severity → String
  | .error => "error"
  | .warning => "warning"

/-- A reported problem: its message, and as far as they were known the error, the stored entity,
    the draft and the actions that were to be sent. -/
structure Event (K : Kind) where
  severity : Severity
  message : String
  error : Option SyncError
  oldEntity : Option K.Entity
  draft : Option K.Draft
  actions : List K.Action

namespace Event

variable {K : Kind}

/-- An event of which only the message is known. -/
def of (severity : Severity) (message : String) : Event K :=
  ⟨severity, message, none, none, none, []⟩

def isError (e : Event K) : Bool := e.severity = .error

/-- A draft was rejected by the validation. -/
def rejected (r : Rejection K) : Event K := { of .error r.message with draft := r.draft? }

/-- The diff met a problem. -/
def issue (existing : K.Entity) (draft : K.Draft) (i : Issue) : Event K :=
  { of .error i.message with oldEntity := some existing, draft := some draft }

/-- The entities with the keys of a batch could not be fetched. -/
def fetchFailed (keys : SortedSet String) (error : SyncError) : Event K :=
  { of .error ("Failed to fetch existing " ++ K.plural ++ " with keys: '[" ++
      String.intercalate ", " keys.toList ++ "]'.") with error := some error }

/-- A draft could not be created. -/
def createFailed (draft : K.Draft) (error : SyncError) : Event K :=
  { of .error ("Failed to create " ++ K.name ++ " with key: '" ++ (K.draftKey draft).getD "" ++
      "'. Reason: " ++ error.message) with error := some error, draft := some draft }

def updateMessage (K : Kind) (draft : K.Draft) (reason : String) : String :=
  "Failed to update " ++ K.name ++ " with key: '" ++ (K.draftKey draft).getD "" ++
    "'. Reason: " ++ reason

/-- An update failed for good. -/
def updateFailed (existing : K.Entity) (draft : K.Draft) (actions : List K.Action)
    (error : SyncError) : Event K :=
  ⟨.error, updateMessage K draft error.message, some error, some existing, some draft, actions⟩

/-- The entity could not be fetched for the second try of an update. -/
def retryFetchFailed (stale : K.Entity) (draft : K.Draft) (error : SyncError) : Event K :=
  ⟨.error, updateMessage K draft
      "Failed to fetch from the remote while retrying after concurrency modification.",
    some error, some stale, some draft, []⟩

/-- The entity was gone when it was fetched for the second try of an update. -/
def retryNotFound (stale : K.Entity) (draft : K.Draft) : Event K :=
  ⟨.error, updateMessage K draft
      "Not found when attempting to fetch while retrying after concurrency modification.",
    none, some stale, some draft, []⟩

end Event

end CatalogSync
