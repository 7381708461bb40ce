import CatalogSync.Sync.Options

/- The journal of a run: every call with its result, every use of a hook and every reported event,
   in order of occurrence. -/
namespace CatalogSync

/-- One occurrence in a run: a call and its result, the use of a hook and its result, or an event.
    -/
inductive Entry (K : Kind) where
  | fetchMatching (keys : SortedSet String) (result : Except SyncError (List K.Entity))
  | fetchByKey (key : String) (result : Except SyncError (Option K.Entity))
  | create (draft : K.Draft) (result : Except SyncError K.Entity)
  | update (entity : K.Entity) (actions : List K.Action) (result : Except SyncError K.Entity)
  | beforeCreate (draft : K.Draft) (result : Option K.Draft)
  | beforeUpdate (actions : List K.Action) (draft : K.Draft) (entity : K.Entity)
      (result : List K.Action)
  | event (e : Event K)

namespace Entry

variable {K : Kind}

def event? : Entry K → Option (Event K)
  | .event e => some e
  | _ => none

/-- The entry is a call of the service. -/
def isCall : Entry K → Bool
  | .fetchMatching .. => true
  | .fetchByKey .. => true
  | .create .. => true
  | .update .. => true
  | _ => false

/-- The event of an entry, if a listener hears it. -/
def delivered? (l : Listeners) (entry : Entry K) : Option (Event K) :=
  entry.event?.filter fun e => l.hear e.severity

end Entry

end CatalogSync
