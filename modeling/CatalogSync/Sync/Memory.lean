import CatalogSync.Sync.Service

/- A service in memory, for dry runs. Entities are kept under their keys. An update does not
   interpret its actions: it requires the stored version, raises it, and logs the actions.
   Failures can be scripted for each sort of call, and the calls are counted. -/
namespace CatalogSync

/-- The failures that a service in memory has been told to show. -/
structure Script where
  failFetchMatching : Bool
  failFetchByKey : Bool
  /-- A fetch by key finds nothing, as if everything had been deleted meanwhile. -/
  hideOnFetchByKey : Bool
  failUpdates : Bool
  /-- How many of the next updates fail with a concurrent modification. -/
  conflicts : Nat
deriving DecidableEq, Repr, Inhabited

def Script.none : Script := ⟨false, false, false, false, 0⟩

/-- How often each sort of call was made. -/
structure CallCounts where
  fetchMatching : Nat
  fetchByKey : Nat
  create : Nat
  update : Nat
deriving DecidableEq, Repr, Inhabited

def CallCounts.zero : CallCounts := ⟨0, 0, 0, 0⟩

/-- The state of a service in memory. -/
structure Memory (K : Kind) where
  entities : SortedMap String K.Entity
  failingCreates : SortedSet String
  /-- The successful updates so far: the key of the entity and the actions sent. -/
  applied : List (String × List K.Action)
  script : Script
  calls : CallCounts
  /-- How many ids have been given out. -/
  minted : Nat

namespace Memory

variable {K : Kind}

/-- A service without entities. -/
def empty : Memory K := ⟨.empty, .empty, [], .none, .zero, 0⟩

/-- A service that starts with the given entities; those without a key are left out, and of
    several with one key the last is stored. -/
def ofEntities (es : List K.Entity) : Memory K := { empty with entities := .indexBy K.entityKey es }

def get? (m : Memory K) (key : String) : Option K.Entity := m.entities.get? key

def size (m : Memory K) : Nat := m.entities.size

def isEmpty (m : Memory K) : Bool := m.entities.isEmpty

/-- Raises the version stored under a key, so that updates based on an earlier read conflict. -/
def touch (m : Memory K) (key : String) : Memory K :=
  match m.get? key with
  | some e => { m with entities := m.entities.insert key (K.bumpVersion e) }
  | none => m

/-! ### Scripting -/

def setScript (m : Memory K) (f : Script → Script) : Memory K := { m with script := f m.script }

def failFetchMatching (m : Memory K) : Memory K :=
  m.setScript ({ · with failFetchMatching := true })

def failFetchByKey (m : Memory K) : Memory K := m.setScript ({ · with failFetchByKey := true })

def hideOnFetchByKey (m : Memory K) : Memory K := m.setScript ({ · with hideOnFetchByKey := true })

def failUpdates (m : Memory K) : Memory K := m.setScript ({ · with failUpdates := true })

def conflictNextUpdates (m : Memory K) (n : Nat) : Memory K :=
  m.setScript ({ · with conflicts := n })

def failCreateFor (m : Memory K) (key : String) : Memory K :=
  { m with failingCreates := m.failingCreates.insert key }

/-! ### Calls -/

def count (m : Memory K) (f : CallCounts → CallCounts) : Memory K := { m with calls := f m.calls }

def connectionReset : SyncError := .network "connection reset"

/-- The stored entities in ascending order of keys; keys that are not stored are passed over. -/
def fetchMatching (keys : SortedSet String) (m : Memory K) :
    Except SyncError (List K.Entity) × Memory K :=
  let m := m.count fun c => { c with fetchMatching := c.fetchMatching + 1 }
  if m.script.failFetchMatching then (.error connectionReset, m)
  else (.ok (keys.toList.filterMap m.get?), m)

def fetchByKey (key : String) (m : Memory K) : Except SyncError (Option K.Entity) × Memory K :=
  let m := m.count fun c => { c with fetchByKey := c.fetchByKey + 1 }
  if m.script.failFetchByKey then (.error connectionReset, m)
  else if m.script.hideOnFetchByKey then (.ok none, m)
  else (.ok (m.get? key), m)

/-- Stores a draft under its key, or under the empty key if it has none. -/
def create (draft : K.Draft) (m : Memory K) : Except SyncError K.Entity × Memory K :=
  let m := m.count fun c => { c with create := c.create + 1 }
  let key := (K.draftKey draft).getD ""
  if m.failingCreates.contains key then (.error (.remote ("create of '" ++ key ++ "' rejected")), m)
  else if m.entities.contains key then
    (.error (.remote ("a " ++ K.name ++ " with key '" ++ key ++ "' already exists")), m)
  else
    let entity := K.store (.ofNat (m.minted + 1)) draft
    (.ok entity, { m with entities := m.entities.insert key entity, minted := m.minted + 1 })

/-- The update of an entity, once no failure is scripted: it has to be stored, at the same
    version. -/
def applyUpdate (entity : K.Entity) (actions : List K.Action) (key : String) (m : Memory K) :
    Except SyncError K.Entity × Memory K :=
  match m.get? key with
  | none => (.error (.notFound key), m)
  | some stored =>
    if K.entityVersion stored = K.entityVersion entity then
      let raised := K.bumpVersion stored
      (.ok raised, { m with
        entities := m.entities.insert key raised
        applied := m.applied ++ [(key, actions)] })
    else
      (.error (.concurrentModification ("expected version " ++ toString (K.entityVersion stored) ++
        " of '" ++ key ++ "' but got " ++ toString (K.entityVersion entity))), m)

/-- An update call. A pending conflict is used up first, then the scripted refusal shows. -/
def update (entity : K.Entity) (actions : List K.Action) (m : Memory K) :
    Except SyncError K.Entity × Memory K :=
  let m := m.count fun c => { c with update := c.update + 1 }
  let key := (K.entityKey entity).getD ""
  if 0 < m.script.conflicts then
    (.error (.concurrentModification
      ("version " ++ toString (K.entityVersion entity) ++ " of '" ++ key ++ "' is outdated")),
      m.setScript fun s => { s with conflicts := s.conflicts - 1 })
  else if m.script.failUpdates then (.error (.remote ("update of '" ++ key ++ "' rejected")), m)
  else applyUpdate entity actions key m

/-- The calls of a service in memory, with its own state for the world. -/
def service : Service K (Memory K) := ⟨fetchMatching, fetchByKey, create, update⟩

end Memory

end CatalogSync
