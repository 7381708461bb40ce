import CatalogSync.Sync.Memory

/- The use of a service in memory. Any number of clients make requests, one after the other, and
   failures are scripted in between. `Reachable` are the states that a service can be in;
   `History` are the courses of requests in which every update passes an entity just as it was
   handed out before. -/
namespace CatalogSync

namespace Memory

/-- What can be asked of a service in memory. -/
inductive Request (K : Kind) where
  | fetchMatching (keys : SortedSet String)
  | fetchByKey (key : String)
  | create (draft : K.Draft)
  | update (entity : K.Entity) (actions : List K.Action)
  | get (key : String)
  | touch (key : String)
  | failFetchMatching
  | failFetchByKey
  | hideOnFetchByKey
  | failUpdates
  | conflictNextUpdates (n : Nat)
  | failCreateFor (key : String)

/-- The answer to a request: the entities that it hands out, or an error. -/
abbrev Answer (K : Kind) := Except SyncError (List K.Entity)

/-- A request with its answer. -/
structure Exchange (K : Kind) where
  request : Request K
  answer : Answer K

variable {K : Kind}

/-- Serves a request. -/
def perform (m : Memory K) : Request K → Answer K × Memory K
  | .fetchMatching keys => fetchMatching keys m
  | .fetchByKey key => let (r, m) := fetchByKey key m; (r.map Option.toList, m)
  | .create draft => let (r, m) := create draft m; (r.map fun e => [e], m)
  | .update entity actions => let (r, m) := update entity actions m; (r.map fun e => [e], m)
  | .get key => (.ok (m.get? key).toList, m)
  | .touch key => (.ok [], m.touch key)
  | .failFetchMatching => (.ok [], m.failFetchMatching)
  | .failFetchByKey => (.ok [], m.failFetchByKey)
  | .hideOnFetchByKey => (.ok [], m.hideOnFetchByKey)
  | .failUpdates => (.ok [], m.failUpdates)
  | .conflictNextUpdates n => (.ok [], m.conflictNextUpdates n)
  | .failCreateFor key => (.ok [], m.failCreateFor key)

/-- The states of a service in memory, after any requests. -/
inductive Reachable : Memory K → Prop
  | empty : Reachable empty
  | ofEntities (es : List K.Entity) : Reachable (ofEntities es)
  | perform {m : Memory K} (h : Reachable m) (r : Request K) : Reachable (m.perform r).2

namespace Exchange

/-- The entities that were handed out. -/
def handed (x : Exchange K) : List K.Entity :=
  match x.answer with
  | .ok es => es
  | .error _ => []

/-- A successful update, based on the entity `e`. -/
def Updates (x : Exchange K) (e : K.Entity) : Prop :=
  ∃ actions raised, x = ⟨.update e actions, .ok [raised]⟩

end Exchange

/-- The entities that were handed out in a course of requests. -/
def handedOut (past : List (Exchange K)) : List K.Entity := past.flatMap Exchange.handed

/-- An update passes one of the entities `known`, unmodified. -/
def Request.Honest (known : List K.Entity) : Request K → Prop
  | .update e _ => e ∈ known
  | _ => True

instance [DecidableEq K.Entity] (known : List K.Entity) : (r : Request K) →
    Decidable (r.Honest known)
  | .update e _ => inferInstanceAs (Decidable (e ∈ known))
  | .fetchMatching _ | .fetchByKey _ | .create _ | .get _ | .touch _ | .failFetchMatching
  | .failFetchByKey | .hideOnFetchByKey | .failUpdates | .conflictNextUpdates _
  | .failCreateFor _ => .isTrue trivial

/-- No stored version is the last one that can be counted. -/
def Room (m : Memory K) : Prop :=
  ∀ key e, m.get? key = some e → (K.entityVersion e).toNat + 1 < UInt64.size

theorem room_iff {m : Memory K} :
    m.Room ↔ ∀ entry ∈ m.entities.entries,
      (K.entityVersion entry.2).toNat + 1 < UInt64.size := by
  constructor
  · intro room entry there
    exact room entry.1 entry.2 (SortedMap.get?_eq_some.2 there)
  · intro room key e found
    exact room (key, e) (SortedMap.get?_eq_some.1 found)

instance (m : Memory K) : Decidable m.Room := decidable_of_iff _ room_iff.symm

/-- A course of requests and the state that it leads to; every update passes an entity that was
    handed out, and versions never come to the last one. -/
inductive History : List (Exchange K) → Memory K → Prop
  | empty : History [] empty
  | ofEntities (es : List K.Entity) (room : (ofEntities es).Room) : History [] (ofEntities es)
  | perform {past : List (Exchange K)} {m : Memory K} (h : History past m) (r : Request K)
      (honest : r.Honest (handedOut past)) (room : (m.perform r).2.Room) :
      History (past ++ [⟨r, (m.perform r).1⟩]) (m.perform r).2

end Memory

end CatalogSync
