import CatalogSync.Sync.LawfulKind
import CatalogSync.Sync.Session

/- What the calls of a service in memory do, one lemma for each call. A create fails or stores the
   entity of its draft under a key that was free; an update fails or raises the version of the
   stored entity by one and is logged (`create_cases`, `update_cases`). From this, what any request
   can do to the store (`perform_change`), and that every entity is stored under its own key
   (`Reachable.ownKeys`). -/
namespace CatalogSync

namespace Memory

variable {K : Kind}

/-! ### What the calls leave alone -/

section Fields

variable (m : Memory K) (f : CallCounts → CallCounts) (key : String)

@[simp] theorem entities_count : (m.count f).entities = m.entities := rfl

@[simp] theorem applied_count : (m.count f).applied = m.applied := rfl

@[simp] theorem script_count : (m.count f).script = m.script := rfl

@[simp] theorem failingCreates_count : (m.count f).failingCreates = m.failingCreates := rfl

@[simp] theorem get?_count : (m.count f).get? key = m.get? key := rfl

end Fields

theorem get?_eq (m : Memory K) (key : String) : m.get? key = m.entities.get? key := rfl

section Reading

variable {m m' : Memory K} {e : K.Entity} {key key' : String}

theorem get?_congr (entities : m'.entities = m.entities) (key : String) :
    m'.get? key = m.get? key := by
  rw [get?_eq, entities, get?_eq]

theorem get?_of_insert (entities : m'.entities = m.entities.insert key e) (key' : String) :
    m'.get? key' = if key = key' then some e else m.get? key' := by
  rw [get?_eq, entities, SortedMap.get?_insert, get?_eq]

/-- A key that is stored is not one that is free. -/
theorem ne_of_stored_of_free (stored : m.get? key = some e) (free : m.get? key' = none) :
    key ≠ key' := by
  intro same
  rw [← same, stored] at free
  cases free

end Reading

/-! ### Fetching -/

/-- The state after the fetch of a batch. -/
def fetched (m : Memory K) : Memory K :=
  m.count fun c => { c with fetchMatching := c.fetchMatching + 1 }

/-- Fetching changes nothing but the count of the calls. -/
theorem fetchMatching_snd (keys : SortedSet String) (m : Memory K) :
    (fetchMatching keys m).2 = m.fetched := by
  dsimp only [fetchMatching]
  split <;> rfl

theorem fetchByKey_snd (key : String) (m : Memory K) :
    (fetchByKey key m).2 = m.count fun c => { c with fetchByKey := c.fetchByKey + 1 } := by
  dsimp only [fetchByKey]
  split
  · rfl
  · split <;> rfl

theorem fetchMatching_ok {keys : SortedSet String} {m : Memory K} {es : List K.Entity}
    (h : (fetchMatching keys m).1 = .ok es) : es = keys.toList.filterMap m.get? := by
  dsimp only [fetchMatching] at h
  split at h
  · cases h
  · cases h
    rfl

theorem fetchByKey_ok {key : String} {m : Memory K} {found : Option K.Entity}
    (h : (fetchByKey key m).1 = .ok found) : found = none ∨ found = m.get? key := by
  dsimp only [fetchByKey] at h
  split at h
  · cases h
  · split at h
    · cases h
      exact .inl rfl
    · cases h
      exact .inr rfl

/-! ### Creating -/

/-- The state after a create call that found the key of the draft free. -/
def created (m : Memory K) (draft : K.Draft) : Memory K :=
  { m.count fun c => { c with create := c.create + 1 } with
    entities := m.entities.insert (K.targetKey draft) (K.store (.ofNat (m.minted + 1)) draft)
    minted := m.minted + 1 }

/-- A create call is refused and only counted, or stores the entity of the draft under a key that
    was free. -/
theorem create_cases (draft : K.Draft) (m : Memory K) :
    (∃ error, create draft m =
      (.error error, m.count fun c => { c with create := c.create + 1 })) ∨
    (m.get? (K.targetKey draft) = none ∧
      create draft m = (.ok (K.store (.ofNat (m.minted + 1)) draft), m.created draft)) := by
  dsimp only [create]
  split
  · exact .inl ⟨_, rfl⟩
  · split
    · exact .inl ⟨_, rfl⟩
    · next stored =>
      refine .inr ⟨?_, rfl⟩
      simpa [SortedMap.contains, get?_eq, Kind.targetKey] using stored

/-! ### Updating -/

/-- The state after an update call that raised the stored entity. -/
def updated (m : Memory K) (key : String) (stored : K.Entity) (actions : List K.Action) :
    Memory K :=
  { m.count fun c => { c with update := c.update + 1 } with
    entities := m.entities.insert key (K.bumpVersion stored)
    applied := m.applied ++ [(key, actions)] }

/-- An update call is refused and leaves store and log alone, or raises the version of the stored
    entity, which is the one that was passed, and is logged. -/
theorem update_cases (e : K.Entity) (actions : List K.Action) (m : Memory K) :
    (∃ error m', update e actions m = (.error error, m') ∧ m'.entities = m.entities ∧
      m'.applied = m.applied) ∨
    (∃ stored, m.get? (K.storageKey e) = some stored ∧
      K.entityVersion stored = K.entityVersion e ∧
      update e actions m =
        (.ok (K.bumpVersion stored), m.updated (K.storageKey e) stored actions)) := by
  dsimp only [update]
  split
  · exact .inl ⟨_, _, rfl, rfl, rfl⟩
  · split
    · exact .inl ⟨_, _, rfl, rfl, rfl⟩
    · unfold applyUpdate
      rw [get?_count]
      show _ ∨ ∃ stored, m.get? ((K.entityKey e).getD "") = some stored ∧ _
      cases found : m.get? ((K.entityKey e).getD "") with
      | none => exact .inl ⟨_, _, rfl, rfl, rfl⟩
      | some stored =>
        by_cases current : K.entityVersion stored = K.entityVersion e
        · exact .inr ⟨stored, rfl, current, if_pos current⟩
        · exact .inl ⟨_, _, if_neg current, rfl, rfl⟩

/-- The state after an update call that met a pending conflict. -/
def conflicted (m : Memory K) : Memory K :=
  (m.count fun c => { c with update := c.update + 1 }).setScript
    fun s => { s with conflicts := s.conflicts - 1 }

/-- A pending conflict is used up, whatever the entity. -/
theorem update_of_pending {m : Memory K} (pending : 0 < m.script.conflicts) (e : K.Entity)
    (actions : List K.Action) :
    ∃ text, update e actions m = (.error (.concurrentModification text), m.conflicted) :=
  ⟨_, if_pos pending⟩

/-! ### Calls without pending conflicts -/

section Calm

variable {m : Memory K} {e now : K.Entity} {actions : List K.Action} {draft : K.Draft}

theorem fetchMatching_of_working (works : m.script.failFetchMatching = false)
    (keys : SortedSet String) :
    fetchMatching keys m = (.ok (keys.toList.filterMap m.get?), m.fetched) :=
  if_neg (ne_true_of_eq_false works)

theorem fetchByKey_of_working (works : m.script.failFetchByKey = false)
    (shows : m.script.hideOnFetchByKey = false) (key : String) :
    fetchByKey key m = (.ok (m.get? key),
      m.count fun c => { c with fetchByKey := c.fetchByKey + 1 }) :=
  (if_neg (ne_true_of_eq_false works)).trans (if_neg (ne_true_of_eq_false shows))

theorem create_of_free (allowed : m.failingCreates.contains (K.targetKey draft) = false)
    (free : m.get? (K.targetKey draft) = none) :
    create draft m = (.ok (K.store (.ofNat (m.minted + 1)) draft), m.created draft) := by
  have absent : m.entities.contains (K.targetKey draft) = false := by
    simp [SortedMap.contains, ← get?_eq, free]
  exact (if_neg (ne_true_of_eq_false allowed)).trans (if_neg (ne_true_of_eq_false absent))

theorem create_of_failing (failing : m.failingCreates.contains (K.targetKey draft) = true) :
    ∃ error, create draft m =
      (.error error, m.count fun c => { c with create := c.create + 1 }) := ⟨_, if_pos failing⟩

theorem create_of_taken (taken : (m.get? (K.targetKey draft)).isSome = true) :
    ∃ error, create draft m =
      (.error error, m.count fun c => { c with create := c.create + 1 }) := by
  rcases create_cases draft m with refused | ⟨free, -⟩
  · exact refused
  · rw [free] at taken
    cases taken

theorem update_of_failing (calm : m.script.conflicts = 0) (failing : m.script.failUpdates = true) :
    ∃ text, update e actions m =
      (.error (.remote text), m.count fun c => { c with update := c.update + 1 }) :=
  ⟨_, (if_neg (by simp [calm])).trans (if_pos failing)⟩

/-- Without scripted failures, an update call comes to the stored entity. -/
theorem update_of_calm (calm : m.script.conflicts = 0) (works : m.script.failUpdates = false) :
    update e actions m = applyUpdate e actions (K.storageKey e)
      (m.count fun c => { c with update := c.update + 1 }) :=
  (if_neg (by simp [calm])).trans (if_neg (by simp [works]))

/-- An update of the version that is stored succeeds. -/
theorem update_of_current (calm : m.script.conflicts = 0) (works : m.script.failUpdates = false)
    (found : m.get? (K.storageKey e) = some now)
    (current : K.entityVersion now = K.entityVersion e) :
    update e actions m = (.ok (K.bumpVersion now), m.updated (K.storageKey e) now actions) := by
  rw [update_of_calm calm works, applyUpdate, get?_count, found]
  exact if_pos current

/-- An update of another version meets a conflict. -/
theorem update_of_stale (calm : m.script.conflicts = 0) (works : m.script.failUpdates = false)
    (found : m.get? (K.storageKey e) = some now)
    (stale : K.entityVersion now ≠ K.entityVersion e) :
    ∃ text, update e actions m = (.error (.concurrentModification text),
      m.count fun c => { c with update := c.update + 1 }) := by
  rw [update_of_calm calm works, applyUpdate, get?_count, found]
  exact ⟨_, if_neg stale⟩

end Calm

/-! ### The store -/

/-- What a request can do to the store: nothing, add an entity at version 1 under a key of its own
    that was free, or raise the version of a stored entity. -/
inductive Change (m : Memory K) : SortedMap String K.Entity → Prop
  | none : Change m m.entities
  | added {e : K.Entity} (free : m.get? (K.storageKey e) = .none) :
    Change m (m.entities.insert (K.storageKey e) e)
  | raised {key : String} {stored : K.Entity} (found : m.get? key = some stored) :
    Change m (m.entities.insert key (K.bumpVersion stored))

theorem touch_change (m : Memory K) (key : String) : Change m (m.touch key).entities := by
  unfold touch
  cases found : m.get? key with
  | none => exact .none
  | some stored => exact .raised found

variable [LawfulKind K]

theorem create_change (draft : K.Draft) (m : Memory K) : Change m (create draft m).2.entities := by
  rcases create_cases draft m with ⟨error, call⟩ | ⟨free, call⟩
  · rw [call]
    exact .none
  · rw [call]
    have own : K.storageKey (K.store (.ofNat (m.minted + 1)) draft) = K.targetKey draft :=
      LawfulKind.storageKey_store ..
    show Change m (m.entities.insert (K.targetKey draft) _)
    rw [← own] at free ⊢
    exact .added free

omit [LawfulKind K] in
theorem update_change (e : K.Entity) (actions : List K.Action) (m : Memory K) :
    Change m (update e actions m).2.entities := by
  rcases update_cases e actions m with ⟨error, m', call, same, -⟩ | ⟨stored, found, -, call⟩
  · rw [call]
    show Change m m'.entities
    rw [same]
    exact .none
  · rw [call]
    exact .raised found

/-- What any request can do to the store. -/
theorem perform_change (m : Memory K) (r : Request K) : Change m (m.perform r).2.entities := by
  cases r with
  | fetchMatching keys =>
    show Change m (fetchMatching keys m).2.entities
    rw [fetchMatching_snd]
    exact .none
  | fetchByKey key =>
    show Change m (fetchByKey key m).2.entities
    rw [fetchByKey_snd]
    exact .none
  | create draft => exact create_change draft m
  | update e actions => exact update_change e actions m
  | touch key => exact touch_change m key
  | _ => exact .none

/-- Every entity is stored under its own key. -/
def OwnKeys (m : Memory K) : Prop := ∀ key e, m.get? key = some e → K.storageKey e = key

theorem Change.ownKeys {m m' : Memory K} (h : Change m m'.entities) (own : m.OwnKeys) :
    m'.OwnKeys := by
  intro key e found
  rw [get?_eq] at found
  generalize m'.entities = after at h found
  cases h with
  | none => exact own key e found
  | @added e' free =>
    rw [SortedMap.get?_insert] at found
    split at found
    · next same =>
      cases found
      exact same
    · exact own key e found
  | @raised key' stored at_key =>
    rw [SortedMap.get?_insert] at found
    split at found
    · next same =>
      cases found
      rw [LawfulKind.storageKey_bumpVersion, own key' stored at_key, same]
    · exact own key e found

omit [LawfulKind K] in
theorem ownKeys_ofEntities (es : List K.Entity) : (ofEntities es).OwnKeys := by
  intro key e found
  have named : K.entityKey e = some key := by
    have found : (SortedMap.indexBy K.entityKey es).get? key = some e := found
    rw [SortedMap.get?_indexBy] at found
    simpa using List.find?_some found
  simp [Kind.storageKey, named]

theorem Reachable.ownKeys {m : Memory K} (h : Reachable m) : m.OwnKeys := by
  induction h with
  | empty => exact ownKeys_ofEntities []
  | ofEntities es => exact ownKeys_ofEntities es
  | perform _ r ih => exact (perform_change _ r).ownKeys ih

end Memory

end CatalogSync
