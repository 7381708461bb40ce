import CatalogSync.Proofs.Storage

/- Optimistic locking. Along a history, whatever was handed out is the stored entity at its present
   or an earlier version, and once an update was based on it the stored version is a later one
   (`Sound`). So an update succeeds only if it passes the entity that is stored, and of several
   updates based on the same read at most one succeeds. Main statement: `history_locks`. -/
namespace CatalogSync

namespace Memory

variable {K : Kind} [LawfulKind K]

open LawfulKind

/-! ### Versions of one entity -/

/-- `s` is the entity `e` at the same version or a later one. -/
structure Follows (s e : K.Entity) : Prop where
  same : withVersion s (K.entityVersion e) = e
  le : (K.entityVersion e).toNat ≤ (K.entityVersion s).toNat

theorem Follows.refl (e : K.Entity) : Follows e e := ⟨withVersion_entityVersion e, Nat.le_refl _⟩

theorem Follows.trans {a b c : K.Entity} (h : Follows a b) (h' : Follows b c) : Follows a c := by
  refine ⟨?_, Nat.le_trans h'.le h.le⟩
  rw [← h'.same, ← h.same]
  simp

theorem follows_bumpVersion {e : K.Entity} (room : (K.entityVersion e).toNat + 1 < UInt64.size) :
    Follows (K.bumpVersion e) e := by
  refine ⟨?_, ?_⟩
  · simp [bumpVersion_eq]
  · have := toNat_entityVersion_bumpVersion room
    omega

/-- At one version there is one entity. -/
theorem Follows.eq {s e : K.Entity} (h : Follows s e)
    (current : K.entityVersion s = K.entityVersion e) : s = e := by
  have same := h.same
  rw [← current, withVersion_entityVersion] at same
  exact same

/-- Entities stay stored; at most their versions are raised. -/
def Grows (m m' : Memory K) : Prop :=
  ∀ key e, m.get? key = some e → ∃ s, m'.get? key = some s ∧ Follows s e

theorem Change.grows {m m' : Memory K} (h : Change m m'.entities) (room : m.Room) :
    Grows m m' := by
  intro key e found
  rw [get?_eq m']
  generalize m'.entities = after at h
  cases h with
  | none => exact ⟨e, found, .refl e⟩
  | @added e' free =>
    have other := (ne_of_stored_of_free found free).symm
    exact ⟨e, by rw [SortedMap.get?_insert_of_ne _ _ other]; exact found, .refl e⟩
  | @raised key' stored at_key =>
    by_cases same : key' = key
    · subst same
      rw [found] at at_key
      cases at_key
      exact ⟨_, SortedMap.get?_insert_self _ _ _, follows_bumpVersion (room key' e found)⟩
    · exact ⟨e, by rw [SortedMap.get?_insert_of_ne _ _ same]; exact found, .refl e⟩

/-! ### One request -/

section Handed

variable {m m' : Memory K} {e : K.Entity}

omit [LawfulKind K] in
/-- What is stored under some key is stored under its own. -/
theorem OwnKeys.get? (own : m.OwnKeys) {key : String} (found : m.get? key = some e) :
    m.get? (K.storageKey e) = some e := by
  rw [own key e found]
  exact found

omit [LawfulKind K] in
theorem stored_of_fetchMatching (own : m.OwnKeys) {keys : SortedSet String} {es : List K.Entity}
    (call : fetchMatching keys m = (.ok es, m')) (there : e ∈ es) :
    m'.get? (K.storageKey e) = some e := by
  have after := fetchMatching_snd keys m
  have answer : (fetchMatching keys m).1 = .ok es := by rw [call]
  rw [call] at after
  rw [fetchMatching_ok answer] at there
  obtain ⟨key, -, found⟩ := List.mem_filterMap.1 there
  rw [show m' = _ from after]
  exact own.get? found

omit [LawfulKind K] in
theorem stored_of_fetchByKey (own : m.OwnKeys) {key : String}
    (call : fetchByKey key m = (.ok (some e), m')) : m'.get? (K.storageKey e) = some e := by
  have after := fetchByKey_snd key m
  have answer : (fetchByKey key m).1 = .ok (some e) := by rw [call]
  rw [call] at after
  rw [show m' = _ from after]
  rcases fetchByKey_ok answer with gone | here
  · cases gone
  · exact own.get? here.symm

theorem stored_of_create {draft : K.Draft} (call : create draft m = (.ok e, m')) :
    m'.get? (K.storageKey e) = some e := by
  rcases create_cases draft m with ⟨error, refused⟩ | ⟨-, done⟩
  · rw [refused] at call
    cases call
  · rw [done] at call
    cases call
    rw [storageKey_store]
    exact SortedMap.get?_insert_self _ _ _

theorem stored_of_update (own : m.OwnKeys) {e' : K.Entity} {actions : List K.Action}
    (call : update e' actions m = (.ok e, m')) : m'.get? (K.storageKey e) = some e := by
  rcases update_cases e' actions m with ⟨error, m', refused, -, -⟩ | ⟨stored, found, -, done⟩
  · rw [refused] at call
    cases call
  · rw [done] at call
    cases call
    rw [storageKey_bumpVersion, own _ _ found]
    exact SortedMap.get?_insert_self _ _ _

/-- What a request hands out is stored when it has been served. -/
theorem stored_of_handed (own : m.OwnKeys) (r : Request K)
    (h : e ∈ Exchange.handed ⟨r, (m.perform r).1⟩) :
    (m.perform r).2.get? (K.storageKey e) = some e := by
  cases r with
  | fetchMatching keys =>
    rcases call : fetchMatching keys m with ⟨_ | es, m'⟩ <;> simp only [perform, call] at h ⊢
    · cases h
    · exact stored_of_fetchMatching own call h
  | fetchByKey key =>
    rcases call : fetchByKey key m with ⟨_ | _ | e', m'⟩ <;> simp only [perform, call] at h ⊢
    · cases h
    · cases h
    · obtain rfl := List.mem_singleton.1 h
      exact stored_of_fetchByKey own call
  | create draft =>
    rcases call : create draft m with ⟨_ | e', m'⟩ <;> simp only [perform, call] at h ⊢
    · cases h
    · obtain rfl := List.mem_singleton.1 h
      exact stored_of_create call
  | update e' actions =>
    rcases call : update e' actions m with ⟨_ | raised, m'⟩ <;> simp only [perform, call] at h ⊢
    · cases h
    · obtain rfl := List.mem_singleton.1 h
      exact stored_of_update own call
  | get key =>
    have hands : e ∈ (m.get? key).toList := h
    exact own.get? (Option.mem_toList.1 hands)
  | _ => cases h

end Handed

omit [LawfulKind K] in
/-- A successful update finds the version that it passes, and raises it. -/
theorem stored_of_updates {m : Memory K} {r : Request K} {e : K.Entity}
    (h : Exchange.Updates ⟨r, (m.perform r).1⟩ e) :
    ∃ actions stored, r = .update e actions ∧ m.get? (K.storageKey e) = some stored ∧
      K.entityVersion stored = K.entityVersion e ∧
      (m.perform r).2.get? (K.storageKey e) = some (K.bumpVersion stored) := by
  obtain ⟨actions, raised, exchange⟩ := h
  obtain ⟨rfl, answer⟩ : r = .update e actions ∧ (m.perform r).1 = .ok [raised] := by
    simpa using exchange
  have answer : ((update e actions m).1.map fun e => [e]) = .ok [raised] := answer
  show ∃ actions' stored, _ ∧ _ ∧ _ ∧ (update e actions m).2.get? _ = _
  rcases update_cases e actions m with ⟨error, m', call, -, -⟩ | ⟨stored, found, current, call⟩
  · rw [call] at answer
    cases answer
  · refine ⟨actions, stored, rfl, found, current, ?_⟩
    rw [call]
    exact SortedMap.get?_insert_self _ _ _

omit [LawfulKind K] in
/-- A call that returns an error leaves the store and the log as they were. -/
theorem perform_error {m : Memory K} {r : Request K} {error : SyncError}
    (h : (m.perform r).1 = .error error) :
    (m.perform r).2.entities = m.entities ∧ (m.perform r).2.applied = m.applied := by
  cases r with
  | fetchMatching keys =>
    show (fetchMatching keys m).2.entities = _ ∧ (fetchMatching keys m).2.applied = _
    rw [fetchMatching_snd]
    exact ⟨rfl, rfl⟩
  | fetchByKey key =>
    show (fetchByKey key m).2.entities = _ ∧ (fetchByKey key m).2.applied = _
    rw [fetchByKey_snd]
    exact ⟨rfl, rfl⟩
  | create draft =>
    have h : ((create draft m).1.map fun e => [e]) = .error error := h
    show (create draft m).2.entities = _ ∧ (create draft m).2.applied = _
    rcases create_cases draft m with ⟨_, call⟩ | ⟨-, call⟩
    · rw [call]
      exact ⟨rfl, rfl⟩
    · rw [call] at h
      cases h
  | update e actions =>
    have h : ((update e actions m).1.map fun e => [e]) = .error error := h
    show (update e actions m).2.entities = _ ∧ (update e actions m).2.applied = _
    rcases update_cases e actions m with ⟨_, m', call, same, logged⟩ | ⟨_, -, -, call⟩
    · rw [call]
      exact ⟨same, logged⟩
    · rw [call] at h
      cases h
  | _ => cases h

/-! ### Histories -/

/-- What a history has made sure of. -/
structure Sound (past : List (Exchange K)) (m : Memory K) : Prop where
  /-- Entities are stored under their own keys. -/
  own : m.OwnKeys
  /-- What was handed out is stored, at its version or a later one. -/
  read : ∀ e ∈ handedOut past, ∃ s, m.get? (K.storageKey e) = some s ∧ Follows s e
  /-- What an update was based on is stored at a later version. -/
  spent : ∀ x ∈ past, ∀ e, x.Updates e → ∃ s, m.get? (K.storageKey e) = some s ∧
    (K.entityVersion e).toNat < (K.entityVersion s).toNat
  /-- No two updates were based on the same read. -/
  once : past.Pairwise fun x y => ∀ e, ¬ (x.Updates e ∧ y.Updates e)

theorem Sound.start {m : Memory K} (own : m.OwnKeys) : Sound [] m where
  own := own
  read _ h := absurd h List.not_mem_nil
  spent _ h := absurd h List.not_mem_nil
  once := .nil

/-- A request keeps what the history before it has made sure of. -/
theorem Sound.perform {past : List (Exchange K)} {m : Memory K} (h : Sound past m) (room : m.Room)
    (r : Request K) : Sound (past ++ [⟨r, (m.perform r).1⟩]) (m.perform r).2 := by
  have change := perform_change m r
  have grows := change.grows room
  refine ⟨change.ownKeys h.own, ?_, ?_, ?_⟩
  · intro e handed
    rw [handedOut, List.flatMap_append, List.mem_append] at handed
    rcases handed with earlier | now
    · obtain ⟨s, found, follows⟩ := h.read e earlier
      obtain ⟨s', found', follows'⟩ := grows _ s found
      exact ⟨s', found', follows'.trans follows⟩
    · rw [List.flatMap_singleton] at now
      exact ⟨e, stored_of_handed h.own r now, .refl e⟩
  · intro x hx e updates
    rcases List.mem_append.1 hx with earlier | now
    · obtain ⟨s, found, lt⟩ := h.spent x earlier e updates
      obtain ⟨s', found', follows⟩ := grows _ s found
      exact ⟨s', found', Nat.lt_of_lt_of_le lt follows.le⟩
    · obtain rfl := List.mem_singleton.1 now
      obtain ⟨actions, stored, -, found, current, raised⟩ := stored_of_updates updates
      refine ⟨_, raised, ?_⟩
      have := toNat_entityVersion_bumpVersion (room _ stored found)
      rw [current] at this
      omega
  · rw [List.pairwise_append]
    refine ⟨h.once, List.pairwise_singleton _ _, ?_⟩
    intro x hx y hy e ⟨before, again⟩
    obtain rfl := List.mem_singleton.1 hy
    -- the version that was passed is behind the stored one since the first update
    obtain ⟨s, found, lt⟩ := h.spent x hx e before
    obtain ⟨-, stored, -, found', current, -⟩ := stored_of_updates again
    rw [found] at found'
    cases found'
    rw [current] at lt
    exact Nat.lt_irrefl _ lt

omit [LawfulKind K] in
theorem History.room {past : List (Exchange K)} {m : Memory K} (h : History past m) : m.Room := by
  cases h with
  | empty =>
    intro key e found
    cases found
  | ofEntities _ room => exact room
  | perform _ _ _ room => exact room

theorem History.sound {past : List (Exchange K)} {m : Memory K} (h : History past m) :
    Sound past m := by
  induction h with
  | empty => exact .start (ownKeys_ofEntities [])
  | ofEntities es => exact .start (ownKeys_ofEntities es)
  | perform before r honest room ih => exact ih.perform before.room r

/-- **Optimistic locking.** After any history: an update of an entity that was handed out succeeds
    only if that very entity is stored, and then raises its version by one, changes nothing else in
    the store and appends one entry to the log; no two successful updates of the history passed the
    same entity; a call that returns an error leaves the store and the log as they were; and every
    entity is stored under its own key. -/
theorem history_locks {past : List (Exchange K)} {m : Memory K} (h : History past m) :
    (∀ e ∈ handedOut past, ∀ actions raised m', update e actions m = (.ok raised, m') →
      m.get? (K.storageKey e) = some e ∧
      raised = withVersion e (K.entityVersion raised) ∧
      (K.entityVersion raised).toNat = (K.entityVersion e).toNat + 1 ∧
      m'.entities = m.entities.insert (K.storageKey e) raised ∧
      m'.applied = m.applied ++ [(K.storageKey e, actions)]) ∧
    (past.Pairwise fun x y => ∀ e, ¬ (x.Updates e ∧ y.Updates e)) ∧
    (∀ r error, (m.perform r).1 = .error error →
      (m.perform r).2.entities = m.entities ∧ (m.perform r).2.applied = m.applied) ∧
    ∀ key e, m.get? key = some e → K.storageKey e = key := by
  have sound := h.sound
  refine ⟨?_, sound.once, fun r error => perform_error, sound.own⟩
  intro e handed actions raised m' call
  obtain ⟨s, found, follows⟩ := sound.read e handed
  rcases update_cases e actions m with ⟨_, _, refused, -, -⟩ | ⟨stored, found', current, done⟩
  · rw [refused] at call
    cases call
  · rw [done] at call
    cases call
    rw [found] at found'
    cases found'
    obtain rfl := follows.eq current
    refine ⟨found, ?_, toNat_entityVersion_bumpVersion (h.room _ s found), rfl, rfl⟩
    rw [entityVersion_bumpVersion, bumpVersion_eq]

/-- A channel at its first version. -/
def channelRead : Channel := .ofDraft (.ofNat 1) (.ofKey "a")

/-- The channel has been read and updated. -/
def channelUpdated : Memory .channel :=
  (((ofEntities [channelRead]).perform (.fetchByKey "a")).2.perform
    (.update channelRead [ChannelAction.changeName none])).2

/-- Based on the same read, a second update does not succeed. -/
theorem history_locks_second :
    History [⟨.fetchByKey "a", .ok [channelRead]⟩,
      ⟨.update channelRead [ChannelAction.changeName none], .ok [channelRead.bumpVersion]⟩]
      channelUpdated ∧
    ∀ actions raised m', update channelRead actions channelUpdated ≠ (.ok raised, m') := by
  have start : History [] (ofEntities (K := .channel) [channelRead]) :=
    .ofEntities _ (by decide)
  have read := start.perform (.fetchByKey "a") (by decide) (by decide)
  have updated := read.perform (.update channelRead [ChannelAction.changeName none])
    (by decide) (by decide)
  refine ⟨updated, ?_⟩
  intro actions raised m' call
  obtain ⟨stored, -⟩ := (history_locks updated).1 channelRead (by decide) actions raised m' call
  exact absurd stored (by decide)

end Memory

end CatalogSync
