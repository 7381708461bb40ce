import CatalogSync.Proofs.AnyOrder
import CatalogSync.Proofs.Storage

/- The counts of a run against the store. Every call and every hook keeps the books (`Accounts`): the
   store grows by what was created, the log by what was updated, entities stay and change at most
   their versions, and a version counts the log entries for its key. Hooks may touch entities, whose
   versions then run ahead of the log by as many touches. Main statement: `run_accounts`. -/
namespace CatalogSync

namespace Memory

variable {K : Kind}

/-- The version stored under a key; 1, where entities start, if there is none. -/
def versionAt (m : Memory K) (key : String) : UInt64 := ((m.get? key).map K.entityVersion).getD 1

/-- How many entries of a log are for a key. -/
def entriesFor (key : String) (log : List (String × List K.Action)) : Nat :=
  log.countP fun entry => entry.1 = key

theorem versionAt_of_stored {m : Memory K} {key : String} {e : K.Entity}
    (h : m.get? key = some e) : m.versionAt key = K.entityVersion e := by
  simp [versionAt, h]

theorem versionAt_congr {m m' : Memory K} {key : String} (h : m'.get? key = m.get? key) :
    m'.versionAt key = m.versionAt key := by
  rw [versionAt, versionAt, h]

theorem entriesFor_append (key : String) (log log' : List (String × List K.Action)) :
    entriesFor key (log ++ log') = entriesFor key log + entriesFor key log' :=
  List.countP_append

variable [LawfulKind K]

open LawfulKind

/-- The log and the store are the same, but that every entity has been touched as often as `n` says
    of its key. A key that is free cannot be touched. -/
structure Touches (n : String → Nat) (m m' : Memory K) : Prop where
  applied : m'.applied = m.applied
  stored : ∀ key e, m.get? key = some e →
    m'.get? key = some (withVersion e (K.entityVersion e + UInt64.ofNat (n key)))
  free : ∀ key, m.get? key = none → m'.get? key = none ∧ n key = 0

theorem Touches.of_same {m m' : Memory K} (entities : m'.entities = m.entities)
    (applied : m'.applied = m.applied) : Touches 0 m m' := by
  refine ⟨applied, ?_, ?_⟩
  · intro key e found
    rw [get?_congr entities, found]
    show _ = some (withVersion e (K.entityVersion e + 0))
    rw [UInt64.add_zero, withVersion_entityVersion]
  · intro key free
    exact ⟨by rw [get?_congr entities, free], rfl⟩

theorem Touches.trans {n n' : String → Nat} {m m' m'' : Memory K} (h : Touches n m m')
    (h' : Touches n' m' m'') : Touches (n + n') m m'' := by
  refine ⟨h'.applied.trans h.applied, ?_, ?_⟩
  · intro key e found
    rw [h'.stored key _ (h.stored key e found), withVersion_withVersion, entityVersion_withVersion,
      UInt64.add_assoc, ← UInt64.ofNat_add]
    rfl
  · intro key free
    obtain ⟨still, none⟩ := h.free key free
    obtain ⟨left, none'⟩ := h'.free key still
    exact ⟨left, by rw [Pi.add_apply, none, none']⟩

/-- A single touch, counted under its key if an entity is stored there. -/
def oneTouch (m : Memory K) (key key' : String) : Nat :=
  if key = key' ∧ (m.get? key).isSome = true then 1 else 0

/-- What `touch` does. -/
theorem touches_touch (m : Memory K) (key : String) : Touches (m.oneTouch key) m (m.touch key) := by
  unfold touch
  cases found : m.get? key with
  | none =>
    have nothing : m.oneTouch key = 0 := by
      funext key'
      simp [oneTouch, found]
    rw [nothing]
    exact .of_same rfl rfl
  | some e =>
    have kept : ∀ key', key ≠ key' →
        (m.entities.insert key (K.bumpVersion e)).get? key' = m.get? key' :=
      fun key' other => SortedMap.get?_insert_of_ne _ _ other
    refine ⟨rfl, ?_, ?_⟩
    · intro key' e' found'
      by_cases same : key = key'
      · subst same
        rw [found] at found'
        cases found'
        have once : m.oneTouch key key = 1 := by simp [oneTouch, found]
        rw [once]
        refine (SortedMap.get?_insert_self _ _ _).trans ?_
        rw [bumpVersion_eq]
        rfl
      · have never : m.oneTouch key key' = 0 := by simp [oneTouch, same]
        refine (kept key' same).trans ?_
        rw [found', never]
        show some e' = some (withVersion e' (K.entityVersion e' + 0))
        rw [UInt64.add_zero, withVersion_entityVersion]
    · intro key' free
      have other : key ≠ key' := ne_of_stored_of_free found free
      exact ⟨(kept key' other).trans free, by simp [oneTouch, other]⟩

theorem Touches.size {n : String → Nat} {m m' : Memory K} (h : Touches n m m') :
    m'.size = m.size := by
  refine SortedMap.size_congr fun key => ?_
  rw [← get?_eq, ← get?_eq]
  cases found : m.get? key with
  | none => rw [(h.free key found).1]
  | some e =>
    rw [h.stored key e found]
    rfl

theorem Touches.versionAt {n : String → Nat} {m m' : Memory K} (h : Touches n m m')
    (key : String) : m'.versionAt key = m.versionAt key + UInt64.ofNat (n key) := by
  cases found : m.get? key with
  | none =>
    obtain ⟨still, none⟩ := h.free key found
    rw [versionAt_congr (still.trans found.symm), none]
    exact (UInt64.add_zero _).symm
  | some e =>
    rw [versionAt_of_stored (h.stored key e found), versionAt_of_stored found,
      entityVersion_withVersion]

/-- The books are kept: `t` is what was counted on the way from `m` to `m'`, and `n` how often the
    entities were touched. -/
structure Accounts (n : String → Nat) (m : Memory K) (t : Tally) (m' : Memory K) : Prop where
  /-- What was created is what the store has grown by. -/
  size : m'.size = m.size + t.created
  /-- Entities stay, and change at most their versions. -/
  kept : ∀ key e, m.get? key = some e → ∃ v, m'.get? key = some (withVersion e v)
  /-- What was updated is what the log has grown by, and versions count its entries and the
      touches. -/
  log : ∃ log, m'.applied = m.applied ++ log ∧ log.length = t.updated ∧
    ∀ key, m'.versionAt key =
      m.versionAt key + UInt64.ofNat (entriesFor key log) + UInt64.ofNat (n key)

namespace Accounts

variable {n n' : String → Nat} {m m' m'' : Memory K} {s t : Tally}

/-- Without creates and updates, there are only the touches to account for. -/
theorem of_touches (h : Touches n m m') (created : t.created = 0) (updated : t.updated = 0) :
    Accounts n m t m' := by
  refine ⟨?_, ?_, [], ?_, ?_, ?_⟩
  · rw [h.size, created]
    rfl
  · exact fun key e found => ⟨_, h.stored key e found⟩
  · rw [h.applied, List.append_nil]
  · rw [updated]
    rfl
  · intro key
    rw [h.versionAt key]
    show _ = m.versionAt key + 0 + _
    rw [UInt64.add_zero]

theorem of_same (entities : m'.entities = m.entities) (applied : m'.applied = m.applied)
    (created : t.created = 0) (updated : t.updated = 0) : Accounts 0 m t m' :=
  of_touches (.of_same entities applied) created updated

theorem trans (h : Accounts n m s m') (h' : Accounts n' m' t m'') :
    Accounts (n + n') m (s + t) m'' := by
  obtain ⟨log, applied, updated, versions⟩ := h.log
  obtain ⟨log', applied', updated', versions'⟩ := h'.log
  refine ⟨?_, ?_, log ++ log', ?_, ?_, ?_⟩
  · rw [h'.size, h.size, Tally.created_add, Nat.add_assoc]
  · intro key e found
    obtain ⟨v, found'⟩ := h.kept key e found
    obtain ⟨v', found''⟩ := h'.kept key _ found'
    exact ⟨v', by rw [found'', withVersion_withVersion]⟩
  · rw [applied', applied, List.append_assoc]
  · rw [List.length_append, updated, updated', Tally.updated_add]
  · intro key
    rw [versions' key, versions key, entriesFor_append, Pi.add_apply, UInt64.ofNat_add,
      UInt64.ofNat_add]
    ac_rfl

/-- A create call keeps the books. -/
theorem create (draft : K.Draft) (m : Memory K) :
    Accounts 0 m (Sync.createdBy (create draft m).1) (create draft m).2 := by
  rcases create_cases draft m with ⟨error, call⟩ | ⟨free, call⟩
  · rw [call]
    exact of_same rfl rfl rfl rfl
  · rw [call]
    refine ⟨?_, ?_, [], (List.append_nil _).symm, rfl, ?_⟩
    · show (m.entities.insert _ _).size = m.entities.size + 1
      rw [SortedMap.size_insert, ← get?_eq, free]
      rfl
    · intro key e found
      have other := (ne_of_stored_of_free found free).symm
      refine ⟨K.entityVersion e, ?_⟩
      rw [withVersion_entityVersion, ← found]
      exact SortedMap.get?_insert_of_ne _ _ other
    · -- a new entity starts at the version that stands for none
      intro key
      show _ = m.versionAt key + 0 + 0
      rw [UInt64.add_zero, UInt64.add_zero]
      by_cases same : K.targetKey draft = key
      · subst same
        have stored : (m.created draft).get? (K.targetKey draft) =
          some (K.store (.ofNat (m.minted + 1)) draft) := SortedMap.get?_insert_self _ _ _
        rw [versionAt_of_stored stored, entityVersion_store, versionAt, free]
        rfl
      · exact versionAt_congr (SortedMap.get?_insert_of_ne _ _ same)

/-- An update call keeps the books. -/
theorem update (e : K.Entity) (actions : List K.Action) (m : Memory K) :
    Accounts 0 m (Sync.updatedBy (update e actions m).1) (update e actions m).2 := by
  rcases update_cases e actions m with ⟨error, m', call, same, logged⟩ | ⟨stored, found, -, call⟩
  · rw [call]
    exact of_same same logged rfl rfl
  · rw [call]
    have raised : (m.updated (K.storageKey e) stored actions).get? (K.storageKey e) =
      some (K.bumpVersion stored) := SortedMap.get?_insert_self _ _ _
    have kept : ∀ key, K.storageKey e ≠ key →
        (m.updated (K.storageKey e) stored actions).get? key = m.get? key :=
      fun key other => SortedMap.get?_insert_of_ne _ _ other
    refine ⟨?_, ?_, [(K.storageKey e, actions)], rfl, rfl, ?_⟩
    · show (m.entities.insert _ _).size = m.entities.size + 0
      rw [SortedMap.size_insert, ← get?_eq, found]
      rfl
    · intro key e' found'
      by_cases same : K.storageKey e = key
      · subst same
        rw [found] at found'
        cases found'
        exact ⟨_, raised.trans (by rw [bumpVersion_eq])⟩
      · exact ⟨_, (kept key same).trans (by rw [found', withVersion_entityVersion])⟩
    · intro key
      show _ = _ + _ + 0
      rw [UInt64.add_zero]
      by_cases same : K.storageKey e = key
      · subst same
        rw [versionAt_of_stored raised, versionAt_of_stored found, entityVersion_bumpVersion]
        simp [entriesFor]
      · rw [versionAt_congr (kept key same)]
        simp [entriesFor, same]

end Accounts

end Memory

/-- The hooks do nothing to the store and the log but touch entities. What else they do, and what they
    keep in their own part `τ` of the world, is up to them, but that `touches` can be read off it:
    how often they have touched the entity under each key. Hooks that keep no such count can be given
    one beside what they keep. -/
structure Options.Gentle {K : Kind} [LawfulKind K] {τ : Type} (options : Options K (Memory K × τ))
    (touches : τ → String → Nat) : Prop where
  beforeCreate : ∀ hook, options.beforeCreate = some hook → ∀ draft w, ∃ n,
    touches (hook draft w).2.2 = touches w.2 + n ∧ Memory.Touches n w.1 (hook draft w).2.1
  beforeUpdate : ∀ hook, options.beforeUpdate = some hook → ∀ actions draft e w, ∃ n,
    touches (hook actions draft e w).2.2 = touches w.2 + n ∧
      Memory.Touches n w.1 (hook actions draft e w).2.1

namespace Sync

variable {K : Kind} [LawfulKind K] {τ : Type} {options : Options K (Memory K × τ)}
  {touches : τ → String → Nat}

open Memory LawfulKind

/-- Every part of a run keeps the books. -/
theorem carried_accounts (gentle : options.Gentle touches) :
    Carried (Memory.service.beside τ) options fun w t w' =>
      ∃ n, touches w'.2 = touches w.2 + n ∧ Accounts n w.1 t w'.1 where
  idle w := ⟨0, rfl, .of_same rfl rfl rfl rfl⟩
  trans := by
    rintro a b c s t ⟨n, touched, books⟩ ⟨n', touched', books'⟩
    refine ⟨n + n', ?_, books.trans books'⟩
    funext key
    rw [touched', touched]
    exact Nat.add_assoc _ _ _
  processed w n := ⟨0, rfl, .of_same rfl rfl rfl rfl⟩
  failed w n := ⟨0, rfl, .of_same rfl rfl rfl rfl⟩
  onFetchMatching keys w := by
    refine ⟨0, rfl, ?_⟩
    show Accounts 0 w.1 0 (fetchMatching keys w.1).2
    rw [fetchMatching_snd]
    exact .of_same rfl rfl rfl rfl
  onFetchByKey key w := by
    refine ⟨0, rfl, ?_⟩
    show Accounts 0 w.1 0 (fetchByKey key w.1).2
    rw [fetchByKey_snd]
    exact .of_same rfl rfl rfl rfl
  onCreate draft w := ⟨0, rfl, .create draft w.1⟩
  onUpdate e actions w := ⟨0, rfl, .update e actions w.1⟩
  onBeforeCreate hook found draft w := by
    obtain ⟨n, touched, books⟩ := gentle.beforeCreate hook found draft w
    exact ⟨n, touched, .of_touches books rfl rfl⟩
  onBeforeUpdate hook found actions draft e w := by
    obtain ⟨n, touched, books⟩ := gentle.beforeUpdate hook found actions draft e w
    exact ⟨n, touched, .of_touches books rfl rfl⟩

/-- **The counts tell the truth about the store.** Whatever state the service is in and whatever
    failures it is told to show, for hooks that at most touch entities, and in any order of the
    records: a run creates as many entities as the store grows by and updates as many times as the
    log grows; every entity stays stored and is unchanged but for its version; and a version grows,
    from 1 for a new entity, by the log entries for its key and by the touches `n` of the hooks. -/
theorem run_accounts (gentle : options.Gentle touches) (schedule : Schedule)
    (drafts : List (Option K.Draft)) (w : Memory K × τ) :
    let o := runOn (Memory.service.beside τ) options schedule drafts w
    o.world.1.size = w.1.size + o.tally.created ∧
    (∀ key e, w.1.get? key = some e → ∃ v, o.world.1.get? key = some (withVersion e v)) ∧
    ∃ log, ∃ n : String → Nat, o.world.1.applied = w.1.applied ++ log ∧
      log.length = o.tally.updated ∧
      (∀ key, touches o.world.2 key = touches w.2 key + n key) ∧
      ∀ key e, o.world.1.get? key = some e →
        (w.1.versionAt key).toNat + entriesFor key log + n key < UInt64.size →
        (K.entityVersion e).toNat = (w.1.versionAt key).toNat + entriesFor key log + n key := by
  intro o
  obtain ⟨n, touched, accounts⟩ := (carried_accounts gentle).runOn schedule drafts w
  obtain ⟨log, applied, updated, versions⟩ := accounts.log
  refine ⟨accounts.size, accounts.kept, log, n, applied, updated, ?_, ?_⟩
  · intro key
    exact congrFun touched key
  · intro key e found room
    have counted := versions key
    rw [versionAt_of_stored found] at counted
    rw [UInt64.size] at room
    rw [counted, UInt64.toNat_add, UInt64.toNat_add, UInt64.toNat_ofNat', UInt64.toNat_ofNat']
    omega

/-- Channels with the keys `a` and `b` are stored, and neither has a name. -/
def unnamedPair : Memory .channel :=
  .ofEntities [Channel.ofDraft (.ofNat 1) (.ofKey "a"), Channel.ofDraft (.ofNat 2) (.ofKey "b")]

/-- Both channels are to have a name, and a third one is new. -/
def namingPair : List (Option ChannelDraft) :=
  [some ((ChannelDraft.ofKey "a").withName (.of "en" "n")),
    some ((ChannelDraft.ofKey "b").withName (.of "en" "n")), some (.ofKey "c")]

/-- Default settings, and a hook before updates that touches a key as often as the second part of
    the world says, and counts in the third part how often it met an entity. -/
def touching (key : String) : Options .channel (Memory .channel × Nat × Nat) :=
  { Options.default with
    beforeUpdate := some fun actions _ _ w =>
      (actions, if w.2.1 = 0 then w
        else (w.1.touch key, w.2.1 - 1, w.2.2 + w.1.oneTouch key key)) }

/-- The count of the hook. -/
def touchCount (key : String) (w : Nat × Nat) (key' : String) : Nat :=
  if key = key' then w.2 else 0

theorem gentle_touching (key : String) : (touching key).Gentle (touchCount key) where
  beforeCreate hook found := nomatch found
  beforeUpdate hook found actions draft e w := by
    cases found
    obtain ⟨m, left, made⟩ := w
    by_cases spent : left = 0
    · subst spent
      exact ⟨0, rfl, .of_same rfl rfl⟩
    · refine ⟨m.oneTouch key, ?_, ?_⟩
      · simp only [spent, if_false]
        funext key'
        by_cases same : key = key'
        · subst same
          simp [touchCount]
        · simp [touchCount, oneTouch, same]
      · simp only [spent, if_false]
        exact touches_touch m key

/-- The records of the batch take turns, step by step. -/
def takingTurns : Schedule := fun _ => [0, 1, 2, 0, 1, 2]

theorem run_accounts_beside_touch : (touching "a").Gentle (touchCount "a") ∧
    let o := runOn (Memory.service.beside (Nat × Nat)) (touching "a") takingTurns namingPair
      (unnamedPair, 1, 0)
    o.tally.created = 1 ∧ o.world.1.size = 2 + 1 ∧ o.tally.updated = 2 ∧
      (o.world.1.versionAt "a").toNat = 1 + 1 + 1 ∧
      (o.world.1.versionAt "b").toNat = 1 + 1 + 0 := by
  have fits : namingPair.length ≤ (touching "a").config.batchSize := by decide
  have whole : runOn (Memory.service.beside (Nat × Nat)) (touching "a") takingTurns namingPair =
    batchOn (Memory.service.beside (Nat × Nat)) (touching "a") (takingTurns 0) namingPair :=
      runOn_of_length_le _ _ _ fits
  obtain ⟨size, -, log, n, applied, updated, touched, versions⟩ :=
    run_accounts (gentle_touching "a") takingTurns namingPair (unnamedPair, 1, 0)
  rw [whole] at size applied updated touched versions ⊢
  generalize left : batchOn (Memory.service.beside (Nat × Nat)) (touching "a") (takingTurns 0)
    namingPair (unnamedPair, 1, 0) = o at size applied updated touched versions ⊢
  have logged : o.world.1.applied = log := applied
  have created : o.tally.created = 1 := by rw [← left]; decide
  have twice : log.length = 2 := by rw [← logged, ← left]; decide
  -- the hook has met the entity under `a` once, and never one under `b`
  have once : n "a" = 1 := by
    have made : touchCount "a" o.world.2 "a" = 1 := by rw [← left]; decide
    have counted : _ = 0 + n "a" := touched "a"
    omega
  have never : n "b" = 0 := by
    have made : touchCount "a" o.world.2 "b" = 0 := rfl
    have counted : _ = 0 + n "b" := touched "b"
    omega
  have entries : entriesFor "a" log = 1 ∧ entriesFor "b" log = 1 := by
    rw [← logged, ← left]
    decide
  have stored : (o.world.1.get? "a").isSome = true ∧ (o.world.1.get? "b").isSome = true := by
    rw [← left]
    decide
  have start : (unnamedPair.versionAt "a").toNat = 1 ∧
      (unnamedPair.versionAt "b").toNat = 1 := by decide
  obtain ⟨e, a⟩ := Option.isSome_iff_exists.1 stored.1
  obtain ⟨e', b⟩ := Option.isSome_iff_exists.1 stored.2
  refine ⟨gentle_touching "a", created, ?_, updated.symm.trans twice, ?_, ?_⟩
  · rw [size, created]
    rfl
  · rw [versionAt_of_stored a, versions "a" e a (by rw [start.1, entries.1, once]; decide),
      start.1, entries.1, once]
  · rw [versionAt_of_stored b, versions "b" e' b (by rw [start.2, entries.2, never]; decide),
      start.2, entries.2, never]

/-- A channel without a name is stored. -/
def unnamed : Memory .channel := .ofEntities [Channel.ofDraft (.ofNat 1) (.ofKey "a")]

/-- The channel is to have a name. -/
def naming : List (Option ChannelDraft) := [some ((ChannelDraft.ofKey "a").withName (.of "en" "n"))]

/-- A version that a hook touches runs ahead of the log: it is raised from 1 to 3, and one update is
    logged. -/
theorem run_touched_ahead :
    let o := run (Memory.service.beside (Nat × Nat)) (touching "a") naming (unnamed, 1, 0)
    unnamed.versionAt "a" = 1 ∧ unnamed.applied = [] ∧ entriesFor "a" o.world.1.applied = 1 ∧
      o.world.1.versionAt "a" = 3 ∧
      o.world.1.versionAt "a" ≠
        unnamed.versionAt "a" + UInt64.ofNat (entriesFor "a" o.world.1.applied) := by
  have fits : naming.length ≤ (touching "a").config.batchSize := by decide
  have whole : run (Memory.service.beside (Nat × Nat)) (touching "a") naming =
    batch (Memory.service.beside (Nat × Nat)) (touching "a") naming := run_of_length_le _ _ fits
  rw [whole]
  decide

end Sync

end CatalogSync
