import CatalogSync.Proofs.Acceptance

/- Drafts that share a key. Where no failure is scripted and no hook is used, what becomes of a draft
   depends on what was stored under its key when the batch started, and on whether an earlier draft
   of the batch has the key (`Fate`). Every record finds the store as its earlier siblings left it
   (`Midway`): the versions that they raised are stale for it, which the one retry makes good. -/
namespace CatalogSync

/-- No hook is used. -/
structure Options.Hookless {K : Kind} {σ : Type} (options : Options K σ) : Prop where
  beforeCreate : options.beforeCreate = none
  beforeUpdate : options.beforeUpdate = none

theorem Options.Hookless.still {K : Kind} {σ : Type} {options : Options K σ}
    (h : options.Hookless) : options.Still where
  beforeCreate hook found := by
    rw [h.beforeCreate] at found
    cases found
  beforeUpdate hook found := by
    rw [h.beforeUpdate] at found
    cases found

variable {K : Kind}

/-- The draft of a record. -/
def Matched.draft : Matched K → K.Draft
  | create d => d
  | update _ d => d

/-- The events of a journal. -/
def Outcome.events {σ : Type} (o : Outcome K σ) : List (Event K) := o.journal.filterMap (·.event?)

@[simp] theorem Outcome.events_andThen {σ : Type} (o : Outcome K σ) (next : σ → Outcome K σ) :
    (o.andThen next).events = o.events ++ (next o.world).events := by
  simp [events]

/-- The events of a sequence are those of its stages, one after the other. -/
theorem Outcome.events_sequence {α σ : Type} (step : α → σ → Outcome K σ) (as : List α) (w : σ) :
    (sequence step as w).events =
      (stages step as w).flatMap fun s => (step s.item s.world).events := by
  rw [events, journal_sequence, List.filterMap_flatMap]
  rfl

/-- An event of a sequence is an event of one of its stages. -/
theorem Outcome.of_mem_events_sequence {α σ : Type} {step : α → σ → Outcome K σ} {as : List α}
    {w : σ} {x : Event K} (there : x ∈ (sequence step as w).events) :
    ∃ s ∈ stages step as w, x ∈ (step s.item s.world).events := by
  rw [events_sequence] at there
  exact List.mem_flatMap.1 there

namespace Memory

theorem draft_matched (m : Memory K) (d : K.Draft) : (m.matched d).draft = d := by
  unfold matched
  cases m.get? (K.targetKey d) <;> rfl

/-! ### Services without failures -/

/-- No failure and no conflict is scripted. -/
structure Unscripted (m : Memory K) : Prop where
  script : m.script = .none
  failing : m.failingCreates = .empty

namespace Unscripted

variable {m : Memory K} (h : m.Unscripted)

include h

theorem calm : m.script.conflicts = 0 := by rw [h.script]; rfl

theorem fetches : m.script.failFetchMatching = false := by rw [h.script]; rfl

theorem updates : m.script.failUpdates = false := by rw [h.script]; rfl

theorem allows (key : String) : m.failingCreates.contains key = false := by rw [h.failing]; rfl

theorem fetchByKey (key : String) : fetchByKey key m = (.ok (m.get? key),
    m.count fun c => { c with fetchByKey := c.fetchByKey + 1 }) :=
  fetchByKey_of_working (by rw [h.script]; rfl) (by rw [h.script]; rfl) key

theorem create (draft : K.Draft) : (create draft m).2.Unscripted := by
  rcases create_cases draft m with ⟨error, call⟩ | ⟨-, call⟩
  · rw [call]
    exact ⟨h.script, h.failing⟩
  · rw [call]
    exact ⟨h.script, h.failing⟩

theorem update (e : K.Entity) (actions : List K.Action) : (update e actions m).2.Unscripted := by
  rw [update_of_calm h.calm h.updates, applyUpdate]
  split
  · exact ⟨h.script, h.failing⟩
  · split
    · exact ⟨h.script, h.failing⟩
    · exact ⟨h.script, h.failing⟩

end Unscripted

end Memory

namespace Sync

open Memory LawfulKind

/-- A run scripts nothing. -/
theorem carried_unscripted {options : Options K (Memory K)} (still : options.Still) :
    Carried Memory.service options fun m _ m' => m.Unscripted → m'.Unscripted where
  idle _ h := h
  trans h h' before := h' (h before)
  processed _ _ h := h
  failed _ _ h := h
  onFetchMatching keys m h := by
    show (Memory.fetchMatching keys m).2.Unscripted
    rw [fetchMatching_snd]
    exact ⟨h.script, h.failing⟩
  onFetchByKey key m h := by
    show (Memory.fetchByKey key m).2.Unscripted
    rw [fetchByKey_snd]
    exact ⟨h.script, h.failing⟩
  onCreate draft m h := h.create draft
  onUpdate e actions m h := h.update e actions
  onBeforeCreate hook found draft m h := by
    rw [still.beforeCreate hook found]
    exact h
  onBeforeUpdate hook found actions draft e m h := by
    rw [still.beforeUpdate hook found]
    exact h

/-! ### What becomes of a draft -/

/-- The calls that update an entity which was read as `e` and is now stored as `now`: one update, or
    one that meets a conflict, a fetch and the update of what it finds. -/
inductive UpdatedBy (key : String) (e now : K.Entity) (actions : List K.Action) :
    List (Entry K) → Prop
  | first (current : now = e) : UpdatedBy key e now actions
    [.update e actions (.ok (K.bumpVersion now))]
  | retried (stale : K.entityVersion now ≠ K.entityVersion e) (text : String) :
    UpdatedBy key e now actions
    [.update e actions (.error (.concurrentModification text)), .fetchByKey key (.ok (some now)),
      .update now actions (.ok (K.bumpVersion now))]

/-- The events report issues of the diff and nothing else. -/
def OnlyIssues (config : Config) (e : K.Entity) (d : K.Draft) (events : List (Event K)) : Prop :=
  ∀ x ∈ events, ∃ e', ∃ i ∈ (K.plan config e d).issues, x = .issue e' d i

theorem OnlyIssues.append {config : Config} {e : K.Entity} {d : K.Draft}
    {events events' : List (Event K)} (h : OnlyIssues config e d events)
    (h' : OnlyIssues config e d events') : OnlyIssues config e d (events ++ events') := by
  intro x there
  rcases List.mem_append.1 there with before | after
  · exact h x before
  · exact h' x after

/-- What becomes of the draft `d`. The batch started in the state `start`, `earlier` are the drafts
    of the batch before it, and its record leads from the state `w` to the outcome `o`. -/
inductive Fate (config : Config) (start : Memory K) (earlier : List K.Draft) (d : K.Draft)
    (w : Memory K) (o : Outcome K (Memory K)) : Prop
  /-- The stored entity is as the draft wants it. -/
  | left {e : K.Entity} (stored : start.get? (K.targetKey d) = some e)
      (agrees : (K.plan config e d).actions = []) (world : o.world = w) (tally : o.tally = 0)
      (calls : o.calls = []) (events : OnlyIssues config e d o.events)
  /-- The entity is updated once. -/
  | updated {e now : K.Entity} (stored : start.get? (K.targetKey d) = some e)
      (differs : (K.plan config e d).actions ≠ []) (found : w.get? (K.targetKey d) = some now)
      (entities : o.world.entities = w.entities.insert (K.targetKey d) (K.bumpVersion now))
      (applied : o.world.applied = w.applied ++ [(K.targetKey d, (K.plan config e d).actions)])
      (tally : o.tally = .ofUpdated 1)
      (calls : UpdatedBy (K.targetKey d) e now (K.plan config e d).actions o.calls)
      (events : OnlyIssues config e d o.events)
  /-- The draft is the first one with its key, and is created. -/
  | created {id : ResourceId} (free : start.get? (K.targetKey d) = none)
      (first : K.targetKey d ∉ earlier.map K.targetKey)
      (entities : o.world.entities = w.entities.insert (K.targetKey d) (K.store id d))
      (applied : o.world.applied = w.applied) (tally : o.tally = .ofCreated 1)
      (calls : o.calls = [.create d (.ok (K.store id d))]) (events : o.events = [])
  /-- An earlier draft with the key was created, and this one fails. -/
  | refused {error : SyncError} (free : start.get? (K.targetKey d) = none)
      (later : K.targetKey d ∈ earlier.map K.targetKey) (entities : o.world.entities = w.entities)
      (applied : o.world.applied = w.applied) (tally : o.tally = .ofFailed 1)
      (calls : o.calls = [.create d (.error error)]) (events : o.events = [.createFailed d error])

variable {options : Options K (Memory K)} {start w : Memory K} {earlier : List K.Draft}
  {d : K.Draft}

/-- Without a hook, the actions of the diff are sent and its issues are reported; for the diff, any
    version of the entity will do. -/
theorem actionsToSend_of_hookless (hookless : options.Hookless) {e now : K.Entity}
    (same : K.plan options.config now d = K.plan options.config e d) (w : Memory K) :
    ∃ o, actionsToSend options now d w = ((K.plan options.config e d).actions, o) ∧
      o.world = w ∧ o.tally = .zero ∧ o.calls = [] ∧ OnlyIssues options.config e d o.events := by
  have quiet := (actionsToSend_quiet options now d w).2
  have sent : actionsToSend options now d w = ((K.plan options.config now d).actions, ⟨w, .zero,
      (K.plan options.config now d).issues.map fun i => .event (.issue now d i)⟩) := by
    simp only [actionsToSend, hookless.beforeUpdate]
  rw [sent] at quiet
  refine ⟨_, by rw [sent, same], rfl, rfl, quiet, ?_⟩
  intro x there
  obtain ⟨entry, listed, seen⟩ := List.mem_filterMap.1 there
  obtain ⟨i, mem, rfl⟩ := List.mem_map.1 listed
  rw [same] at mem
  cases seen
  exact ⟨now, i, mem, rfl⟩

/-- The fate of a draft whose record sends an update, from what the calls for it leave. -/
theorem fate_of_call (hookless : options.Hookless) {e now : K.Entity}
    (stored : start.get? (K.targetKey d) = some e)
    (differs : (K.plan options.config e d).actions ≠ [])
    (found : w.get? (K.targetKey d) = some now) {o : Outcome K (Memory K)}
    (call : callUpdate Memory.service options e d (K.plan options.config e d).actions w = o)
    (entities : o.world.entities = w.entities.insert (K.targetKey d) (K.bumpVersion now))
    (applied : o.world.applied =
      w.applied ++ [(K.targetKey d, (K.plan options.config e d).actions)])
    (tally : o.tally = .ofUpdated 1)
    (calls : UpdatedBy (K.targetKey d) e now (K.plan options.config e d).actions o.calls)
    (events : OnlyIssues options.config e d o.events) :
    Fate options.config start earlier d w (update Memory.service options e d w) := by
  obtain ⟨before, sent, world, none, quiet, issues⟩ :=
    actionsToSend_of_hookless hookless (e := e) rfl w
  rw [update_of_loaded _ _ (by rw [sent]; exact differs), sent]
  refine .updated stored differs found ?_ ?_ ?_ ?_ ?_
  · rw [Outcome.world_andThen, world, call, entities]
  · rw [Outcome.world_andThen, world, call, applied]
  · rw [Outcome.tally_andThen, none, world, call, tally, Tally.zero_add]
  · rw [Outcome.calls_andThen, quiet, world, call]
    exact calls
  · rw [Outcome.events_andThen, world, call]
    exact issues.append events

variable [LawfulKind K]

/-- The store as the drafts `earlier` of a batch that started in `start` have left it. -/
structure Midway (start : Memory K) (earlier : List K.Draft) (w : Memory K) : Prop where
  unscripted : w.Unscripted
  own : w.OwnKeys
  /-- What was stored still is, up to the version. -/
  kept : ∀ key e, start.get? key = some e → ∃ v, w.get? key = some (withVersion e v)
  /-- What was not stored is, if an earlier draft has the key. -/
  new : ∀ key, start.get? key = none →
    ((w.get? key).isSome = true ↔ key ∈ earlier.map K.targetKey)

theorem midway_fetched {m : Memory K} (own : m.OwnKeys) (unscripted : m.Unscripted) :
    Midway m [] m.fetched where
  unscripted := ⟨unscripted.script, unscripted.failing⟩
  own := own
  kept key e found := ⟨K.entityVersion e, by rw [withVersion_entityVersion]; exact found⟩
  new key free := by
    have absent : m.fetched.get? key = none := free
    simp [absent]

/-- The second try of an update finds the stored entity and updates it. -/
theorem retryUpdate_settles (hookless : options.Hookless) (unscripted : w.Unscripted)
    {e : K.Entity} {v : UInt64} (found : w.get? (K.targetKey d) = some (withVersion e v))
    (own : K.storageKey e = K.targetKey d) (differs : (K.plan options.config e d).actions ≠ [])
    (stale : K.Entity) :
    let o := retryUpdate Memory.service options stale d w
    let now := withVersion e v
    o.world.entities = w.entities.insert (K.targetKey d) (K.bumpVersion now) ∧
    o.world.applied = w.applied ++ [(K.targetKey d, (K.plan options.config e d).actions)] ∧
    o.tally = .ofUpdated 1 ∧
    o.calls = [.fetchByKey (K.targetKey d) (.ok (some now)),
      .update now (K.plan options.config e d).actions (.ok (K.bumpVersion now))] ∧
    OnlyIssues options.config e d o.events := by
  intro o now
  let fetched := w.count fun c => { c with fetchByKey := c.fetchByKey + 1 }
  have fetch : Memory.service.fetchByKey (retryKey d) w = (.ok (some now), fetched) := by
    rw [← found]
    exact unscripted.fetchByKey (retryKey d)
  have own_now : K.storageKey now = K.targetKey d := by rw [storageKey_withVersion, own]
  have call : Memory.service.update now (K.plan options.config e d).actions fetched = _ :=
    @update_of_current K fetched now now (K.plan options.config e d).actions unscripted.calm
      unscripted.updates (by rw [own_now]; exact found) rfl
  obtain ⟨before, sent, world, none, quiet, issues⟩ :=
    actionsToSend_of_hookless hookless (plan_withVersion options.config e v d) fetched
  have ends : o = _ := retryUpdate_of_loaded Memory.service options fetch sent differs
  rw [ends, Outcome.world_andThen, Outcome.world_andThen, Outcome.tally_andThen,
    Outcome.tally_andThen, Outcome.calls_andThen, Outcome.calls_andThen, Outcome.events_andThen,
    Outcome.events_andThen, none, quiet, world, callLastUpdate_of_ok _ call]
  refine ⟨?_, ?_, rfl, rfl, issues.append ?_⟩
  · rw [← own_now]
    rfl
  · rw [← own_now]
    rfl
  · exact fun x there => absurd there List.not_mem_nil

/-- A draft whose key was stored leaves the entity, or updates it. -/
theorem fate_update (hookless : options.Hookless) (midway : Midway start earlier w)
    (own : start.OwnKeys) {e : K.Entity} (stored : start.get? (K.targetKey d) = some e) :
    Fate options.config start earlier d w (update Memory.service options e d w) := by
  obtain ⟨v, found⟩ := midway.kept _ e stored
  have own_e : K.storageKey e = K.targetKey d := own _ e stored
  have calm := midway.unscripted.calm
  have works := midway.unscripted.updates
  by_cases agrees : (K.plan options.config e d).actions = []
  · obtain ⟨o, sent, world, none, quiet, issues⟩ :=
      actionsToSend_of_hookless hookless (e := e) rfl w
    rw [update_of_empty _ _ (by rw [sent]; exact agrees), sent]
    exact .left stored agrees world none quiet issues
  · by_cases current : v = K.entityVersion e
    · -- no earlier draft has raised the version
      subst current
      rw [withVersion_entityVersion] at found
      have call := @update_of_current K w e e (K.plan options.config e d).actions calm works
        (by rw [own_e, found]) rfl
      refine fate_of_call hookless stored agrees found
        (callUpdate_of_accepted Memory.service options call) ?_ ?_ rfl (.first rfl) ?_
      · rw [← own_e]
        rfl
      · rw [← own_e]
        rfl
      · exact fun x there => absurd there List.not_mem_nil
    · -- the version is stale, and the retry takes the one that is stored
      have stale : K.entityVersion (withVersion e v) ≠ K.entityVersion e := by
        rw [entityVersion_withVersion]
        exact current
      obtain ⟨text, call⟩ := @update_of_stale K w e (withVersion e v)
        (K.plan options.config e d).actions calm works (by rw [own_e, found]) stale
      have ends : callUpdate Memory.service options e d (K.plan options.config e d).actions w =
          Outcome.andThen _ (retryUpdate Memory.service options e d) :=
        callUpdate_of_rejected Memory.service options call
      obtain ⟨entities, applied, tally, calls, events⟩ := retryUpdate_settles hookless
        (w := w.count fun c => { c with update := c.update + 1 })
        ⟨midway.unscripted.script, midway.unscripted.failing⟩ found own_e agrees e
      refine fate_of_call hookless stored agrees found ends entities applied ?_ ?_ ?_
      · rw [Outcome.tally_andThen, Tally.zero_add]
        exact tally
      · rw [Outcome.calls_andThen, calls]
        exact .retried stale text
      · exact events

/-- A draft whose key was not stored is created, or fails. -/
theorem fate_create (hookless : options.Hookless) (midway : Midway start earlier w)
    (free : start.get? (K.targetKey d) = none) :
    Fate options.config start earlier d w (create Memory.service options d w) := by
  have passed : draftToCreate options d w = (some d, .idle w) := by
    simp only [draftToCreate, hookless.beforeCreate]
  rw [create_of_passed _ _ passed, Outcome.idle_andThen]
  by_cases later : K.targetKey d ∈ earlier.map K.targetKey
  · obtain ⟨error, call⟩ := create_of_taken ((midway.new _ free).2 later)
    rw [callCreate_of_error Memory.service call]
    exact .refused free later rfl rfl rfl rfl rfl
  · have absent : w.get? (K.targetKey d) = none := by
      simpa using (midway.new _ free).not.2 later
    have call := create_of_free (midway.unscripted.allows _) absent
    rw [callCreate_of_ok Memory.service call]
    exact .created free later rfl rfl rfl rfl rfl

end Sync

end CatalogSync
