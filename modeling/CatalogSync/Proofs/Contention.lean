import CatalogSync.Proofs.ExactRun
import CatalogSync.Proofs.Independence

/- Pending conflicts. Where the keys of the drafts are distinct, only a draft whose diff is not empty
   sends an update, and it meets up to two of the conflicts that are still pending: after the first
   it is fetched again and tried once more, and after the second it has failed. What conflicts a
   record leaves is all that the next one sees of it, so the counts of a run depend on how many
   drafts differ and how many conflicts are pending (`Contended`). Main statement: `run_retries`. -/
namespace CatalogSync

variable {K : Kind}

/-- Nothing but conflicts is scripted, and every entity is stored under its own key. -/
structure Memory.Conflicting (m : Memory K) : Prop where
  own : m.OwnKeys
  script : m.script = { Script.none with conflicts := m.script.conflicts }
  failing : m.failingCreates = .empty

/-- How many drafts ask for an update of what is stored under their keys. -/
def differing (config : Config) (m : Memory K) (ds : List K.Draft) : Nat :=
  ds.countP (differs config m)

/-- How many drafts have a key that is free. -/
def fresh (m : Memory K) (ds : List K.Draft) : Nat :=
  ds.countP fun d => (m.get? (K.targetKey d)).isNone

/-- Of `n` updates, those that fail while `c` conflicts are pending: two conflicts fail one. -/
def refused (c n : Nat) : Nat := min n (c / 2)

/-- Of `n` updates, those that are tried again while `c` conflicts are pending. -/
def retried (c n : Nat) : Nat := min n ((c + 1) / 2)

/-- The state `m'` and the tally `t` are what the records of the drafts `ds`, with distinct keys, make
    of the state `m` and the conflicts that are pending in it. -/
structure Contended (config : Config) (m : Memory K) (ds : List K.Draft) (t : Tally)
    (m' : Memory K) : Prop where
  script : m'.script =
    { m.script with conflicts := m.script.conflicts - 2 * differing config m ds }
  failing : m'.failingCreates = m.failingCreates
  created : t.created = fresh m ds
  updated : t.updated = differing config m ds - refused m.script.conflicts (differing config m ds)
  failed : t.failed = refused m.script.conflicts (differing config m ds)
  updates : m'.calls.update = m.calls.update + (differing config m ds +
    retried m.script.conflicts (differing config m ds))
  fetches : m'.calls.fetchByKey = m.calls.fetchByKey +
    retried m.script.conflicts (differing config m ds)
  creates : m'.calls.create = m.calls.create + fresh m ds
  stored : ∀ d ∈ ds, m.get? (K.targetKey d) = none →
    ∃ id, m'.get? (K.targetKey d) = some (K.store id d)
  others : ∀ key, key ∉ ds.map K.targetKey → m'.get? key = m.get? key

variable {config : Config} {m m' m'' : Memory K} {ds ds' : List K.Draft} {s t : Tally}

/-! ### One record after the other -/

theorem differs_congr {d : K.Draft} (same : m'.get? (K.targetKey d) = m.get? (K.targetKey d)) :
    differs config m' d = differs config m d := by
  unfold differs
  rw [same]

/-- What drafts with other keys ask for is not affected by the records before them. -/
theorem Contended.counts (h : Contended config m ds s m')
    (apart : ∀ d ∈ ds', K.targetKey d ∉ ds.map K.targetKey) :
    differing config m' ds' = differing config m ds' ∧ fresh m' ds' = fresh m ds' := by
  have same : ∀ d ∈ ds', m'.get? (K.targetKey d) = m.get? (K.targetKey d) :=
    fun d there => h.others _ (apart d there)
  constructor
  · refine List.countP_congr fun d there => ?_
    rw [differs_congr (same d there)]
  · refine List.countP_congr fun d there => ?_
    rw [same d there]

theorem Contended.append (h : Contended config m ds s m') (h' : Contended config m' ds' t m'')
    (apart : ∀ d ∈ ds', K.targetKey d ∉ ds.map K.targetKey) :
    Contended config m (ds ++ ds') (s + t) m'' := by
  obtain ⟨differ, free⟩ := h.counts apart
  have all : differing config m (ds ++ ds') = differing config m ds + differing config m ds' :=
    List.countP_append
  have new : fresh m (ds ++ ds') = fresh m ds + fresh m ds' := List.countP_append
  have left : m'.script.conflicts = m.script.conflicts - 2 * differing config m ds := by
    rw [h.script]
  -- two conflicts are used up by each of the drafts before, or none is left
  have fail : refused m.script.conflicts (differing config m (ds ++ ds')) =
      refused m.script.conflicts (differing config m ds) +
        refused m'.script.conflicts (differing config m ds') := by
    rw [all, left]
    unfold refused
    omega
  have again : retried m.script.conflicts (differing config m (ds ++ ds')) =
      retried m.script.conflicts (differing config m ds) +
        retried m'.script.conflicts (differing config m ds') := by
    rw [all, left]
    unfold retried
    omega
  have within : ∀ c n, refused c n ≤ n := fun c n => Nat.min_le_left n (c / 2)
  refine ⟨?_, h'.failing.trans h.failing, ?_, ?_, ?_, ?_, ?_, ?_, ?_, ?_⟩
  · rw [h'.script, h.script, differ, all]
    simp only [Nat.mul_add, Nat.sub_sub]
  · rw [Tally.created_add, h.created, h'.created, free, new]
  · have before := within m.script.conflicts (differing config m ds)
    have after := within m'.script.conflicts (differing config m ds')
    rw [Tally.updated_add, h.updated, h'.updated, differ, fail, all]
    omega
  · rw [Tally.failed_add, h.failed, h'.failed, differ, fail]
  · rw [h'.updates, h.updates, differ, again, all]
    omega
  · rw [h'.fetches, h.fetches, differ, again]
    omega
  · rw [h'.creates, h.creates, free, new]
    omega
  · intro d there absent
    rcases List.mem_append.1 there with earlier | later
    · rw [h'.others _ (not_mem_of_apart apart earlier)]
      exact h.stored d earlier absent
    · exact h'.stored d later (by rw [h.others _ (apart d later), absent])
  · intro key free
    rw [List.map_append, List.mem_append, not_or] at free
    rw [h'.others key free.2, h.others key free.1]

/-- Without drafts, nothing but the fetch of a batch is left. -/
theorem contended_nil (script : m'.script = m.script) (failing : m'.failingCreates = m.failingCreates)
    (entities : m'.entities = m.entities) (updates : m'.calls.update = m.calls.update)
    (fetches : m'.calls.fetchByKey = m.calls.fetchByKey)
    (creates : m'.calls.create = m.calls.create) : Contended config m [] 0 m' where
  script := script
  failing := failing
  created := rfl
  updated := rfl
  failed := by simp [differing, refused]
  updates := by simp [differing, retried, updates]
  fetches := by simp [differing, retried, fetches]
  creates := by simp [fresh, creates]
  stored _ there := absurd there List.not_mem_nil
  others key _ := Memory.get?_congr entities key

theorem composes_contended (config : Config) : Composes (@Contended K config) where
  idle _ := contended_nil rfl rfl rfl rfl rfl rfl
  append h h' := h.append h'
  others h := h.others

/-! ### One record -/

/-- A draft that sends no update. -/
theorem contended_unsent {d : K.Draft} (agrees : differs config m d = false)
    (script : m'.script = m.script) (failing : m'.failingCreates = m.failingCreates)
    (tally : t = ⟨0, fresh m [d], 0, 0⟩)
    (calls : m'.calls = { m.calls with create := m.calls.create + fresh m [d] })
    (stored : m.get? (K.targetKey d) = none → ∃ id, m'.get? (K.targetKey d) = some (K.store id d))
    (others : ∀ key, key ≠ K.targetKey d → m'.get? key = m.get? key) :
    Contended config m [d] t m' := by
  have none : differing config m [d] = 0 := by simp [differing, agrees]
  refine ⟨?_, failing, by rw [tally], ?_, ?_, ?_, ?_, by rw [calls], ?_, ?_⟩
  · rw [script, none]
    rfl
  · rw [tally, none, Nat.zero_sub]
  · rw [tally, none, refused, Nat.zero_min]
  · rw [calls, none, retried, Nat.zero_min]
    rfl
  · rw [calls, none, retried, Nat.zero_min]
    rfl
  · intro d' there
    obtain rfl := List.mem_singleton.1 there
    exact stored
  · intro key other
    exact others key (by simpa using other)

/-- A draft that sends an update: it fails if two conflicts are pending, and is tried again if there is
    one. -/
theorem contended_sent {d : K.Draft} (needed : differs config m d = true)
    (script : m'.script = { m.script with conflicts := m.script.conflicts - 2 })
    (failing : m'.failingCreates = m.failingCreates)
    (tally : t = if m.script.conflicts < 2 then .ofUpdated 1 else .ofFailed 1)
    (calls : m'.calls = { m.calls with
      fetchByKey := m.calls.fetchByKey + retried m.script.conflicts 1
      update := m.calls.update + (1 + retried m.script.conflicts 1) })
    (others : ∀ key, key ≠ K.targetKey d → m'.get? key = m.get? key) :
    Contended config m [d] t m' := by
  have one : differing config m [d] = 1 := by simp [differing, needed]
  have there : m.get? (K.targetKey d) ≠ none := by
    intro free
    rw [differs, free] at needed
    cases needed
  have none : fresh m [d] = 0 := by simpa [fresh, Option.isSome_iff_ne_none] using there
  have fails : refused m.script.conflicts 1 = if m.script.conflicts < 2 then 0 else 1 := by
    unfold refused
    split
    · omega
    · omega
  refine ⟨by rw [script, one], failing, ?_, ?_, ?_, by rw [calls, one], by rw [calls, one], ?_, ?_,
    ?_⟩
  · rw [tally, none]
    split
    · rfl
    · rfl
  · rw [tally, one, fails]
    split
    · rfl
    · rfl
  · rw [tally, one, fails]
    split
    · rfl
    · rfl
  · rw [calls, none]
    rfl
  · intro d' listed free
    obtain rfl := List.mem_singleton.1 listed
    exact absurd free there
  · intro key other
    exact others key (by simpa using other)

/-- What an update call for a stored entity leaves, whether or not it meets a conflict. -/
structure Memory.Attempted (key : String) (m m' : Memory K) : Prop where
  script : m'.script = { m.script with conflicts := m.script.conflicts - 1 }
  failing : m'.failingCreates = m.failingCreates
  calls : m'.calls = { m.calls with update := m.calls.update + 1 }
  others : ∀ key', key' ≠ key → m'.get? key' = m.get? key'

namespace Sync

open Memory

variable {options : Options K (Memory K)} {d : K.Draft} {e : K.Entity}

theorem attempted_updated (calm : m.script.conflicts = 0) (key : String) (e : K.Entity)
    (actions : List K.Action) : Attempted key m (m.updated key e actions) where
  script := by
    rw [calm]
    show m.script = { m.script with conflicts := 0 }
    rw [← calm]
  failing := rfl
  calls := rfl
  others key' other := by
    have put : (m.updated key e actions).entities = m.entities.insert key (K.bumpVersion e) := rfl
    rw [get?_of_insert put, if_neg other.symm]

theorem attempted_conflicted (key : String) (m : Memory K) : Attempted key m m.conflicted :=
  ⟨rfl, rfl, rfl, fun _ _ => rfl⟩

/-- Once no conflict is pending, an update of a stored entity succeeds. -/
theorem update_of_stored (h : m.Conflicting) (stored : m.get? (K.targetKey d) = some e)
    (calm : m.script.conflicts = 0) (actions : List K.Action) :
    Memory.update e actions m = (.ok (K.bumpVersion e), m.updated (K.targetKey d) e actions) := by
  have own : K.storageKey e = K.targetKey d := h.own _ e stored
  rw [← own] at stored ⊢
  exact update_of_current calm (by rw [h.script]; rfl) stored rfl

/-- The last update call of a record fails if a conflict is pending. -/
theorem callLastUpdate_attempted (h : m.Conflicting) (stored : m.get? (K.targetKey d) = some e)
    (actions : List K.Action) :
    let o := callLastUpdate Memory.service e d actions m
    o.tally = (if m.script.conflicts = 0 then .ofUpdated 1 else .ofFailed 1) ∧
      Attempted (K.targetKey d) m o.world := by
  intro o
  rcases Nat.eq_zero_or_pos m.script.conflicts with calm | pending
  · have call := update_of_stored h stored calm actions
    rw [show o = _ from callLastUpdate_of_ok Memory.service call, if_pos calm]
    exact ⟨rfl, attempted_updated calm _ e actions⟩
  · obtain ⟨text, call⟩ := update_of_pending pending e actions
    rw [show o = _ from callLastUpdate_of_error Memory.service call,
      if_neg (Nat.pos_iff_ne_zero.1 pending)]
    exact ⟨Tally.zero_add _, attempted_conflicted _ m⟩

/-- The second try finds the entity as it was, and sends an update for it. -/
theorem retryUpdate_attempted (hookless : options.Hookless) (h : m.Conflicting)
    (stored : m.get? (K.targetKey d) = some e)
    (needed : (K.plan options.config e d).actions ≠ []) (stale : K.Entity) :
    let o := retryUpdate Memory.service options stale d m
    o.tally = (if m.script.conflicts = 0 then .ofUpdated 1 else .ofFailed 1) ∧
      Attempted (K.targetKey d) (m.count fun c => { c with fetchByKey := c.fetchByKey + 1 })
        o.world := by
  intro o
  let w := m.count fun c => { c with fetchByKey := c.fetchByKey + 1 }
  have fetch : Memory.fetchByKey (retryKey d) m = (.ok (some e), w) := by
    rw [fetchByKey_of_working (by rw [h.script]; rfl) (by rw [h.script]; rfl), ← stored]
    rfl
  obtain ⟨before, sent, world, none, -⟩ := actionsToSend_of_hookless hookless (e := e) rfl w
  have ends : retryUpdate Memory.service options stale d m = _ :=
    retryUpdate_of_loaded Memory.service options fetch sent needed
  have kept : w.Conflicting := ⟨h.own, h.script, h.failing⟩
  obtain ⟨tally, attempted⟩ :=
    callLastUpdate_attempted kept stored (K.plan options.config e d).actions
  rw [show o = _ from ends, Outcome.tally_andThen, Outcome.world_andThen, Outcome.tally_andThen,
    Outcome.world_andThen, none, world, Tally.zero_add, Tally.zero_add]
  exact ⟨tally, attempted⟩

/-- A draft that sends an update meets up to two pending conflicts. -/
theorem contended_callUpdate (hookless : options.Hookless) (h : m.Conflicting)
    (stored : m.get? (K.targetKey d) = some e)
    (needed : (K.plan options.config e d).actions ≠ []) :
    let o := callUpdate Memory.service options e d (K.plan options.config e d).actions m
    Contended options.config m [d] o.tally o.world := by
  intro o
  have asks : differs options.config m d = true := by simp [differs, stored, needed]
  rcases Nat.eq_zero_or_pos m.script.conflicts with calm | pending
  · have call := update_of_stored h stored calm (K.plan options.config e d).actions
    rw [show o = _ from callUpdate_of_accepted Memory.service options call]
    have attempted := attempted_updated calm (K.targetKey d) e (K.plan options.config e d).actions
    refine contended_sent asks ?_ rfl ?_ ?_ attempted.others
    · rw [attempted.script, calm]
    · rw [calm]
      rfl
    · rw [attempted.calls, calm]
      rfl
  · obtain ⟨text, call⟩ := update_of_pending pending e (K.plan options.config e d).actions
    have ends : callUpdate Memory.service options e d _ m = _ :=
      callUpdate_of_rejected Memory.service options call
    have kept : m.conflicted.Conflicting := by
      refine ⟨h.own, ?_, h.failing⟩
      rw [(attempted_conflicted (K.targetKey d) m).script, h.script]
    obtain ⟨tally, attempted⟩ := retryUpdate_attempted hookless kept stored needed e
    rw [show o = _ from ends, Outcome.tally_andThen, Outcome.world_andThen, Tally.zero_add]
    have again : retried m.script.conflicts 1 = 1 := by
      unfold retried
      omega
    refine contended_sent asks ?_ attempted.failing ?_ ?_ attempted.others
    · exact attempted.script
    · refine tally.trans ?_
      show (if m.script.conflicts - 1 = 0 then _ else _) = _
      congr 1
      rw [eq_iff_iff]
      omega
    · rw [again]
      exact attempted.calls

/-- A draft with a stored entity. -/
theorem contended_update (hookless : options.Hookless) (h : m.Conflicting)
    (stored : m.get? (K.targetKey d) = some e) :
    let o := update Memory.service options e d m
    Contended options.config m [d] o.tally o.world := by
  intro o
  obtain ⟨before, sent, world, none, -⟩ := actionsToSend_of_hookless hookless (e := e) rfl m
  by_cases agrees : (K.plan options.config e d).actions = []
  · rw [show o = _ from update_of_empty _ _ (by rw [sent, agrees]), sent, none, world]
    have old : fresh m [d] = 0 := by simp [fresh, stored]
    refine contended_unsent (by simp [differs, stored, agrees]) rfl rfl ?_ ?_ ?_ fun _ _ => rfl
    · rw [old]
      rfl
    · rw [old]
      rfl
    · intro free
      rw [stored] at free
      cases free
  · rw [show o = _ from update_of_loaded _ _ (by rw [sent]; exact agrees), sent,
      Outcome.tally_andThen, Outcome.world_andThen, none, world, Tally.zero_add]
    exact contended_callUpdate hookless h stored agrees

/-- A draft without a stored entity is created, whatever conflicts are pending. -/
theorem contended_create (hookless : options.Hookless) (h : m.Conflicting)
    (free : m.get? (K.targetKey d) = none) :
    let o := create Memory.service options d m
    Contended options.config m [d] o.tally o.world := by
  intro o
  have found : draftToCreate options d m = (some d, .idle m) := by
    simp only [draftToCreate, hookless.beforeCreate]
  have allowed : m.failingCreates.contains (K.targetKey d) = false := by
    rw [h.failing]
    rfl
  rw [show o = _ from create_of_passed _ _ found, Outcome.idle_andThen,
    callCreate_of_ok Memory.service (create_of_free allowed free)]
  have one : fresh m [d] = 1 := by simp [fresh, free]
  have put : (m.created d).entities = m.entities.insert (K.targetKey d)
      (K.store (.ofNat (m.minted + 1)) d) := rfl
  refine contended_unsent (by simp [differs, free]) rfl rfl ?_ ?_ ?_ ?_
  · rw [one]
    rfl
  · rw [one]
    rfl
  · exact fun _ => ⟨_, by rw [get?_of_insert put, if_pos rfl]⟩
  · intro key other
    rw [get?_of_insert put, if_neg other.symm]

theorem contended_record (hookless : options.Hookless) (h : m.Conflicting) (d : K.Draft) :
    Contended options.config m [d] (record Memory.service options (m.matched d) m).tally
      (record Memory.service options (m.matched d) m).world := by
  unfold matched
  cases stored : m.get? (K.targetKey d) with
  | none => exact contended_create hookless h stored
  | some e => exact contended_update hookless h stored

/-! ### Whole runs -/

variable [LawfulKind K]

theorem contended_byRecord (hookless : options.Hookless) :
    ByRecord options Conflicting (@Contended K options.config) := by
  intro m d h
  have contended := contended_record hookless h d
  refine ⟨contended, (carried_ownKeys hookless.still).record (m.matched d) m h.own, ?_,
    contended.failing.trans h.failing⟩
  rw [contended.script, h.script]

/-- A run over drafts with distinct keys, however they are cut into batches. -/
theorem contended_run (hookless : options.Hookless) (h : m.Conflicting)
    {drafts : List (Option K.Draft)}
    (distinct : ((drafts.filterMap K.accepted?).map K.targetKey).Nodup) :
    let o := run Memory.service options drafts m
    ∃ t, o.tally = .ofProcessed drafts.length + t ∧
      Contended options.config m (drafts.filterMap K.accepted?) t o.world := by
  have rule : Composes (@Contended K options.config) := composes_contended options.config
  have step : ByBatch options Conflicting (@Contended K options.config) :=
    rule.byBatch (contended_byRecord hookless) (fun _ h => h.own)
      (fun m h => by rw [h.script]; rfl)
      (fun m h => ⟨contended_nil rfl rfl rfl rfl rfl rfl, ⟨h.own, h.script, h.failing⟩⟩)
  obtain ⟨t, counted, contended, -⟩ := rule.run step h distinct
  exact ⟨t, counted, contended⟩

/-- **Pending conflicts are met two by two.** Let the keys of the drafts be distinct, and let nothing
    be scripted but the next `c` updates to conflict. Of the `u` accepted drafts whose key is stored
    and whose diff with the stored entity has actions, one fails for every two conflicts, and the
    others update their entities. Every one of the `u` sends an update; those that meet a conflict
    are fetched again and send another. Two conflicts are used up by each of them, as far as there
    are any. The accepted drafts whose key is free are created by one call each, as they are without
    conflicts. -/
theorem run_retries (hookless : options.Hookless) (reachable : m.Reachable)
    (unscripted : m.Unscripted) (c : Nat) {drafts : List (Option K.Draft)}
    (distinct : (drafts.filterMap K.entryKey?).Nodup) :
    let o := run Memory.service options drafts (m.conflictNextUpdates c)
    let accepted := drafts.filterMap K.accepted?
    let u := accepted.countP (differs options.config m)
    let new := accepted.filter fun d => (m.get? (K.targetKey d)).isNone
    o.tally.failed = min u (c / 2) ∧
    o.tally.updated = u - o.tally.failed ∧
    o.world.calls.update = m.calls.update + (u + min u ((c + 1) / 2)) ∧
    o.world.calls.fetchByKey = m.calls.fetchByKey + min u ((c + 1) / 2) ∧
    o.world.script.conflicts = c - 2 * u ∧
    o.tally.created = new.length ∧
    o.world.calls.create = m.calls.create + new.length ∧
    ∀ d ∈ new, ∃ id, o.world.get? (K.targetKey d) = some (K.store id d) := by
  intro o accepted u new
  have start : (m.conflictNextUpdates c).Conflicting := by
    refine ⟨reachable.ownKeys, ?_, unscripted.failing⟩
    show { m.script with conflicts := c } = _
    rw [unscripted.script]
    rfl
  obtain ⟨t, counted, h⟩ := contended_run hookless start (nodup_accepted distinct)
  have free : fresh (m.conflictNextUpdates c) accepted = new.length :=
    List.countP_eq_length_filter
  have counts : o.tally = .ofProcessed drafts.length + t := counted
  have failed : o.tally.failed = min u (c / 2) := by
    rw [counts, Tally.failed_add, h.failed]
    exact Nat.zero_add _
  refine ⟨failed, ?_, h.updates, h.fetches, ?_, ?_, ?_, ?_⟩
  · rw [failed, counts, Tally.updated_add, h.updated]
    exact Nat.zero_add _
  · rw [h.script]
    rfl
  · rw [counts, Tally.created_add, h.created, free]
    exact Nat.zero_add _
  · rw [h.creates, free]
    rfl
  · intro d there
    obtain ⟨listed, none⟩ := List.mem_filter.1 there
    exact h.stored d listed (Option.isNone_iff_eq_none.1 none)

/-- Three channels are stored. -/
def threeChannels : Memory .channel :=
  .ofEntities [Channel.ofDraft (.ofNat 1) (.ofKey "berlin"),
    Channel.ofDraft (.ofNat 2) (.ofKey "paris"), Channel.ofDraft (.ofNat 3) (.ofKey "rome")]

/-- The stored channels get names, one channel is new, and one entry is no draft. -/
def namedDrafts : List (Option ChannelDraft) :=
  [some ((ChannelDraft.ofKey "berlin").withName (.of "en" "Berlin")), none, some (.ofKey "oslo"),
    some ((ChannelDraft.ofKey "paris").withName (.of "en" "Paris")),
    some ((ChannelDraft.ofKey "rome").withName (.of "en" "Rome"))]

/-- Two of three conflicts fail the first channel, and the third one is made good. -/
theorem run_retries_threeConflicts :
    let options : Options .channel (Memory .channel) := .default
    options.Hookless ∧ threeChannels.Reachable ∧ threeChannels.Unscripted ∧
    (namedDrafts.filterMap Kind.channel.entryKey?).Nodup ∧
    let o := run Memory.service options namedDrafts (threeChannels.conflictNextUpdates 3)
    o.tally.failed = 1 ∧ o.tally.updated = 2 ∧ o.world.calls.update = 5 ∧
      o.world.calls.fetchByKey = 2 ∧ o.world.script.conflicts = 0 ∧ o.tally.created = 1 := by
  intro options
  have hookless : options.Hookless := ⟨rfl, rfl⟩
  have reachable : threeChannels.Reachable := .ofEntities _
  have unscripted : threeChannels.Unscripted := ⟨rfl, rfl⟩
  have distinct : (namedDrafts.filterMap Kind.channel.entryKey?).Nodup := by decide
  obtain ⟨failed, updated, updates, fetches, left, created, -⟩ :=
    run_retries hookless reachable unscripted 3 distinct
  have differ : (namedDrafts.filterMap Kind.channel.accepted?).countP
      (differs options.config threeChannels) = 3 := by decide
  rw [failed] at updated
  rw [differ] at failed updated updates fetches left
  exact ⟨hookless, reachable, unscripted, distinct, failed, updated, updates, fetches, left,
    created.trans (by decide)⟩

end Sync

end CatalogSync
