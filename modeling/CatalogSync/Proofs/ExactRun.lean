import CatalogSync.Proofs.Siblings

/- The exact outcome of a run without failures and hooks. Every record of every batch has the fate of
   its draft. So what a batch leaves can be read off its drafts and the state that it starts in
   (`Aftermath`), and the failures of a run are the drafts whose key was new to their batch, all but
   the first one for each key (`surplus`). Main statement: `run_exact`. -/
namespace CatalogSync

/-! ### Counting drafts that share a key -/

section Counting

variable {K : Kind}

/-- How many drafts have one of the keys after another draft with the key. -/
def repeated (keys : List String) (ds : List K.Draft) : Nat :=
  (keys.map fun key => (ds.countP fun d => K.targetKey d = key) - 1).sum

theorem repeated_nil (keys : List String) : repeated keys ([] : List K.Draft) = 0 := by
  simp [repeated]

/-- With a further draft, those behind the first one with a key are one more if the draft has the key
    and is not the first. -/
theorem countP_sub_one_append (ds : List K.Draft) (d : K.Draft) (key : String) :
    ((ds ++ [d]).countP fun d => K.targetKey d = key) - 1 =
      ((ds.countP fun d => K.targetKey d = key) - 1) +
        if K.targetKey d = key ∧ key ∈ ds.map K.targetKey then 1 else 0 := by
  have occurs : key ∈ ds.map K.targetKey ↔ 0 < ds.countP fun d => K.targetKey d = key := by
    simp [List.countP_pos_iff]
  simp only [List.countP_append, List.countP_singleton, occurs]
  by_cases same : K.targetKey d = key
  · simp only [same, decide_true, if_true, true_and]
    split
    · omega
    · omega
  · simp [same]

/-- Of distinct keys, at most one is the given one. -/
theorem sum_indicator {keys : List String} (distinct : keys.Nodup) (key : String)
    (p : String → Prop) [DecidablePred p] :
    (keys.map fun key' => if key = key' ∧ p key' then 1 else 0).sum =
      if key ∈ keys ∧ p key then 1 else 0 := by
  rw [List.sum_map_eq_nsmul_single key]
  · rw [distinct.count]
    by_cases there : key ∈ keys
    · simp [there]
    · simp [there]
  · intro key' other _
    simp [Ne.symm other]

/-- A further draft counts if its key is one of the keys and occurred before. -/
theorem repeated_append_singleton {keys : List String} (distinct : keys.Nodup)
    (ds : List K.Draft) (d : K.Draft) :
    repeated keys (ds ++ [d]) = repeated keys ds +
      if K.targetKey d ∈ keys ∧ K.targetKey d ∈ ds.map K.targetKey then 1 else 0 := by
  simp only [repeated, countP_sub_one_append]
  rw [List.sum_map_add, sum_indicator distinct (K.targetKey d) (· ∈ ds.map K.targetKey)]

/-- The failures to expect of a validated batch: for every key that is not stored, all of its drafts
    but the first. -/
def surplus (m : Memory K) (v : Validated K) : Nat :=
  repeated (v.keys.toList.filter fun key => (m.get? key).isNone) v.drafts

/-- The draft asks for an update of what is stored under its key. -/
def differs (config : Config) (m : Memory K) (d : K.Draft) : Bool :=
  (m.get? (K.targetKey d)).any fun e => !(K.plan config e d).actions.isEmpty

/-- The draft is for a key that is not stored. -/
def isNew (m : Memory K) (d : K.Draft) : Bool := (m.get? (K.targetKey d)).isNone

/-- The update that a draft asks for, as it is logged. -/
def requested (config : Config) (m : Memory K) (d : K.Draft) : List (String × List K.Action) :=
  match m.get? (K.targetKey d) with
  | none => []
  | some e =>
    if (K.plan config e d).actions.isEmpty then []
    else [(K.targetKey d, (K.plan config e d).actions)]

/-- How many of the drafts with a key ask for an update. -/
def updatesFor (config : Config) (m : Memory K) (ds : List K.Draft) (key : String) : Nat :=
  ds.countP fun d => K.targetKey d = key && differs config m d

theorem updatesFor_append_singleton (config : Config) (m : Memory K) (ds : List K.Draft)
    (d : K.Draft) (key : String) :
    updatesFor config m (ds ++ [d]) key = updatesFor config m ds key +
      if K.targetKey d = key ∧ differs config m d = true then 1 else 0 := by
  simp [updatesFor, List.countP_append, List.countP_singleton]

theorem find?_append_singleton_of_ne {ds : List K.Draft} {d : K.Draft} {key : String}
    (other : K.targetKey d ≠ key) :
    (ds ++ [d]).find? (K.targetKey · = key) = ds.find? (K.targetKey · = key) := by
  simp [List.find?_append, other]

end Counting

/-- What the records of the drafts `ds` make of the state `start`: every update that is asked for is
    logged, in the order of the drafts, and raises the version by one; and a key that was free has
    the entity of the first draft for it. -/
structure Aftermath {K : Kind} [LawfulKind K] (config : Config) (start : Memory K)
    (ds : List K.Draft) (m : Memory K) : Prop where
  applied : m.applied = start.applied ++ ds.flatMap (requested config start)
  stored : ∀ key e, start.get? key = some e → m.get? key = some
    (LawfulKind.withVersion e (K.entityVersion e + .ofNat (updatesFor config start ds key)))
  created : ∀ key d, start.get? key = none → ds.find? (K.targetKey · = key) = some d →
    ∃ id, m.get? key = some (K.store id d)
  free : ∀ key, start.get? key = none → ds.find? (K.targetKey · = key) = none →
    m.get? key = none

/-- The events of a run in which no update fails. -/
inductive Event.Expected {K : Kind} : Event K → Prop
  | rejected (r : Rejection K) : Expected (.rejected r)
  | issue (e : K.Entity) (d : K.Draft) (i : Issue) : Expected (.issue e d i)
  | createFailed (d : K.Draft) (error : SyncError) : Expected (.createFailed d error)

namespace Sync

open Memory LawfulKind

variable {K : Kind}

/-! ### The records of a batch -/

/-- The records of a batch, each with those before it and the state that it starts in. -/
def recordStages {σ : Type} (service : Service K σ) (options : Options K σ)
    (batch : List (Option K.Draft)) (w : σ) : List (Stage (Matched K) σ) :=
  let v := validate K batch
  match service.fetchMatching v.keys w with
  | (.ok existing, w) => Outcome.stages (record service options) (matchDrafts K existing v.drafts) w
  | (.error _, _) => []

section Stages

variable {σ : Type} (service : Service K σ) (options : Options K σ)
  {batch : List (Option K.Draft)} {w w' : σ}

theorem recordStages_of_failed {error : SyncError}
    (fetch : service.fetchMatching (validate K batch).keys w = (.error error, w')) :
    recordStages service options batch w = [] := by
  simp only [recordStages, fetch]

theorem recordStages_of_fetched {existing : List K.Entity}
    (fetch : service.fetchMatching (validate K batch).keys w = (.ok existing, w')) :
    recordStages service options batch w = Outcome.stages (record service options)
      (matchDrafts K existing (validate K batch).drafts) w' := by
  simp only [recordStages, fetch]

theorem recordStages_of_empty (empty : (validate K batch).drafts = []) :
    recordStages service options batch w = [] := by
  rcases fetch : service.fetchMatching (validate K batch).keys w with ⟨error | existing, w'⟩
  · exact recordStages_of_failed service options fetch
  · rw [recordStages_of_fetched service options fetch, empty]
    rfl

theorem draft_matchDraft (stored : SortedMap String K.Entity) (d : K.Draft) :
    (matchDraft K stored d).draft = d := by
  unfold matchDraft
  split <;> rfl

theorem drafts_matchDrafts (existing : List K.Entity) (drafts : List K.Draft) :
    (matchDrafts K existing drafts).map Matched.draft = drafts := by
  rw [matchDrafts, List.map_map]
  exact (List.map_congr_left fun d _ => draft_matchDraft _ d).trans (List.map_id _)

/-- The drafts of the records are those that were matched, in their order. -/
theorem drafts_stages (existing : List K.Entity) (drafts : List K.Draft) (w : σ) :
    (Outcome.stages (record service options) (matchDrafts K existing drafts) w).map
      (·.item.draft) = drafts := by
  calc (Outcome.stages (record service options) (matchDrafts K existing drafts) w).map
        (·.item.draft)
      = ((Outcome.stages (record service options) (matchDrafts K existing drafts) w).map
          (·.item)).map Matched.draft := by
        rw [List.map_map]
        rfl
    _ = drafts := by rw [Outcome.map_item_stages, drafts_matchDrafts]

end Stages

/-- A chain of stages adds to the log what its stages add. -/
theorem applied_of_chained {α : Type} {step : α → Memory K → Outcome K (Memory K)}
    {log : Stage α (Memory K) → List (String × List K.Action)} {stages : List (Stage α (Memory K))}
    {m m' : Memory K} (chained : Outcome.Chained step m stages m')
    (adds : ∀ s ∈ stages, (step s.item s.world).world.applied = s.world.applied ++ log s) :
    m'.applied = m.applied ++ stages.flatMap log := by
  induction stages generalizing m with
  | nil =>
    obtain rfl : m' = m := chained
    exact (List.append_nil _).symm
  | cons s stages ih =>
    obtain ⟨rfl, rest⟩ := chained
    rw [ih rest fun s' there => adds s' (List.mem_cons_of_mem _ there), adds s List.mem_cons_self,
      List.flatMap_cons, List.append_assoc]

/-! ### Reading a fate -/

variable {options : Options K (Memory K)} {config : Config} {start w : Memory K}
  {earlier : List K.Draft} {d : K.Draft} {o : Outcome K (Memory K)}

/-- What a draft counts as failed. -/
theorem Fate.failed (fate : Fate config start earlier d w o) :
    o.tally.failed = if start.get? (K.targetKey d) = none ∧
      K.targetKey d ∈ earlier.map K.targetKey then 1 else 0 := by
  cases fate with
  | left stored _ _ tally => simp [stored, tally]
  | updated stored _ _ _ _ tally => simp [stored, tally, Tally.ofUpdated]
  | created free first _ _ tally => rw [tally, if_neg fun both => first both.2]; rfl
  | refused free later _ _ tally => rw [tally, if_pos ⟨free, later⟩]; rfl

/-- What a draft counts as updated. -/
theorem Fate.updated_eq (fate : Fate config start earlier d w o) :
    o.tally.updated = if differs config start d = true then 1 else 0 := by
  cases fate with
  | left stored agrees _ tally => simp [differs, stored, agrees, tally]
  | updated stored needed _ _ _ tally =>
    simp [differs, stored, needed, tally, Tally.ofUpdated]
  | created free _ _ _ tally => simp [differs, free, tally, Tally.ofCreated]
  | refused free _ _ _ tally => simp [differs, free, tally, Tally.ofFailed]

/-- A draft for a key that is not stored is created or fails. -/
theorem Fate.created_failed (fate : Fate config start earlier d w o) :
    o.tally.created + o.tally.failed = if isNew start d = true then 1 else 0 := by
  cases fate with
  | left stored _ _ tally => simp [isNew, stored, tally]
  | updated stored _ _ _ _ tally => simp [isNew, stored, tally, Tally.ofUpdated]
  | created free _ _ _ tally => simp [isNew, free, tally, Tally.ofCreated]
  | refused free _ _ _ tally => simp [isNew, free, tally, Tally.ofFailed]

/-- What is logged for a draft is the update that it asks for. -/
theorem Fate.applied_eq (fate : Fate config start earlier d w o) :
    o.world.applied = w.applied ++ requested config start d := by
  cases fate with
  | left stored agrees world => simp [requested, stored, agrees, world]
  | updated stored needed _ _ applied => simp [requested, stored, needed, applied]
  | created free _ _ applied => simp [requested, free, applied]
  | refused free _ _ applied => simp [requested, free, applied]

/-- The events of a record report issues of the diff, or that a create failed. -/
theorem Fate.events_expected (fate : Fate config start earlier d w o) :
    ∀ x ∈ o.events, x.Expected := by
  cases fate with
  | left _ _ _ _ _ events =>
    intro x there
    obtain ⟨e, i, -, rfl⟩ := events x there
    exact .issue e d i
  | updated _ _ _ _ _ _ _ events =>
    intro x there
    obtain ⟨e, i, -, rfl⟩ := events x there
    exact .issue e d i
  | created _ _ _ _ _ _ events =>
    rw [events]
    exact fun x there => absurd there List.not_mem_nil
  | @refused error _ _ _ _ _ _ events =>
    rw [events]
    intro x there
    rw [List.mem_singleton.1 there]
    exact .createFailed d error

variable [LawfulKind K]

/-- After a record, its draft is one of the earlier ones. -/
theorem Fate.midway (fate : Fate config start earlier d w o) (midway : Midway start earlier w)
    (unscripted : o.world.Unscripted) (own : o.world.OwnKeys) :
    Midway start (earlier ++ [d]) o.world := by
  have grows : ∀ key, key ∈ (earlier ++ [d]).map K.targetKey ↔
      key ∈ earlier.map K.targetKey ∨ K.targetKey d = key := by
    intro key
    simp [eq_comm]
  cases fate with
  | left stored _ world =>
    rw [world]
    refine ⟨midway.unscripted, midway.own, midway.kept, ?_⟩
    intro key free
    rw [midway.new key free, grows]
    simp [ne_of_stored_of_free stored free]
  | updated stored _ found entities =>
    refine ⟨unscripted, own, ?_, ?_⟩
    · intro key e' stored'
      obtain ⟨v, found'⟩ := midway.kept key e' stored'
      rw [get?_of_insert entities]
      split
      · next same =>
        -- the same entity, at its next version
        subst same
        rw [found] at found'
        cases found'
        exact ⟨_, by rw [bumpVersion_eq, withVersion_withVersion]⟩
      · exact ⟨v, found'⟩
    · intro key free
      have other := ne_of_stored_of_free stored free
      rw [get?_of_insert entities, if_neg other, midway.new key free, grows]
      simp [other]
  | created free _ entities =>
    refine ⟨unscripted, own, ?_, ?_⟩
    · intro key e' stored
      rw [get?_of_insert entities, if_neg (ne_of_stored_of_free stored free).symm]
      exact midway.kept key e' stored
    · intro key free'
      rw [get?_of_insert entities, grows]
      by_cases same : K.targetKey d = key
      · simp [same]
      · simp only [same, if_false, or_false]
        exact midway.new key free'
  | refused free later entities =>
    refine ⟨unscripted, own, ?_, ?_⟩
    · intro key e' stored
      rw [get?_congr entities]
      exact midway.kept key e' stored
    · intro key free'
      rw [get?_congr entities, midway.new key free', grows]
      constructor
      · exact .inl
      · rintro (there | rfl)
        · exact there
        · exact later

theorem aftermath_nil (entities : w.entities = start.entities)
    (applied : w.applied = start.applied) : Aftermath config start [] w := by
  refine ⟨by rw [applied]; exact (List.append_nil _).symm, ?_, ?_, ?_⟩
  · intro key e found
    rw [get?_congr entities, found]
    show some e = some (withVersion e (K.entityVersion e + 0))
    rw [UInt64.add_zero, withVersion_entityVersion]
  · exact fun _ _ _ found => nomatch found
  · exact fun key free _ => by rw [get?_congr entities, free]

/-- With the fate of its draft, a record adds to what the records before it have left. -/
theorem Fate.aftermath (fate : Fate config start earlier d w o)
    (h : Aftermath config start earlier w) : Aftermath config start (earlier ++ [d]) o.world := by
  have applied : o.world.applied =
      start.applied ++ (earlier ++ [d]).flatMap (requested config start) := by
    rw [fate.applied_eq, h.applied, List.append_assoc, List.flatMap_append]
    simp
  -- a draft that asks for no update leaves every stored entity
  have quiet : differs config start d = false →
      (∀ key e, start.get? key = some e → o.world.get? key = w.get? key) →
      ∀ key e, start.get? key = some e → o.world.get? key = some (withVersion e
        (K.entityVersion e + .ofNat (updatesFor config start (earlier ++ [d]) key))) := by
    intro same leaves key e found
    rw [updatesFor_append_singleton, same, leaves key e found, h.stored key e found]
    simp
  -- and one for a stored key leaves every other key
  have apart : ∀ {e : K.Entity}, start.get? (K.targetKey d) = some e →
      (∀ key, K.targetKey d ≠ key → o.world.get? key = w.get? key) →
      ∀ key, start.get? key = none → o.world.get? key = w.get? key ∧
        (earlier ++ [d]).find? (K.targetKey · = key) =
          earlier.find? (K.targetKey · = key) := by
    intro e stored leaves key free
    have other := ne_of_stored_of_free stored free
    exact ⟨leaves key other, find?_append_singleton_of_ne other⟩
  cases fate with
  | left stored agrees world =>
    have still : ∀ key, o.world.get? key = w.get? key := fun key => by rw [world]
    refine ⟨applied, quiet (by simp [differs, stored, agrees]) (fun key _ _ => still key), ?_, ?_⟩
    · intro key d' free found
      obtain ⟨same, first⟩ := apart stored (fun key _ => still key) key free
      rw [same]
      exact h.created key d' free (first.symm.trans found)
    · intro key free none
      obtain ⟨same, first⟩ := apart stored (fun key _ => still key) key free
      rw [same]
      exact h.free key free (first.symm.trans none)
  | @updated e now stored needed found entities =>
    have leaves : ∀ key, K.targetKey d ≠ key → o.world.get? key = w.get? key :=
      fun key other => by rw [get?_of_insert entities, if_neg other]
    refine ⟨applied, ?_, ?_, ?_⟩
    · intro key e' stored'
      rw [updatesFor_append_singleton]
      by_cases same : K.targetKey d = key
      · -- the version that the earlier drafts have left is raised by one
        subst same
        have at_key := h.stored _ _ stored
        rw [found] at at_key
        cases at_key
        rw [stored] at stored'
        cases stored'
        rw [get?_of_insert entities, if_pos rfl, bumpVersion_eq, withVersion_withVersion,
          entityVersion_withVersion]
        have one : differs config start d = true := by simp [differs, stored, needed]
        simp only [one, and_self, if_true, UInt64.ofNat_add, UInt64.add_assoc]
        rfl
      · rw [leaves key same, h.stored key e' stored']
        simp [same]
    · intro key d' free found'
      obtain ⟨same, first⟩ := apart stored leaves key free
      rw [same]
      exact h.created key d' free (first.symm.trans found')
    · intro key free none
      obtain ⟨same, first⟩ := apart stored leaves key free
      rw [same]
      exact h.free key free (first.symm.trans none)
  | @created id free first entities =>
    have absent : earlier.find? (K.targetKey · = K.targetKey d) = none := by
      rw [List.find?_eq_none]
      intro d' there same
      exact first (List.mem_map.2 ⟨d', there, by simpa using same⟩)
    have leaves : ∀ key, K.targetKey d ≠ key → o.world.get? key = w.get? key :=
      fun key other => by rw [get?_of_insert entities, if_neg other]
    refine ⟨applied, quiet (by simp [differs, free]) (fun key e found =>
      leaves key (ne_of_stored_of_free found free).symm), ?_, ?_⟩
    · intro key d' free' found
      by_cases same : K.targetKey d = key
      · subst same
        have here : some d = some d' := by simpa [List.find?_append, absent] using found
        cases here
        exact ⟨id, by rw [get?_of_insert entities, if_pos rfl]⟩
      · rw [leaves key same]
        exact h.created key d' free' ((find?_append_singleton_of_ne same).symm.trans found)
    · intro key free' none
      have other : K.targetKey d ≠ key := by
        rintro rfl
        simp [List.find?_append] at none
      rw [leaves key other]
      exact h.free key free' ((find?_append_singleton_of_ne other).symm.trans none)
  | refused free later entities =>
    have still : ∀ key, o.world.get? key = w.get? key := get?_congr entities
    obtain ⟨d', there, same⟩ := List.mem_map.1 later
    -- an earlier draft with the key is the first one
    have first : ∀ key, (earlier ++ [d]).find? (K.targetKey · = key) =
        earlier.find? (K.targetKey · = key) := by
      intro key
      rw [List.find?_append]
      cases found : earlier.find? (K.targetKey · = key) with
      | some _ => rfl
      | none =>
        have other : K.targetKey d ≠ key := by
          intro again
          rw [List.find?_eq_none] at found
          exact found d' there (by simp [same, again])
        simp [other]
    refine ⟨applied, quiet (by simp [differs, free]) (fun key _ _ => still key), ?_, ?_⟩
    · intro key d'' free' found
      rw [still key]
      exact h.created key d'' free' ((first key).symm.trans found)
    · intro key free' none
      rw [still key]
      exact h.free key free' ((first key).symm.trans none)

/-- The fate of a draft, by its record. -/
theorem fate_record (hookless : options.Hookless) (midway : Midway start earlier w)
    (own : start.OwnKeys) (d : K.Draft) :
    Fate options.config start earlier d w
      (record Memory.service options (start.matched d) w) := by
  unfold matched
  cases stored : start.get? (K.targetKey d) with
  | none => exact fate_create hookless midway stored
  | some e => exact fate_update hookless midway own stored

/-! ### Batches -/

theorem recordStages_eq {m : Memory K} (own : m.OwnKeys) (unscripted : m.Unscripted)
    (batch : List (Option K.Draft)) :
    recordStages Memory.service options batch m = Outcome.stages (record Memory.service options)
      ((validate K batch).drafts.map m.matched) m.fetched := by
  rw [recordStages_of_fetched Memory.service options
    (fetchMatching_of_working unscripted.fetches (validate K batch).keys), matchDrafts_fetched own]

/-- The store after some records of a batch. -/
theorem midway_records (hookless : options.Hookless) {m : Memory K} (own : m.OwnKeys)
    (unscripted : m.Unscripted) (ds : List K.Draft) :
    Midway m ds (Outcome.sequence (record Memory.service options) (ds.map m.matched)
      m.fetched).world := by
  have keepsOwn := carried_ownKeys hookless.still
  have keepsScript := carried_unscripted hookless.still
  induction ds using List.reverseRecOn with
  | nil => exact midway_fetched own unscripted
  | append_singleton ds d ih =>
    rw [List.map_append, Outcome.sequence_append, Outcome.world_andThen]
    refine (fate_record hookless ih own d).midway ih ?_ ?_
    · exact keepsScript.record (m.matched d) _ ih.unscripted
    · exact keepsOwn.record (m.matched d) _ ih.own

/-- What the records of a batch make of the store and the log. -/
theorem aftermath_records (hookless : options.Hookless) {m : Memory K} (own : m.OwnKeys)
    (unscripted : m.Unscripted) (ds : List K.Draft) :
    Aftermath options.config m ds (Outcome.sequence (record Memory.service options)
      (ds.map m.matched) m.fetched).world := by
  induction ds using List.reverseRecOn with
  | nil => exact aftermath_nil rfl rfl
  | append_singleton ds d ih =>
    rw [List.map_append, List.map_singleton, Outcome.sequence_append_singleton]
    exact (fate_record hookless (midway_records hookless own unscripted ds) own d).aftermath ih

/-- The counts after some records of a batch. -/
theorem tally_records (hookless : options.Hookless) {m : Memory K} (own : m.OwnKeys)
    (unscripted : m.Unscripted) {keys : List String} (distinct : keys.Nodup) {ds : List K.Draft}
    (known : ∀ d ∈ ds, K.targetKey d ∈ keys) :
    let o := Outcome.sequence (record Memory.service options) (ds.map m.matched) m.fetched
    o.tally.failed = repeated (keys.filter fun key => (m.get? key).isNone) ds ∧
    o.tally.updated = ds.countP (differs options.config m) ∧
    o.tally.created + o.tally.failed = ds.countP (isNew m) := by
  induction ds using List.reverseRecOn with
  | nil => exact ⟨(repeated_nil _).symm, rfl, rfl⟩
  | append_singleton ds d ih =>
    obtain ⟨failed, updated, new⟩ := ih fun d there => known d (List.mem_append_left _ there)
    have fate := fate_record hookless (midway_records hookless own unscripted ds) own d
    have here : K.targetKey d ∈ keys := known d (by simp)
    rw [List.map_append, List.map_singleton, Outcome.sequence_append_singleton]
    refine ⟨?_, ?_, ?_⟩
    · rw [Outcome.tally_andThen, Tally.failed_add, failed, fate.failed,
        repeated_append_singleton (distinct.filter _)]
      simp [here]
    · rw [Outcome.tally_andThen, Tally.updated_add, updated, fate.updated_eq, List.countP_append,
        List.countP_singleton]
    · rw [Outcome.tally_andThen, Tally.created_add, Tally.failed_add, Nat.add_add_add_comm, new,
        fate.created_failed, List.countP_append, List.countP_singleton]

/-- Every record of a batch has the fate of its draft. -/
theorem fate_of_mem_recordStages (hookless : options.Hookless) {m : Memory K} (own : m.OwnKeys)
    (unscripted : m.Unscripted) {batch : List (Option K.Draft)} {r : Stage (Matched K) (Memory K)}
    (there : r ∈ recordStages Memory.service options batch m) :
    Fate options.config m (r.earlier.map Matched.draft) r.item.draft r.world
      (record Memory.service options r.item r.world) := by
  rw [recordStages_eq own unscripted] at there
  obtain ⟨⟨later, split⟩, starts⟩ := Outcome.of_mem_stages _ there
  obtain ⟨ds, rest, -, earlier, rest_eq⟩ := List.map_eq_append_iff.1 split
  obtain ⟨d, rest', -, item, -⟩ := List.map_eq_cons_iff.1 rest_eq
  have drafts : (ds.map m.matched).map Matched.draft = ds := by
    rw [List.map_map]
    exact (List.map_congr_left fun d _ => draft_matched m d).trans (List.map_id ds)
  rw [starts, ← earlier, ← item, drafts, draft_matched]
  exact fate_record hookless (midway_records hookless own unscripted ds) own d

/-- The drafts of the records are the drafts of the validated batch. -/
theorem drafts_recordStages {m : Memory K} (own : m.OwnKeys) (unscripted : m.Unscripted)
    (batch : List (Option K.Draft)) :
    (recordStages Memory.service options batch m).map (fun r => r.item.draft) =
      (validate K batch).drafts := by
  rw [recordStages_eq own unscripted, ← matchDrafts_fetched own]
  exact drafts_stages Memory.service options _ _ _

/-- The records of a batch that is not empty. -/
theorem records_fetched {m : Memory K} (own : m.OwnKeys) (unscripted : m.Unscripted)
    (batch : List (Option K.Draft)) :
    records Memory.service options (validate K batch) m =
      Outcome.andThen ⟨m.fetched, .zero, [.fetchMatching (validate K batch).keys
          (.ok ((validate K batch).keys.toList.filterMap m.get?))]⟩
        (Outcome.sequence (record Memory.service options)
          ((validate K batch).drafts.map m.matched)) := by
  rw [records_of_ok Memory.service options
    (fetchMatching_of_working unscripted.fetches (validate K batch).keys), matchDrafts_fetched own]

/-- The counts of a batch. -/
theorem tally_batch (hookless : options.Hookless) {m : Memory K} (own : m.OwnKeys)
    (unscripted : m.Unscripted) (drafts : List (Option K.Draft)) :
    let o := batch Memory.service options drafts m
    o.tally.failed = surplus m (validate K drafts) ∧
    o.tally.updated = (validate K drafts).drafts.countP (differs options.config m) ∧
    o.tally.created + o.tally.failed = (validate K drafts).drafts.countP (isNew m) := by
  by_cases empty : (validate K drafts).drafts = []
  · rw [batch_of_empty _ _ empty, surplus, empty, repeated_nil]
    exact ⟨rfl, rfl, rfl⟩
  · intro o
    obtain ⟨failed, updated, new⟩ := tally_records hookless own unscripted
      (validate K drafts).keys.nodup_toList fun d there => mem_keys_validate.2 ⟨d, there, rfl⟩
    have ends : o = _ := batch_of_loaded _ _ empty m
    rw [ends, Outcome.tally_andThen, records_fetched own unscripted, Outcome.tally_andThen,
      surplus, ← failed, ← updated, ← new]
    simp [Tally.ofProcessed]

/-- A batch is made of its records: it ends where the last of them ends, and counts and does what
    they count and do, behind the rejections and the one fetch. -/
theorem batch_stages {m : Memory K} (own : m.OwnKeys) (unscripted : m.Unscripted)
    (drafts : List (Option K.Draft)) :
    let v := validate K drafts
    let o := batch Memory.service options drafts m
    let records := recordStages Memory.service options drafts m
    (∃ w, w.entities = m.entities ∧ w.applied = m.applied ∧
      Outcome.Chained (record Memory.service options) w records o.world) ∧
    o.tally = .ofProcessed drafts.length +
      (records.map fun r => (record Memory.service options r.item r.world).tally).sum ∧
    o.journal = (v.rejected.map fun r => .event (.rejected r)) ++
      (if v.drafts.isEmpty then []
        else [.fetchMatching v.keys (.ok (v.keys.toList.filterMap m.get?))]) ++
      records.flatMap fun r => (record Memory.service options r.item r.world).journal := by
  by_cases empty : (validate K drafts).drafts = []
  · intro v o stages
    have none : stages = [] := recordStages_of_empty _ _ empty
    have ends : o = _ := batch_of_empty _ _ empty m
    rw [Outcome.andThen_idle] at ends
    have idle : v.drafts.isEmpty = true := by simpa using empty
    rw [none, ends, idle]
    refine ⟨⟨m, rfl, rfl, rfl⟩, (add_zero _).symm, ?_⟩
    simp only [if_true, List.flatMap_nil, List.append_nil]
    rfl
  · intro v o stages
    have listed : stages = _ := recordStages_eq own unscripted drafts
    have ends : o = _ := batch_of_loaded _ _ empty m
    have loaded : v.drafts.isEmpty = false := by simpa using empty
    rw [ends, listed, loaded, Outcome.world_andThen, Outcome.tally_andThen,
      Outcome.journal_andThen, records_fetched own unscripted]
    refine ⟨⟨m.fetched, rfl, rfl, Outcome.chained_stages _ _ _⟩, ?_, ?_⟩
    · rw [Outcome.tally_andThen, ← Outcome.tally_sequence, Tally.zero_add]
    · rw [Outcome.journal_andThen, ← Outcome.journal_sequence, List.append_assoc]
      rfl

/-- What a batch makes of the store and the log. -/
theorem aftermath_batch (hookless : options.Hookless) {m : Memory K} (own : m.OwnKeys)
    (unscripted : m.Unscripted) (drafts : List (Option K.Draft)) :
    Aftermath options.config m (validate K drafts).drafts
      (batch Memory.service options drafts m).world := by
  by_cases empty : (validate K drafts).drafts = []
  · rw [batch_of_empty _ _ empty, empty]
    exact aftermath_nil rfl rfl
  · rw [batch_of_loaded _ _ empty, Outcome.world_andThen, records_fetched own unscripted]
    exact aftermath_records hookless own unscripted (validate K drafts).drafts

/-- The events of a batch. -/
theorem events_batch (hookless : options.Hookless) {m : Memory K} (own : m.OwnKeys)
    (unscripted : m.Unscripted) (drafts : List (Option K.Draft)) :
    ∀ x ∈ (batch Memory.service options drafts m).events, x.Expected := by
  have rejections : ∀ x ∈ ((validate K drafts).rejected.map fun r =>
      (Entry.event (.rejected r) : Entry K)).filterMap (·.event?), x.Expected := by
    intro x there
    obtain ⟨entry, listed, seen⟩ := List.mem_filterMap.1 there
    obtain ⟨r, -, rfl⟩ := List.mem_map.1 listed
    cases seen
    exact .rejected r
  intro x there
  by_cases empty : (validate K drafts).drafts = []
  · rw [batch_of_empty _ _ empty, Outcome.andThen_idle] at there
    exact rejections x there
  · rw [batch_of_loaded _ _ empty, Outcome.events_andThen, records_fetched own unscripted,
      Outcome.events_andThen, List.mem_append, List.mem_append] at there
    rcases there with rejection | fetch | record
    · exact rejections x rejection
    · exact absurd fetch List.not_mem_nil
    · obtain ⟨r, listed, reported⟩ := Outcome.of_mem_events_sequence record
      rw [← recordStages_eq own unscripted] at listed
      exact (fate_of_mem_recordStages hookless own unscripted listed).events_expected x reported

/-! ### Whole runs -/

/-- Each draft of the batch `b`, which starts in the state `b.world`, has its fate, and nothing else
    happens. -/
structure Settled (options : Options K (Memory K)) (b : Stage (List (Option K.Draft)) (Memory K)) :
    Prop where
  /-- The records are those of the accepted drafts. -/
  drafts : (recordStages Memory.service options b.item b.world).map (fun r => r.item.draft) =
    (validate K b.item).drafts
  fates : ∀ r ∈ recordStages Memory.service options b.item b.world,
    Fate options.config b.world (r.earlier.map Matched.draft) r.item.draft r.world
      (record Memory.service options r.item r.world)
  /-- Each record starts where the one before it ends, and the batch ends where the last one ends.
      -/
  chained : ∃ w, w.entities = b.world.entities ∧ w.applied = b.world.applied ∧
    Outcome.Chained (record Memory.service options) w
      (recordStages Memory.service options b.item b.world)
      (batch Memory.service options b.item b.world).world
  aftermath : Aftermath options.config b.world (validate K b.item).drafts
    (batch Memory.service options b.item b.world).world
  tally : (batch Memory.service options b.item b.world).tally = .ofProcessed b.item.length +
    ((recordStages Memory.service options b.item b.world).map fun r =>
      (record Memory.service options r.item r.world).tally).sum
  /-- The rejections are reported, the stored entities are fetched, and the records follow. -/
  journal : (batch Memory.service options b.item b.world).journal =
    ((validate K b.item).rejected.map fun r => .event (.rejected r)) ++
      (if (validate K b.item).drafts.isEmpty then []
        else [.fetchMatching (validate K b.item).keys
          (.ok ((validate K b.item).keys.toList.filterMap b.world.get?))]) ++
      (recordStages Memory.service options b.item b.world).flatMap fun r =>
        (record Memory.service options r.item r.world).journal

theorem settled_batch (hookless : options.Hookless)
    {b : Stage (List (Option K.Draft)) (Memory K)} (own : b.world.OwnKeys)
    (unscripted : b.world.Unscripted) : Settled options b := by
  obtain ⟨chained, tally, journal⟩ := @batch_stages K options _ b.world own unscripted b.item
  exact ⟨drafts_recordStages own unscripted b.item,
    fun r listed => fate_of_mem_recordStages hookless own unscripted listed, chained,
    aftermath_batch hookless own unscripted b.item, tally, journal⟩

/-- **The exact outcome of a run without failures and hooks.** The run is its batches, each from the
    state that the one before it has left. In the batch `b`, which starts in the state `b.world`,
    each accepted draft has its fate: a draft whose key is stored when the batch starts updates the
    entity exactly once if its diff is not empty, also when earlier drafts of the batch share the
    key, and else leaves it alone; of the drafts with a key that is not stored the first is created,
    and each other one fails with one event. So these others are all that fails, every update that
    is needed succeeds and is logged, and no event is about an update that failed. -/
theorem run_exact (hookless : options.Hookless) {m : Memory K} (reachable : m.Reachable)
    (unscripted : m.Unscripted) (drafts : List (Option K.Draft)) :
    let o := run Memory.service options drafts m
    let batches := Outcome.stages (batch Memory.service options)
      (pieces options.config.batchSize drafts) m
    (Outcome.Chained (batch Memory.service options) m batches o.world ∧
      o.tally = (batches.map fun b => (batch Memory.service options b.item b.world).tally).sum ∧
      o.journal = batches.flatMap fun b =>
        (batch Memory.service options b.item b.world).journal) ∧
    (∀ b ∈ batches, Settled options b) ∧
    o.world.applied = m.applied ++ batches.flatMap (fun b =>
      (validate K b.item).drafts.flatMap (requested options.config b.world)) ∧
    o.tally.failed = (batches.map fun b => surplus b.world (validate K b.item)).sum ∧
    o.tally.updated = (batches.map fun b =>
      (validate K b.item).drafts.countP (differs options.config b.world)).sum ∧
    o.tally.created + o.tally.failed = (batches.map fun b =>
      (validate K b.item).drafts.countP (isNew b.world)).sum ∧
    ∀ x ∈ o.events, x.Expected := by
  intro o batches
  have starts : ∀ b ∈ batches, b.world.OwnKeys ∧ b.world.Unscripted := by
    intro b there
    rw [(Outcome.of_mem_stages _ there).2]
    have keepsOwn := carried_ownKeys hookless.still
    have keepsScript := carried_unscripted hookless.still
    exact ⟨keepsOwn.sequence keepsOwn.batch _ m reachable.ownKeys,
      keepsScript.sequence keepsScript.batch _ m unscripted⟩
  have settled : ∀ b ∈ batches, Settled options b := fun b there =>
    settled_batch hookless (starts b there).1 (starts b there).2
  have counts := fun b there =>
    tally_batch hookless (starts b there).1 (starts b there).2 b.item
  have chained : Outcome.Chained (batch Memory.service options) m batches o.world :=
    Outcome.chained_stages _ _ _
  have tally : o.tally = (batches.map fun b =>
    (batch Memory.service options b.item b.world).tally).sum := Outcome.tally_sequence _ _ _
  refine ⟨⟨chained, tally, Outcome.journal_sequence _ _ _⟩, settled, ?_, ?_, ?_, ?_, ?_⟩
  · exact applied_of_chained chained fun b there => (settled b there).aftermath.applied
  · rw [tally, Tally.failed_sum, List.map_map]
    exact congrArg List.sum (List.map_congr_left fun b there => (counts b there).1)
  · rw [tally, Tally.updated_sum, List.map_map]
    exact congrArg List.sum (List.map_congr_left fun b there => (counts b there).2.1)
  · rw [tally, Tally.created_sum, Tally.failed_sum, List.map_map, List.map_map, ← List.sum_map_add]
    exact congrArg List.sum (List.map_congr_left fun b there => (counts b there).2.2)
  · intro x there
    obtain ⟨b, listed, reported⟩ := Outcome.of_mem_events_sequence there
    obtain ⟨own, unscripted⟩ := starts b listed
    exact events_batch hookless own unscripted b.item x reported

/-- One channel is stored. -/
def oneChannel : Memory .channel := .ofEntities [Channel.ofDraft (.ofNat 1) (.ofKey "a")]

/-- Two names for the stored channel, and three drafts for a new one. -/
def siblingDrafts : List (Option ChannelDraft) :=
  [some ((ChannelDraft.ofKey "a").withName (.of "en" "n")), some (.ofKey "b"),
    some ((ChannelDraft.ofKey "a").withName (.of "en" "m")),
    some ((ChannelDraft.ofKey "b").withName (.of "en" "n")),
    some ((ChannelDraft.ofKey "b").withName (.of "en" "m"))]

/-- Both names are sent for the stored channel, the new one is as its first draft says, and the
    other two drafts for it fail. -/
theorem run_exact_siblings :
    (Options.default : Options .channel (Memory .channel)).Hookless ∧ oneChannel.Reachable ∧
    oneChannel.Unscripted ∧
    let o := run Memory.service Options.default siblingDrafts oneChannel
    o.tally.failed = 2 ∧ o.tally.updated = 2 ∧ o.tally.created = 1 ∧
    o.world.applied = [("a", [.changeName (some (.of "en" "n"))]),
      ("a", [.changeName (some (.of "en" "m"))])] ∧
    o.world.get? "a" =
      some { Channel.ofDraft (.ofNat 1) (.ofKey "a") with version := 1 + 2 } ∧
    ∃ id, o.world.get? "b" = some (Channel.ofDraft id (.ofKey "b")) := by
  have hookless : (Options.default : Options .channel (Memory .channel)).Hookless := ⟨rfl, rfl⟩
  have reachable : oneChannel.Reachable := .ofEntities _
  have unscripted : oneChannel.Unscripted := ⟨rfl, rfl⟩
  have whole : pieces (Options.default : Options .channel (Memory .channel)).config.batchSize
    siblingDrafts = [siblingDrafts] := pieces_of_length_le (by decide)
  obtain ⟨⟨chained, -⟩, settled, applied, failed, updated, created, -⟩ :=
    run_exact hookless reachable unscripted siblingDrafts
  rw [whole] at chained settled applied failed updated created
  -- the one batch ends where the run ends
  have ends : (run Memory.service Options.default siblingDrafts oneChannel).world =
    (batch Memory.service Options.default siblingDrafts oneChannel).world := chained.2
  obtain ⟨-, stored, fresh, -⟩ :=
    (settled ⟨[], siblingDrafts, oneChannel⟩ (List.mem_singleton.2 rfl)).aftermath
  rw [← ends] at stored fresh
  have two : surplus oneChannel (validate .channel siblingDrafts) = 2 := by decide
  have failures : (run Memory.service Options.default siblingDrafts oneChannel).tally.failed = 2 :=
    failed.trans two
  refine ⟨hookless, reachable, unscripted, failures, updated.trans ?_, ?_, applied.trans ?_, ?_, ?_⟩
  · decide
  · rw [failures] at created
    exact Nat.add_right_cancel (created.trans (by decide))
  · decide
  · exact (stored "a" (Channel.ofDraft (.ofNat 1) (.ofKey "a")) (by decide)).trans (by decide)
  · exact fresh "b" (.ofKey "b") (by decide) (by decide)

end Sync

end CatalogSync
