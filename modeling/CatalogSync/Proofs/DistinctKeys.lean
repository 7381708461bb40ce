import CatalogSync.Proofs.Acceptance

/- A rule for runs over drafts with distinct keys. A record leaves the keys of other drafts alone, so
   no draft sees another one's record, and a relation that holds of every record alone and composes
   along drafts with other keys holds of a whole run, however the drafts are cut into batches
   (`Composes.byBatch`, `Composes.steps`, `Composes.run`). -/
namespace CatalogSync

variable {K : Kind}

/-- Drafts whose keys no later draft has. -/
theorem not_mem_of_apart {ds ds' : List K.Draft}
    (apart : ∀ d ∈ ds', K.targetKey d ∉ ds.map K.targetKey) {d : K.Draft} (there : d ∈ ds) :
    K.targetKey d ∉ ds'.map K.targetKey := by
  intro again
  obtain ⟨d', there', same⟩ := List.mem_map.1 again
  exact apart d' there' (by rw [same]; exact List.mem_map_of_mem there)

/-- `R m ds t m'` says what the records of the drafts `ds`, with distinct keys, make of the state `m`;
    `t` is what they count and `m'` the state after them. -/
structure Composes (R : Memory K → List K.Draft → Tally → Memory K → Prop) : Prop where
  idle : ∀ m, R m [] 0 m
  append : ∀ {m m' m'' ds ds' s t}, R m ds s m' → R m' ds' t m'' →
    (∀ d ∈ ds', K.targetKey d ∉ ds.map K.targetKey) → R m (ds ++ ds') (s + t) m''
  /-- Keys of no draft are left alone. -/
  others : ∀ {m m' ds t}, R m ds t m' →
    ∀ key, key ∉ ds.map K.targetKey → m'.get? key = m.get? key

section Steps

variable (options : Options K (Memory K)) (P : Memory K → Prop)
  (R : Memory K → List K.Draft → Tally → Memory K → Prop)

/-- Single records that start with `P` are related, and end with `P`. -/
def ByRecord : Prop :=
  ∀ m d, P m → let o := Sync.record Memory.service options (m.matched d) m
    R m [d] o.tally o.world ∧ P o.world

/-- The records of batches with distinct keys that start with `P` are related, and end with `P`. -/
def ByBatch : Prop :=
  ∀ m batch, P m → ((batch.filterMap K.accepted?).map K.targetKey).Nodup →
    let o := Sync.records Memory.service options (validate K batch) m
    R m (batch.filterMap K.accepted?) o.tally o.world ∧ P o.world

/-- Steps that take entries with distinct keys and start with `P` are related, and end with `P`;
    `entries` are the entries that a step takes. -/
def ByStep {α : Type} (entries : α → List (Option K.Draft))
    (step : α → Memory K → Outcome K (Memory K)) : Prop :=
  ∀ m a, P m → (((entries a).filterMap K.accepted?).map K.targetKey).Nodup →
    ∃ t, (step a m).tally = .ofProcessed (entries a).length + t ∧
      R m ((entries a).filterMap K.accepted?) t (step a m).world ∧ P (step a m).world

end Steps

namespace Composes

open Memory Sync

variable {R : Memory K → List K.Draft → Tally → Memory K → Prop} (c : Composes R)
  {P : Memory K → Prop} {options : Options K (Memory K)} {m : Memory K}

include c

/-- Records that are related are so one after the other. -/
theorem sequence (step : ByRecord options P R) (start : P m) {ds : List K.Draft}
    (distinct : (ds.map K.targetKey).Nodup) :
    let o := Outcome.sequence (record Memory.service options) (ds.map m.matched) m
    R m ds o.tally o.world ∧ P o.world := by
  induction ds generalizing m with
  | nil => exact ⟨c.idle m, start⟩
  | cons d ds ih =>
    intro o
    rw [List.map_cons, List.nodup_cons] at distinct
    obtain ⟨other, distinct⟩ := distinct
    have apart : ∀ d' ∈ ds, K.targetKey d' ∉ [d].map K.targetKey := by
      intro d' there same
      have same : K.targetKey d' = K.targetKey d := by simpa using same
      exact other (by rw [← same]; exact List.mem_map_of_mem there)
    obtain ⟨first, kept⟩ := step m d start
    -- the first record leaves the keys of the others alone
    have rematched : ds.map m.matched =
        ds.map (record Memory.service options (m.matched d) m).world.matched := by
      refine List.map_congr_left fun d' there => ?_
      rw [matched, matched, c.others first _ (apart d' there)]
    obtain ⟨rest, left⟩ := ih kept distinct
    have both := c.append first rest apart
    rw [← rematched] at both left
    exact ⟨both, left⟩

/-- Steps that take entries without a repeated key, one after the other. -/
theorem steps {α : Type} {entries : α → List (Option K.Draft)}
    {step : α → Memory K → Outcome K (Memory K)} (one : ByStep P R entries step) (start : P m)
    {as : List α}
    (distinct : (((as.flatMap entries).filterMap K.accepted?).map K.targetKey).Nodup) :
    let o := Outcome.sequence step as m
    ∃ t, o.tally = .ofProcessed (as.flatMap entries).length + t ∧
      R m ((as.flatMap entries).filterMap K.accepted?) t o.world ∧ P o.world := by
  induction as generalizing m with
  | nil => exact ⟨0, rfl, c.idle m, start⟩
  | cons a as ih =>
    rw [List.flatMap_cons, List.filterMap_append] at distinct ⊢
    rw [List.map_append, List.nodup_append] at distinct
    obtain ⟨first, others, apart⟩ := distinct
    obtain ⟨t, counted, before, kept⟩ := one m a start first
    obtain ⟨t', counted', after, left⟩ := ih kept others
    refine ⟨t + t', ?_, c.append before after ?_, left⟩
    · rw [List.length_append, ← Tally.ofProcessed_add_add, ← counted, ← counted']
      rfl
    · exact fun d there again => apart _ again _ (List.mem_map_of_mem there) rfl

variable [LawfulKind K]

section Fetching

variable (step : ByRecord options P R) (own : ∀ m, P m → m.OwnKeys)
  (works : ∀ m, P m → m.script.failFetchMatching = false)
  (fetch : ∀ m, P m → R m [] 0 m.fetched ∧ P m.fetched)

include step own works fetch

/-- If the entities can be fetched, the records of a validated batch are those of its drafts. -/
theorem validated (start : P m) {batch : List (Option K.Draft)}
    (distinct : ((validate K batch).drafts.map K.targetKey).Nodup) :
    let o := Sync.records Memory.service options (validate K batch) m
    R m (validate K batch).drafts o.tally o.world ∧ P o.world := by
  intro o
  have ends := records_of_ok Memory.service options
    (fetchMatching_of_working (works m start) (validate K batch).keys)
  rw [matchDrafts_fetched (own m start)] at ends
  rw [show o = _ from ends]
  obtain ⟨before, fetched⟩ := fetch m start
  obtain ⟨rest, left⟩ := c.sequence step fetched distinct
  exact ⟨c.append before rest fun _ _ => List.not_mem_nil, left⟩

/-- If the entities can be fetched, it is enough to look at single records. -/
theorem byBatch : ByBatch options P R := by
  intro m batch start distinct
  have same := drafts_validate distinct
  rw [← same] at distinct ⊢
  exact c.validated step own works fetch start distinct

end Fetching

variable (step : ByBatch options P R)

include step

theorem batch : ByStep P R id (Sync.batch Memory.service options) := by
  intro m batch start distinct
  have distinct : ((batch.filterMap K.accepted?).map K.targetKey).Nodup := distinct
  by_cases empty : (validate K batch).drafts = []
  · rw [batch_of_empty _ _ empty m]
    rw [drafts_validate distinct] at empty
    refine ⟨0, rfl, ?_, start⟩
    show R m (batch.filterMap K.accepted?) 0 m
    rw [empty]
    exact c.idle m
  · rw [batch_of_loaded _ _ empty m]
    exact ⟨_, rfl, step m batch start distinct⟩

/-- The rule: what holds of the records of every batch holds of a run. -/
theorem run (start : P m) {drafts : List (Option K.Draft)}
    (distinct : ((drafts.filterMap K.accepted?).map K.targetKey).Nodup) :
    let o := Sync.run Memory.service options drafts m
    ∃ t, o.tally = .ofProcessed drafts.length + t ∧
      R m (drafts.filterMap K.accepted?) t o.world ∧ P o.world := by
  have whole : (pieces options.config.batchSize drafts).flatMap id = drafts := by
    rw [List.flatMap_id, flatten_pieces]
  rw [← whole] at distinct
  have made := c.steps (c.batch step) start distinct
  rw [whole] at made
  exact made

end Composes

end CatalogSync
