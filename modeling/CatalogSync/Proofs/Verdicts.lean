import CatalogSync.Proofs.DistinctKeys

/- What becomes of a draft whose key no other draft has. While no conflict is pending it is a
   function of the draft and of what is stored under its key (`PureHooks.verdict`), and a run is
   the merge of the verdicts (`Merged`), however the drafts are cut into batches
   (`merged_run`). -/
namespace CatalogSync

/-- Hooks that look at nothing but their arguments; the one before creates vetoes a draft or keeps
    its key. -/
structure PureHooks (K : Kind) where
  beforeCreate : Option (K.Draft → Option K.Draft)
  beforeUpdate : Option (List K.Action → K.Draft → K.Entity → List K.Action)
  keepsKey : ∀ hook, beforeCreate = some hook → ∀ d d', hook d = some d' →
    K.draftKey d' = K.draftKey d

/-- What becomes of a draft. -/
inductive Verdict (K : Kind) where
  | untouched
  | failed
  | created (draft : K.Draft)
  | updated (e : K.Entity) (actions : List K.Action)

namespace Verdict

variable {K : Kind}

/-- What is counted for a draft, apart from its being processed. -/
def tally : Verdict K → Tally
  | untouched => 0
  | failed => .ofFailed 1
  | created _ => .ofCreated 1
  | updated _ _ => .ofUpdated 1

/-- What is logged for a draft under its key. -/
def log (key : String) : Verdict K → List (String × List K.Action)
  | updated _ actions => [(key, actions)]
  | _ => []

/-- What is stored under the key of a draft, before and after. -/
def Leaves (before after : Option K.Entity) : Verdict K → Prop
  | created d => ∃ id, after = some (K.store id d)
  | updated e _ => after = some (K.bumpVersion e)
  | _ => after = before

end Verdict

namespace PureHooks

variable {K : Kind} {σ : Type} (hooks : PureHooks K) (config : Config) (listeners : Listeners)

/-- The options with these hooks, in any world. -/
def options : Options K σ where
  config
  listeners
  beforeCreate := hooks.beforeCreate.map fun hook d w => (hook d, w)
  beforeUpdate := hooks.beforeUpdate.map fun hook actions d e w => (hook actions d e, w)

/-- The draft that is created, unless there is a veto. -/
def toCreate (d : K.Draft) : Option K.Draft :=
  match hooks.beforeCreate with
  | none => some d
  | some hook => hook d

/-- The actions that are sent. -/
def toSend (e : K.Entity) (d : K.Draft) : List K.Action :=
  let actions := (K.plan config e d).actions
  match hooks.beforeUpdate with
  | none => actions
  | some hook => if actions.isEmpty then actions else hook actions d e

/-- What becomes of an accepted draft, going by the state of the service. -/
def verdict (m : Memory K) (d : K.Draft) : Verdict K :=
  if m.script.failFetchMatching then .failed
  else
    match m.get? (K.targetKey d) with
    | some e =>
      match hooks.toSend config e d with
      | [] => .untouched
      | actions => if m.script.failUpdates then .failed else .updated e actions
    | none =>
      match hooks.toCreate d with
      | none => .untouched
      | some d' => if m.failingCreates.contains (K.targetKey d) then .failed else .created d'

variable {hooks config listeners}

theorem still : (hooks.options config listeners : Options K σ).Still := by
  constructor
  · intro hook found d w
    obtain ⟨f, -, rfl⟩ := Option.map_eq_some_iff.1 found
    rfl
  · intro hook found actions d e w
    obtain ⟨f, -, rfl⟩ := Option.map_eq_some_iff.1 found
    rfl

theorem targetKey_of_toCreate {d d' : K.Draft} (h : hooks.toCreate d = some d') :
    K.targetKey d' = K.targetKey d := by
  unfold toCreate at h
  cases hook : hooks.beforeCreate with
  | none =>
    rw [hook] at h
    cases h
    rfl
  | some f =>
    rw [hook] at h
    rw [Kind.targetKey, Kind.targetKey, hooks.keepsKey f hook d d' h]

variable (hooks config listeners)

/-- Finding the draft to create leaves the world as it is. -/
theorem draftToCreate_options (d : K.Draft) (w : σ) :
    ∃ journal, Sync.draftToCreate (hooks.options config listeners) d w =
      (hooks.toCreate d, ⟨w, 0, journal⟩) := by
  unfold Sync.draftToCreate toCreate options
  cases hooks.beforeCreate with
  | none => exact ⟨_, rfl⟩
  | some hook => exact ⟨_, rfl⟩

/-- Finding the actions to send leaves the world as it is. -/
theorem actionsToSend_options (e : K.Entity) (d : K.Draft) (w : σ) :
    ∃ journal, Sync.actionsToSend (hooks.options config listeners) e d w =
      (hooks.toSend config e d, ⟨w, 0, journal⟩) := by
  unfold Sync.actionsToSend toSend options
  cases hooks.beforeUpdate with
  | none => exact ⟨_, rfl⟩
  | some hook =>
    by_cases empty : (K.plan config e d).actions.isEmpty = true
    · simp only [Option.map_some, empty, if_true]
      exact ⟨_, rfl⟩
    · simp only [Option.map_some, empty]
      exact ⟨_, rfl⟩

variable {hooks config}

/-- A verdict depends on the script and on what is stored under the key of the draft. -/
theorem verdict_congr {m m' : Memory K} {d : K.Draft} (script : m'.script = m.script)
    (failing : m'.failingCreates = m.failingCreates)
    (stored : m'.get? (K.targetKey d) = m.get? (K.targetKey d)) :
    hooks.verdict config m' d = hooks.verdict config m d := by
  unfold verdict
  rw [script, failing, stored]

/-- The size of the batches does not bear on a verdict. -/
@[simp] theorem verdict_withBatchSize [LawfulKind K] (n : Nat) :
    hooks.verdict (config.withBatchSize n) = hooks.verdict config := by
  unfold verdict toSend
  simp

end PureHooks

/-! ### Merging verdicts -/

section Merging

variable {K : Kind} (hooks : PureHooks K) (config : Config)

/-- The state `m'` and the tally `t` merge the verdicts on the drafts `ds` into the state `m`. -/
structure Merged (m : Memory K) (ds : List K.Draft) (t : Tally) (m' : Memory K) : Prop where
  script : m'.script = m.script
  failing : m'.failingCreates = m.failingCreates
  tally : t = (ds.map fun d => (hooks.verdict config m d).tally).sum
  applied : m'.applied =
    m.applied ++ ds.flatMap fun d => (hooks.verdict config m d).log (K.targetKey d)
  stored : ∀ d ∈ ds, (hooks.verdict config m d).Leaves
    (m.get? (K.targetKey d)) (m'.get? (K.targetKey d))
  others : ∀ key, key ∉ ds.map K.targetKey → m'.get? key = m.get? key

variable {hooks config} {m m' m'' : Memory K} {ds ds' : List K.Draft} {s t : Tally}

/-- Verdicts that leave the store and the log alone are merged by leaving them alone. -/
theorem Merged.of_same (script : m'.script = m.script)
    (failing : m'.failingCreates = m.failingCreates) (entities : m'.entities = m.entities)
    (applied : m'.applied = m.applied)
    (verdicts : ∀ d ∈ ds, (hooks.verdict config m d).log (K.targetKey d) = [] ∧
      ∀ e, (hooks.verdict config m d).Leaves e e)
    (tally : t = (ds.map fun d => (hooks.verdict config m d).tally).sum) :
    Merged hooks config m ds t m' := by
  refine ⟨script, failing, tally, ?_, ?_, fun key _ => Memory.get?_congr entities key⟩
  · rw [applied, List.flatMap_eq_nil_iff.2 fun d hd => (verdicts d hd).1, List.append_nil]
  · intro d hd
    rw [Memory.get?_congr entities]
    exact (verdicts d hd).2 _

/-- Verdicts on drafts with other keys are not affected by what was merged before. -/
theorem Merged.append (h : Merged hooks config m ds s m') (h' : Merged hooks config m' ds' t m'')
    (apart : ∀ d ∈ ds', K.targetKey d ∉ ds.map K.targetKey) :
    Merged hooks config m (ds ++ ds') (s + t) m'' := by
  have verdicts : ∀ d ∈ ds', hooks.verdict config m' d = hooks.verdict config m d :=
    fun d hd => PureHooks.verdict_congr h.script h.failing (h.others _ (apart d hd))
  refine ⟨h'.script.trans h.script, h'.failing.trans h.failing, ?_, ?_, ?_, ?_⟩
  · rw [h.tally, h'.tally, List.map_append, List.sum_append]
    congr 2
    exact List.map_congr_left fun d hd => by rw [verdicts d hd]
  · rw [h'.applied, h.applied, List.append_assoc, List.flatMap_append]
    congr 2
    exact List.flatMap_congr fun d hd => by rw [verdicts d hd]
  · intro d hd
    rcases List.mem_append.1 hd with earlier | later
    · rw [h'.others _ (not_mem_of_apart apart earlier)]
      exact h.stored d earlier
    · rw [← verdicts d later, ← h.others _ (apart d later)]
      exact h'.stored d later
  · intro key free
    rw [List.map_append, List.mem_append, not_or] at free
    rw [h'.others key free.2, h.others key free.1]

end Merging

/-! ### One record -/

namespace Sync

variable {K : Kind} {hooks : PureHooks K} {config : Config} (listeners : Listeners)
  {m m' : Memory K} {d : K.Draft}

open Memory

/-- A draft that is left alone. -/
theorem merged_untouched (verdict : hooks.verdict config m d = .untouched) :
    Merged hooks config m [d] 0 m := by
  refine .of_same rfl rfl rfl rfl ?_ (by simp [verdict, Verdict.tally])
  intro d' there
  obtain rfl := List.mem_singleton.1 there
  rw [verdict]
  exact ⟨rfl, fun _ => rfl⟩

/-- A draft that fails. -/
theorem merged_failed (verdict : hooks.verdict config m d = .failed)
    (script : m'.script = m.script) (failing : m'.failingCreates = m.failingCreates)
    (entities : m'.entities = m.entities) (applied : m'.applied = m.applied) :
    Merged hooks config m [d] (.ofFailed 1) m' := by
  refine .of_same script failing entities applied ?_ (by simp [verdict, Verdict.tally])
  intro d' there
  obtain rfl := List.mem_singleton.1 there
  rw [verdict]
  exact ⟨rfl, fun _ => rfl⟩

/-- A draft that puts an entity under its key. -/
theorem merged_insert {e : K.Entity} (script : m'.script = m.script)
    (failing : m'.failingCreates = m.failingCreates)
    (entities : m'.entities = m.entities.insert (K.targetKey d) e)
    (applied : m'.applied = m.applied ++ (hooks.verdict config m d).log (K.targetKey d))
    (leaves : (hooks.verdict config m d).Leaves (m.get? (K.targetKey d)) (some e)) :
    Merged hooks config m [d] (hooks.verdict config m d).tally m' := by
  refine ⟨script, failing, by simp, by simpa using applied, ?_, ?_⟩
  · intro d' there
    obtain rfl := List.mem_singleton.1 there
    rw [get?_of_insert entities, if_pos rfl]
    exact leaves
  · intro key others
    have other : K.targetKey d ≠ key := by simpa [eq_comm] using others
    rw [get?_of_insert entities, if_neg other]

/-- A draft without a stored entity, by its verdict. -/
theorem merged_create (works : m.script.failFetchMatching = false)
    (free : m.get? (K.targetKey d) = none) :
    Merged hooks config m [d]
      (create Memory.service (hooks.options config listeners) d m).tally
      (create Memory.service (hooks.options config listeners) d m).world := by
  obtain ⟨journal, found⟩ := hooks.draftToCreate_options config listeners d m
  cases passed : hooks.toCreate d with
  | none =>
    rw [passed] at found
    rw [create_of_vetoed _ _ found]
    exact merged_untouched (by simp [PureHooks.verdict, works, free, passed])
  | some d' =>
    have target := PureHooks.targetKey_of_toCreate passed
    rw [passed] at found
    rw [create_of_passed _ _ found, Outcome.tally_andThen, Outcome.world_andThen, zero_add]
    cases failing : m.failingCreates.contains (K.targetKey d) with
    | true =>
      obtain ⟨error, call⟩ := @create_of_failing K m d' (by rw [target, failing])
      rw [callCreate_of_error Memory.service call]
      refine merged_failed ?_ rfl rfl rfl rfl
      simp only [PureHooks.verdict, works, free, passed, failing]
      rfl
    | false =>
      have verdict : hooks.verdict config m d = .created d' := by
        simp only [PureHooks.verdict, works, free, passed, failing]
        rfl
      have call := @create_of_free K m d' (by rw [target, failing]) (by rw [target, free])
      rw [callCreate_of_ok Memory.service call]
      have merged : Merged hooks config m [d] _ (m.created d') :=
        merged_insert rfl rfl (by rw [← target]; rfl) (by rw [verdict]; exact (List.append_nil _).symm)
          (by rw [verdict]; exact ⟨_, rfl⟩)
      rw [verdict] at merged
      exact merged

/-- A draft with a stored entity, by its verdict. -/
theorem merged_update {e : K.Entity} (calm : m.script.conflicts = 0)
    (works : m.script.failFetchMatching = false) (stored : m.get? (K.targetKey d) = some e)
    (own : K.storageKey e = K.targetKey d) :
    Merged hooks config m [d]
      (update Memory.service (hooks.options config listeners) e d m).tally
      (update Memory.service (hooks.options config listeners) e d m).world := by
  obtain ⟨journal, found⟩ := hooks.actionsToSend_options config listeners e d m
  cases sent : hooks.toSend config e d with
  | nil =>
    rw [update_of_empty _ _ (by rw [found, sent]), found]
    exact merged_untouched (by simp [PureHooks.verdict, works, stored, sent])
  | cons a as =>
    rw [sent] at found
    rw [update_of_loaded _ _ (by rw [found]; exact List.cons_ne_nil a as), Outcome.tally_andThen,
      Outcome.world_andThen, found, zero_add]
    cases failing : m.script.failUpdates with
    | true =>
      obtain ⟨text, call⟩ := @update_of_failing K m e (a :: as) calm failing
      rw [callUpdate_of_rejected Memory.service _ call]
      exact merged_failed (by simp [PureHooks.verdict, works, stored, sent, failing]) rfl rfl rfl rfl
    | false =>
      have verdict : hooks.verdict config m d = .updated e (a :: as) := by
        simp [PureHooks.verdict, works, stored, sent, failing]
      have call := @update_of_current K m e e (a :: as) calm failing (by rw [own, stored]) rfl
      rw [callUpdate_of_accepted Memory.service _ call]
      have merged : Merged hooks config m [d] _ (m.updated (K.storageKey e) e (a :: as)) :=
        merged_insert rfl rfl (by rw [← own]; rfl) (by rw [verdict, ← own]; rfl)
          (by rw [verdict]; exact rfl)
      rw [verdict] at merged
      exact merged

/-- A record does what the verdict on its draft says. -/
theorem merged_record (own : m.OwnKeys) (calm : m.script.conflicts = 0)
    (works : m.script.failFetchMatching = false) (d : K.Draft) :
    Merged hooks config m [d]
      (record Memory.service (hooks.options config listeners) (m.matched d) m).tally
      (record Memory.service (hooks.options config listeners) (m.matched d) m).world := by
  unfold matched
  cases stored : m.get? (K.targetKey d) with
  | none => exact merged_create listeners works stored
  | some e => exact merged_update listeners calm works stored (own _ e stored)

/-! ### Batches and runs -/

/-- Nothing is merged into a state with the same store, log and script. -/
theorem merged_nil (entities : m'.entities = m.entities) (applied : m'.applied = m.applied)
    (script : m'.script = m.script) (failing : m'.failingCreates = m.failingCreates) :
    Merged hooks config m [] 0 m' :=
  .of_same script failing entities applied (by simp) rfl

variable [LawfulKind K]

variable (hooks config)

/-- A run keeps every entity under its own key. -/
theorem keeps_ownKeys : Carried Memory.service (hooks.options config listeners)
    fun m _ m' => m.OwnKeys → m'.OwnKeys :=
  carried_ownKeys PureHooks.still

omit [LawfulKind K] in
/-- Verdicts on drafts with other keys are merged one after the other. -/
theorem composes_merged : Composes (Merged hooks config) where
  idle _ := merged_nil rfl rfl rfl rfl
  append h h' := h.append h'
  others h := h.others

/-- While entities can be fetched, the records of drafts do what the verdicts on the drafts say. -/
theorem merged_byRecord : ByRecord (hooks.options config listeners)
    (fun m => m.OwnKeys ∧ m.script.conflicts = 0 ∧ m.script.failFetchMatching = false)
    (Merged hooks config) := by
  intro m d start
  obtain ⟨own, calm, works⟩ := start
  have merged : Merged hooks config m [d] _ _ := merged_record listeners own calm works d
  exact ⟨merged, (keeps_ownKeys hooks config listeners).record (m.matched d) m own,
    by rw [merged.script, calm], by rw [merged.script, works]⟩

/-- If the entities can be fetched, the records of a validated batch with distinct keys do what the
    verdicts on its drafts say. -/
theorem merged_validated (own : m.OwnKeys) (calm : m.script.conflicts = 0)
    (works : m.script.failFetchMatching = false) {batch : List (Option K.Draft)}
    (distinct : ((validate K batch).drafts.map K.targetKey).Nodup) :
    let o := records Memory.service (hooks.options config listeners) (validate K batch) m
    Merged hooks config m (validate K batch).drafts o.tally o.world :=
  ((composes_merged hooks config).validated (merged_byRecord hooks config listeners)
    (fun _ start => start.1) (fun _ start => start.2.2)
    (fun _ start => ⟨merged_nil rfl rfl rfl rfl, start⟩) ⟨own, calm, works⟩ distinct).1

end Sync

end CatalogSync
