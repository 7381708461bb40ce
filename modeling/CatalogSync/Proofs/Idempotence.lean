import CatalogSync.Proofs.Accounting
import CatalogSync.Proofs.Channels
import CatalogSync.Proofs.Recognition
import CatalogSync.Proofs.Reports
import CatalogSync.Proofs.Verdicts

/- Syncing twice. A store suits a list of drafts if every draft needs no action on what is stored
   under its key (`Memory.Suits`). An empty store suits every list; where drafts that share a key
   are equal, and the diff recognises what is stored for them (`RecognizingKind`), every batch keeps
   it so and stores what was missing (`Filled`). A run over drafts that are all stored, in a store
   that suits them, writes nothing (`Undisturbed`). Main statement: `run_twice`. -/
namespace CatalogSync

/-- The call creates or updates an entity. -/
def Entry.isWrite {K : Kind} : Entry K → Bool
  | .create .. => true
  | .update .. => true
  | _ => false

/-- A kind whose diff recognises what was stored for a draft that is clear. -/
class RecognizingKind (K : Kind) extends LawfulKind K where
  /-- What a draft has to be like, apart from having no repeated keys. -/
  Clear : K.Draft → Prop
  /-- An equal draft needs no action on what was stored. -/
  plan_store : ∀ {a b}, K.same a b = true → Clear b → K.repeatedKeys b = [] →
    ∀ config id, (K.plan config (K.store id a) b).actions = []

namespace Kind

instance : RecognizingKind product where
  Clear := Diff.Tidy
  plan_store same clear once _ _ := Diff.productPlan_actions_eq_nil same (clear.recognizable once)

/-- What is stored for a channel draft needs no action. -/
theorem channelActions_ofDraft (id : ResourceId) (d : ChannelDraft) :
    Diff.channelActions (Channel.ofDraft id d) d = [] :=
  Diff.channelActions_eq_nil.2 ⟨rfl, rfl, fun _ => Iff.rfl⟩

instance : RecognizingKind channel where
  Clear _ := True
  plan_store {a b} same _ _ _ id := by
    obtain rfl : a = b := eq_of_beq same
    exact channelActions_ofDraft id a

end Kind

variable {K : Kind}

/-! ### Distinct drafts -/

/-- Where elements count as the same if and only if they have one key, leaving out repeats leaves
    one element for each key. -/
theorem keys_eraseDupsBy {α : Type} (same : α → α → Bool) (key : α → String) : ∀ xs : List α,
    (∀ a ∈ xs, ∀ b ∈ xs, same b a = true ↔ key b = key a) →
    ((xs.eraseDupsBy same).map key).Nodup ∧
      ∀ k, k ∈ (xs.eraseDupsBy same).map key ↔ k ∈ xs.map key
  | [], _ => ⟨List.nodup_nil, fun _ => Iff.rfl⟩
  | x :: xs, agree => by
    let others := xs.filter fun b => decide (same b x = false)
    have kept : ∀ b ∈ others, b ∈ x :: xs := fun b there =>
      List.mem_cons_of_mem x (List.mem_filter.1 there).1
    have keys : ∀ k, k ∈ others.map key ↔ k ∈ xs.map key ∧ k ≠ key x := by
      intro k
      simp only [others, List.mem_map, List.mem_filter, decide_eq_true_eq]
      constructor
      · rintro ⟨b, ⟨there, differs⟩, rfl⟩
        refine ⟨⟨b, there, rfl⟩, fun one => ?_⟩
        rw [(agree x (by simp) b (by simp [there])).2 one] at differs
        cases differs
      · rintro ⟨⟨b, there, rfl⟩, apart⟩
        refine ⟨b, ⟨there, ?_⟩, rfl⟩
        rw [Bool.eq_false_iff]
        exact fun repeated => apart ((agree x (by simp) b (by simp [there])).1 repeated)
    obtain ⟨distinct, members⟩ := keys_eraseDupsBy same key others
      fun a ha b hb => agree a (kept a ha) b (kept b hb)
    rw [List.eraseDupsBy_cons]
    refine ⟨List.nodup_cons.2 ⟨?_, distinct⟩, fun k => ?_⟩
    · rw [members, keys]
      exact fun both => both.2 rfl
    · rw [List.map_cons, List.map_cons, List.mem_cons, List.mem_cons, members, keys]
      by_cases first : k = key x
      · simp [first]
      · simp [first]
  termination_by xs => xs.length
  decreasing_by exact Nat.lt_succ_of_le (List.length_filter_le _ _)

/-- Drafts of which those with one key are equal, and each is recognised when it is stored. -/
structure Coherent [RecognizingKind K] (ds : List K.Draft) : Prop where
  same : ∀ a ∈ ds, ∀ b ∈ ds, K.targetKey a = K.targetKey b → K.same a b = true
  clear : ∀ d ∈ ds, RecognizingKind.Clear d

/-- Drafts with one key are equal, and need no action on what is stored for one of them. -/
structure Recognized (ds : List K.Draft) : Prop where
  same : ∀ a ∈ ds, ∀ b ∈ ds, K.targetKey a = K.targetKey b → K.same a b = true
  plan_store : ∀ a ∈ ds, ∀ b ∈ ds, K.targetKey a = K.targetKey b →
    ∀ config id, (K.plan config (K.store id a) b).actions = []

theorem Coherent.recognized [RecognizingKind K] {drafts : List (Option K.Draft)}
    (h : Coherent (drafts.filterMap K.accepted?)) :
    Recognized (drafts.filterMap K.accepted?) := by
  refine ⟨h.same, fun a ha b hb key => ?_⟩
  obtain ⟨entry, -, accepted⟩ := List.mem_filterMap.1 hb
  have once := Kind.refusal?_eq_none.1 (Kind.accepted?_eq_some.1 accepted).2.2
  exact RecognizingKind.plan_store (h.same a ha b hb key) (h.clear b hb) once

/-- Where drafts with one key are equal, a validated batch keeps one draft for each key. -/
theorem nodup_keys_drafts {batch : List (Option K.Draft)}
    (same : ∀ a ∈ batch.filterMap K.accepted?, ∀ b ∈ batch.filterMap K.accepted?,
      K.targetKey a = K.targetKey b → K.same a b = true) :
    ((validate K batch).drafts.map K.targetKey).Nodup := by
  refine List.pairwise_map.2 ((drafts_validate_apart batch).imp_of_mem ?_)
  intro a b ha hb differ key
  have alike := same b (mem_accepted_of_mem_drafts hb) a (mem_accepted_of_mem_drafts ha) key.symm
  rw [differ] at alike
  cases alike

/-! ### Stores that suit drafts -/

namespace Memory

/-- Every draft needs no action on what is stored under its key, if anything is. -/
def Suits (m : Memory K) (ds : List K.Draft) : Prop :=
  ∀ d ∈ ds, ∀ e, m.get? (K.targetKey d) = some e → ∀ config, (K.plan config e d).actions = []

/-- Something is stored for every draft. -/
def Covers (m : Memory K) (ds : List K.Draft) : Prop :=
  ∀ d ∈ ds, (m.get? (K.targetKey d)).isSome = true

theorem Suits.congr {m m' : Memory K} {ds : List K.Draft} (h : m.Suits ds)
    (entities : m'.entities = m.entities) : m'.Suits ds := by
  intro d there e found
  rw [get?_congr entities] at found
  exact h d there e found

theorem Covers.congr {m m' : Memory K} {ds : List K.Draft} (h : m.Covers ds)
    (entities : m'.entities = m.entities) : m'.Covers ds := by
  intro d there
  rw [get?_congr entities]
  exact h d there

end Memory

namespace PureHooks

/-- No hook at all. -/
def none : PureHooks K := ⟨.none, .none, fun _ found => nomatch found⟩

theorem options_none {σ : Type} {options : Options K σ} (hookless : options.Hookless) :
    (none.options options.config options.listeners : Options K σ) = options := by
  obtain ⟨config, listeners, beforeCreate, beforeUpdate⟩ := options
  obtain ⟨noCreate, noUpdate⟩ := hookless
  cases noCreate
  cases noUpdate
  rfl

/-- In a store that suits it, a draft is created if nothing is stored for it, and else left alone.
    -/
theorem verdict_none (config : Config) {m : Memory K} {ds : List K.Draft}
    (unscripted : m.Unscripted) (suits : m.Suits ds) {d : K.Draft} (there : d ∈ ds) :
    (none : PureHooks K).verdict config m d =
      if (m.get? (K.targetKey d)).isSome then .untouched else .created d := by
  have works := unscripted.fetches
  have allowed := unscripted.allows (K.targetKey d)
  cases stored : m.get? (K.targetKey d) with
  | none => simp [verdict, works, stored, toCreate, none, allowed]
  | some e =>
    have settled := suits d there e stored config
    simp [verdict, works, stored, toSend, none, settled]

end PureHooks

namespace Sync

variable {options : Options K (Memory K)} {m m' : Memory K} {ds vs : List K.Draft} {t : Tally}

open Memory

/-! ### Filling the store -/

/-- What a part of a run that takes the accepted drafts `vs` makes of a store that suits the drafts
    `ds`. -/
structure Filled (ds vs : List K.Draft) (m : Memory K) (t : Tally) (m' : Memory K) : Prop where
  updated : t.updated = 0
  failed : t.failed = 0
  suits : m'.Suits ds
  stored : ∀ key, (m'.get? key).isSome = true ↔
    (m.get? key).isSome = true ∨ key ∈ vs.map K.targetKey

theorem Filled.trans {vs' : List K.Draft} {m'' : Memory K} {t' : Tally}
    (h : Filled ds vs m t m') (h' : Filled ds vs' m' t' m'') :
    Filled ds (vs ++ vs') m (t + t') m'' where
  updated := by rw [Tally.updated_add, h.updated, h'.updated]
  failed := by rw [Tally.failed_add, h.failed, h'.failed]
  suits := h'.suits
  stored key := by rw [h'.stored, h.stored, List.map_append, List.mem_append, or_assoc]

/-- Processing entries fills nothing. -/
theorem filled_nil (suits : m.Suits ds) (n : Nat) : Filled ds [] m (.ofProcessed n) m :=
  ⟨rfl, rfl, suits, fun key => by simp⟩

/-- What is stored for a draft is left after its verdict, or is what was stored before. -/
theorem stored_of_merged {config : Config} (unscripted : m.Unscripted) (suits : m.Suits ds)
    (part : ∀ d ∈ vs, d ∈ ds) (merged : Merged PureHooks.none config m vs t m') {d : K.Draft}
    (there : d ∈ vs) :
    (∃ e, m.get? (K.targetKey d) = some e ∧ m'.get? (K.targetKey d) = some e) ∨
      ∃ id, m'.get? (K.targetKey d) = some (K.store id d) := by
  have leaves := merged.stored d there
  rw [PureHooks.verdict_none config unscripted suits (part d there)] at leaves
  cases stored : m.get? (K.targetKey d) with
  | none =>
    rw [stored] at leaves
    exact .inr leaves
  | some e =>
    rw [stored] at leaves
    exact .inl ⟨e, rfl, leaves⟩

/-- What the verdicts on drafts make of a store that suits them. -/
theorem filled_of_merged (recognized : Recognized ds) {config : Config}
    (unscripted : m.Unscripted) (suits : m.Suits ds) (part : ∀ d ∈ vs, d ∈ ds)
    (merged : Merged PureHooks.none config m vs t m') : Filled ds vs m t m' := by
  have quiet : ∀ d ∈ vs, (PureHooks.none.verdict config m d).tally.updated = 0 ∧
      (PureHooks.none.verdict config m d).tally.failed = 0 := by
    intro d there
    rw [PureHooks.verdict_none config unscripted suits (part d there)]
    split
    · exact ⟨rfl, rfl⟩
    · exact ⟨rfl, rfl⟩
  have stored := fun d there => stored_of_merged unscripted suits part merged (d := d) there
  refine ⟨?_, ?_, ?_, ?_⟩
  · rw [merged.tally, Tally.updated_sum, List.map_map]
    exact List.sum_eq_zero (List.forall_mem_map.2 fun d there => (quiet d there).1)
  · rw [merged.tally, Tally.failed_sum, List.map_map]
    exact List.sum_eq_zero (List.forall_mem_map.2 fun d there => (quiet d there).2)
  · intro d there e found config'
    by_cases taken : K.targetKey d ∈ vs.map K.targetKey
    · obtain ⟨d', there', key⟩ := List.mem_map.1 taken
      have before := stored d' there'
      rw [key, found] at before
      rcases before with ⟨e', stored, same⟩ | ⟨id, same⟩
      · cases same
        exact suits d there e stored config'
      · cases same
        exact recognized.plan_store d' (part d' there') d there key config' id
    · rw [merged.others _ taken] at found
      exact suits d there e found config'
  · intro key
    by_cases taken : key ∈ vs.map K.targetKey
    · obtain ⟨d, there, rfl⟩ := List.mem_map.1 taken
      rcases stored d there with ⟨e, -, now⟩ | ⟨id, now⟩
      · simp [now, taken]
      · simp [now, taken]
    · simp [merged.others _ taken, taken]

/-! ### Leaving it alone -/

/-- Nothing is written: `n` entries are processed, and store and log stay as they are. -/
structure Undisturbed (m : Memory K) (n : Nat) (o : Outcome K (Memory K)) : Prop where
  tally : o.tally = .ofProcessed n
  entities : o.world.entities = m.entities
  applied : o.world.applied = m.applied
  calls : ∀ x ∈ o.calls, x.isWrite = false

theorem Undisturbed.andThen {n n' : Nat} {o : Outcome K (Memory K)}
    {next : Memory K → Outcome K (Memory K)} (h : Undisturbed m n o)
    (h' : Undisturbed o.world n' (next o.world)) : Undisturbed m (n + n') (o.andThen next) where
  tally := by
    rw [Outcome.tally_andThen, h.tally, h'.tally]
    rfl
  entities := h'.entities.trans h.entities
  applied := h'.applied.trans h.applied
  calls x there := by
    rw [Outcome.calls_andThen, List.mem_append] at there
    exact there.elim (h.calls x) (h'.calls x)

/-- The record of a draft that is stored as it wants it does nothing. -/
theorem update_of_settled (hookless : options.Hookless) {e : K.Entity} {d : K.Draft}
    (settled : (K.plan options.config e d).actions = []) (w : Memory K) :
    Undisturbed w 0 (update Memory.service options e d w) := by
  obtain ⟨o, sent, world, none, quiet, -⟩ :=
    actionsToSend_of_hookless hookless (e := e) rfl w
  rw [update_of_empty _ _ (by rw [sent]; exact settled), sent]
  refine ⟨none, by rw [world], by rw [world], fun x there => ?_⟩
  rw [quiet] at there
  exact absurd there List.not_mem_nil

theorem sequence_of_settled (hookless : options.Hookless) (suits : m.Suits ds)
    (covers : m.Covers ds) (part : ∀ d ∈ vs, d ∈ ds) (w : Memory K) :
    Undisturbed w 0
      (Outcome.sequence (record Memory.service options) (vs.map m.matched) w) := by
  induction vs generalizing w with
  | nil => exact ⟨rfl, rfl, rfl, fun x there => absurd there List.not_mem_nil⟩
  | cons d vs ih =>
    have listed := part d (List.mem_cons_self ..)
    obtain ⟨e, stored⟩ := Option.isSome_iff_exists.1 (covers d listed)
    have matched : m.matched d = .update e d := by
      simp only [Memory.matched, stored]
    rw [List.map_cons, matched]
    exact (update_of_settled hookless (suits d listed e stored options.config) w).andThen
      (ih (fun d there => part d (List.mem_cons_of_mem _ there)) _)

/-! ### Batches and runs -/

section Lawful

variable [LawfulKind K]

/-- The drafts of a validated batch have the keys of its accepted entries. -/
theorem mem_keys_drafts {batch : List (Option K.Draft)} {key : String} :
    key ∈ (validate K batch).drafts.map K.targetKey ↔
      key ∈ (batch.filterMap K.accepted?).map K.targetKey := by
  have listed : key ∈ (validate K batch).keys ↔
      key ∈ (batch.filterMap K.accepted?).map K.targetKey := by
    rw [keys_validate]
    exact SortedSet.mem_ofList
  rw [← listed, mem_keys_validate, List.mem_map]

theorem filled_batch (hookless : options.Hookless) (own : m.OwnKeys) (unscripted : m.Unscripted)
    (recognized : Recognized ds) (suits : m.Suits ds) (batch : List (Option K.Draft))
    (part : ∀ d ∈ batch.filterMap K.accepted?, d ∈ ds) :
    let o := Sync.batch Memory.service options batch m
    Filled ds (batch.filterMap K.accepted?) m o.tally o.world := by
  intro o
  by_cases empty : (validate K batch).drafts = []
  · rw [show o = _ from batch_of_empty _ _ empty m, drafts_validate_eq_nil.1 empty]
    exact filled_nil suits batch.length
  · have distinct : ((validate K batch).drafts.map K.targetKey).Nodup :=
      nodup_keys_drafts fun a ha b hb => recognized.same a (part a ha) b (part b hb)
    have listed : ∀ d ∈ (validate K batch).drafts, d ∈ ds :=
      fun d there => part d (mem_accepted_of_mem_drafts there)
    have merged := merged_validated PureHooks.none options.config options.listeners own
      unscripted.calm unscripted.fetches distinct
    rw [PureHooks.options_none hookless] at merged
    have filled := filled_of_merged recognized unscripted suits listed merged
    have all : Filled ds (batch.filterMap K.accepted?) m _ _ :=
      ⟨filled.updated, filled.failed, filled.suits, fun key => by
        rw [filled.stored, mem_keys_drafts]⟩
    rw [show o = _ from batch_of_loaded _ _ empty m]
    exact (filled_nil suits batch.length).trans all

/-- Batch after batch, what is missing is stored. -/
theorem filled_batches (hookless : options.Hookless) (own : m.OwnKeys)
    (unscripted : m.Unscripted) (recognized : Recognized ds) (suits : m.Suits ds)
    {batches : List (List (Option K.Draft))}
    (part : ∀ d ∈ batches.flatten.filterMap K.accepted?, d ∈ ds) :
    let o := Outcome.sequence (batch Memory.service options) batches m
    Filled ds (batches.flatten.filterMap K.accepted?) m o.tally o.world := by
  induction batches generalizing m with
  | nil => exact filled_nil suits 0
  | cons piece batches ih =>
    rw [List.flatten_cons, List.filterMap_append] at part ⊢
    have first := filled_batch hookless own unscripted recognized suits piece
      fun d there => part d (List.mem_append_left _ there)
    have rest := ih ((carried_ownKeys hookless.still).batch piece m own)
      ((carried_unscripted hookless.still).batch piece m unscripted) first.suits
      fun d there => part d (List.mem_append_right _ there)
    exact first.trans rest

theorem filled_run (hookless : options.Hookless) (own : m.OwnKeys) (unscripted : m.Unscripted)
    {drafts : List (Option K.Draft)} (recognized : Recognized (drafts.filterMap K.accepted?))
    (suits : m.Suits (drafts.filterMap K.accepted?)) :
    let o := run Memory.service options drafts m
    Filled (drafts.filterMap K.accepted?) (drafts.filterMap K.accepted?) m o.tally o.world := by
  have whole := flatten_pieces options.config.batchSize drafts
  rw [← whole] at recognized suits
  have filled := filled_batches hookless own unscripted recognized suits fun _ there => there
  rw [whole] at filled
  exact filled

/-- The store grows by what is created. -/
theorem carried_size (still : options.Still) :
    Carried Memory.service options fun m t m' => m'.size = m.size + t.created where
  idle _ := rfl
  trans h h' := by rw [h', h, Tally.created_add, Nat.add_assoc]
  processed _ _ := rfl
  failed _ _ := rfl
  onFetchMatching keys m := by
    show (Memory.fetchMatching keys m).2.size = m.size
    rw [fetchMatching_snd]
    rfl
  onFetchByKey key m := by
    show (Memory.fetchByKey key m).2.size = m.size
    rw [fetchByKey_snd]
    rfl
  onCreate draft m := (Accounts.create draft m).size
  onUpdate e actions m := (Accounts.update e actions m).size
  onBeforeCreate hook found draft m := by
    rw [still.beforeCreate hook found]
    rfl
  onBeforeUpdate hook found actions draft e m := by
    rw [still.beforeUpdate hook found]
    rfl

theorem undisturbed_batch (hookless : options.Hookless) (own : m.OwnKeys)
    (unscripted : m.Unscripted) (suits : m.Suits ds) (covers : m.Covers ds)
    (batch : List (Option K.Draft)) (part : ∀ d ∈ batch.filterMap K.accepted?, d ∈ ds) :
    Undisturbed m batch.length (Sync.batch Memory.service options batch m) := by
  have rejections : Undisturbed m batch.length
      (⟨m, .ofProcessed batch.length, (validate K batch).rejected.map
        fun r => .event (.rejected r)⟩ : Outcome K (Memory K)) := by
    refine ⟨rfl, rfl, rfl, fun x there => ?_⟩
    rw [Outcome.calls, calls_rejected] at there
    exact absurd there List.not_mem_nil
  by_cases empty : (validate K batch).drafts = []
  · rw [batch_of_empty _ _ empty, Outcome.andThen_idle]
    exact rejections
  · have listed : ∀ d ∈ (validate K batch).drafts, d ∈ ds :=
      fun d there => part d (mem_accepted_of_mem_drafts there)
    have fetch : Undisturbed m 0 (⟨m.fetched, .zero, [.fetchMatching (validate K batch).keys
        (.ok ((validate K batch).keys.toList.filterMap m.get?))]⟩ : Outcome K (Memory K)) := by
      refine ⟨rfl, rfl, rfl, fun x there => ?_⟩
      rw [List.mem_singleton.1 there]
      rfl
    have records : Undisturbed m (0 + 0)
        (records Memory.service options (validate K batch) m) := by
      rw [records_fetched own unscripted]
      exact fetch.andThen (sequence_of_settled hookless suits covers listed m.fetched)
    rw [batch_of_loaded _ _ empty]
    exact rejections.andThen records

theorem undisturbed_batches (hookless : options.Hookless) (own : m.OwnKeys)
    (unscripted : m.Unscripted) (suits : m.Suits ds) (covers : m.Covers ds)
    {batches : List (List (Option K.Draft))}
    (part : ∀ d ∈ batches.flatten.filterMap K.accepted?, d ∈ ds) :
    Undisturbed m batches.flatten.length
      (Outcome.sequence (batch Memory.service options) batches m) := by
  induction batches generalizing m with
  | nil => exact ⟨rfl, rfl, rfl, fun x there => absurd there List.not_mem_nil⟩
  | cons piece batches ih =>
    rw [List.flatten_cons, List.filterMap_append] at part
    rw [List.flatten_cons, List.length_append]
    have first := undisturbed_batch hookless own unscripted suits covers piece
      fun d there => part d (List.mem_append_left _ there)
    refine first.andThen (ih ((carried_ownKeys hookless.still).batch piece m own)
      ((carried_unscripted hookless.still).batch piece m unscripted)
      (suits.congr first.entities) (covers.congr first.entities) ?_)
    exact fun d there => part d (List.mem_append_right _ there)

theorem undisturbed_run (hookless : options.Hookless) (own : m.OwnKeys)
    (unscripted : m.Unscripted) {drafts : List (Option K.Draft)}
    (suits : m.Suits (drafts.filterMap K.accepted?))
    (covers : m.Covers (drafts.filterMap K.accepted?)) :
    Undisturbed m drafts.length (run Memory.service options drafts m) := by
  have whole := flatten_pieces options.config.batchSize drafts
  rw [← whole] at suits covers
  have undisturbed := undisturbed_batches hookless own unscripted suits covers fun _ there => there
  rw [whole] at undisturbed
  exact undisturbed

/-- As many keys are stored as there are distinct drafts. -/
theorem size_eq_length_eraseDupsBy (recognized : Recognized ds)
    (stored : ∀ key, (m.get? key).isSome = true ↔ key ∈ ds.map K.targetKey) :
    m.size = (ds.eraseDupsBy K.same).length := by
  obtain ⟨distinct, members⟩ := keys_eraseDupsBy K.same K.targetKey ds
    fun a ha b hb => ⟨fun same => by
      rw [Kind.targetKey, Kind.targetKey, LawfulKind.draftKey_of_same same],
      recognized.same b hb a ha⟩
  have perm : m.entities.keys.Perm ((ds.eraseDupsBy K.same).map K.targetKey) := by
    rw [List.perm_ext_iff_of_nodup m.entities.nodup_keys distinct]
    intro key
    rw [members, SortedMap.mem_keys, ← stored]
    rfl
  calc m.size = m.entities.keys.length := (List.length_map _).symm
    _ = ((ds.eraseDupsBy K.same).map K.targetKey).length := perm.length_eq
    _ = (ds.eraseDupsBy K.same).length := List.length_map _

end Lawful

/-- **Syncing twice.** Without hooks and failures, from an empty store, and for drafts of which
    those with one key are equal: the first run creates an entity for each distinct accepted draft,
    however the drafts are cut into batches, and nothing fails or is updated. A second run over the
    same drafts, with any settings, makes no create and no update call, counts nothing but what it
    processed, and leaves store and log as they are. -/
theorem run_twice [RecognizingKind K] {first second : Options K (Memory K)}
    (firstHookless : first.Hookless) (secondHookless : second.Hookless)
    (empty : m.entities = .empty) (unscripted : m.Unscripted)
    {drafts : List (Option K.Draft)} (coherent : Coherent (drafts.filterMap K.accepted?)) :
    let o := run Memory.service first drafts m
    let o' := run Memory.service second drafts o.world
    o.tally = ⟨drafts.length, ((drafts.filterMap K.accepted?).eraseDupsBy K.same).length, 0, 0⟩ ∧
    o'.tally = ⟨drafts.length, 0, 0, 0⟩ ∧ (∀ x ∈ o'.calls, x.isWrite = false) ∧
    o'.world.entities = o.world.entities ∧ o'.world.applied = o.world.applied := by
  intro o o'
  have recognized := coherent.recognized
  have free : ∀ key, m.get? key = none := by
    intro key
    rw [get?_eq, empty]
    rfl
  have own : m.OwnKeys := fun key e stored => by
    rw [free key] at stored
    cases stored
  have suits : m.Suits (drafts.filterMap K.accepted?) := fun d _ e stored => by
    rw [free] at stored
    cases stored
  have filled := filled_run firstHookless own unscripted recognized suits
  have stored : ∀ key, (o.world.get? key).isSome = true ↔
      key ∈ (drafts.filterMap K.accepted?).map K.targetKey := by
    intro key
    rw [filled.stored, free]
    simp
  have grown : o.world.size = m.size + o.tally.created :=
    (carried_size firstHookless.still).run drafts m
  have nothing : m.size = 0 := by
    rw [Memory.size, empty]
    rfl
  have created : o.tally.created = ((drafts.filterMap K.accepted?).eraseDupsBy K.same).length := by
    rw [← size_eq_length_eraseDupsBy recognized stored, grown, nothing, Nat.zero_add]
  have again := undisturbed_run secondHookless
    ((carried_ownKeys firstHookless.still).run drafts m own)
    ((carried_unscripted firstHookless.still).run drafts m unscripted) filled.suits
    fun d there => (stored _).2 (List.mem_map_of_mem there)
  refine ⟨?_, again.tally, again.calls, again.entities, again.applied⟩
  ext
  · exact processed_run Memory.service first drafts m
  · exact created
  · exact filled.updated
  · exact filled.failed

/-- The draft of a product twice, a null entry between them, and the same product under another
    key. -/
def productsTwice : List (Option ProductDraft) :=
  [some Diff.untidyDraft, none, some Diff.untidyDraft,
    some { Diff.untidyDraft with key := some "q" }]

theorem run_twice_products :
    let first : Options .product (Memory .product) :=
      { Options.default with config := Config.default.withBatchSize 2 }
    let second : Options .product (Memory .product) :=
      { Options.default with config := Config.default.withFilter (.exclude (.ofList [.images])) }
    let o := run Memory.service first productsTwice .empty
    let o' := run Memory.service second productsTwice o.world
    o.tally = ⟨4, 2, 0, 0⟩ ∧ o'.tally = ⟨4, 0, 0, 0⟩ ∧ o'.world.entities = o.world.entities := by
  intro first second o o'
  have firstHookless : first.Hookless := ⟨rfl, rfl⟩
  have secondHookless : second.Hookless := ⟨rfl, rfl⟩
  have unscripted : (Memory.empty : Memory .product).Unscripted := ⟨rfl, rfl⟩
  have tidy : ∀ d ∈ productsTwice.filterMap Kind.product.accepted?, Diff.Tidy d := by decide
  have coherent : Coherent (productsTwice.filterMap Kind.product.accepted?) := ⟨by decide, tidy⟩
  have distinct : ((productsTwice.filterMap Kind.product.accepted?).eraseDupsBy
    Kind.product.same).length = 2 := by decide
  obtain ⟨created, again, -, entities, -⟩ :=
    run_twice firstHookless secondHookless rfl unscripted coherent
  rw [distinct] at created
  exact ⟨created, again, entities⟩

end Sync

end CatalogSync
