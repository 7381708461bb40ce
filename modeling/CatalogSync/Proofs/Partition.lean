import CatalogSync.Proofs.Acceptance

/- How a run is cut into batches, and what a batch may count and call, whatever the service answers
   and the hooks do. A record ends in one result at most (`within_record`) and a batch has at most
   as many records, and as many keys, as entries, so the results of a run never outnumber what was
   processed. A batch with accepted drafts starts with the one fetch of their keys, and any other
   makes no call (`calls_batch`). Main statement: `run_partition`. -/
namespace CatalogSync

namespace Tally

/-- How many records ended in a result: created, updated or failed. -/
def settled (t : Tally) : Nat := t.created + t.updated + t.failed

@[simp] theorem settled_zero : (0 : Tally).settled = 0 := rfl

@[simp] theorem settled_add (a b : Tally) : (a + b).settled = a.settled + b.settled := by
  simp only [settled, created_add, updated_add, failed_add]
  omega

/-- Nothing was processed, and at most `n` records ended in a result. -/
structure Within (n : Nat) (t : Tally) : Prop where
  processed : t.processed = 0
  settled : t.settled ≤ n

namespace Within

variable {n n' : Nat} {s t : Tally}

theorem zero (n : Nat) : Within n 0 := ⟨rfl, Nat.zero_le n⟩

theorem mono (h : Within n t) (le : n ≤ n') : Within n' t :=
  ⟨h.processed, Nat.le_trans h.settled le⟩

theorem add (h : Within n s) (h' : Within n' t) : Within (n + n') (s + t) := by
  refine ⟨?_, ?_⟩
  · rw [processed_add, h.processed, h'.processed]
  · rw [settled_add]
    exact Nat.add_le_add h.settled h'.settled

theorem ofCreated (n : Nat) : Within n (.ofCreated n) := ⟨rfl, Nat.le_refl n⟩

theorem ofUpdated (n : Nat) : Within n (.ofUpdated n) :=
  ⟨rfl, Nat.le_of_eq (Nat.zero_add n)⟩

theorem ofFailed (n : Nat) : Within n (.ofFailed n) :=
  ⟨rfl, Nat.le_of_eq (Nat.zero_add n)⟩

end Within

/-- As long as the results do not outnumber what was processed, and the counters have room for
    that, the records left over are counted exactly. -/
theorem unchanged_add (t : Tally) (books : t.settled ≤ t.processed)
    (room : t.processed < UInt64.size) :
    t.statistics.unchanged + t.statistics.created.toNat + t.statistics.updated.toNat +
      t.statistics.failed.toNat = t.statistics.processed.toNat := by
  have exact : ∀ n ≤ t.processed, n.toUInt64.toNat = n := fun n le =>
    UInt64.toNat_ofNat_of_lt (Nat.lt_of_le_of_lt le room)
  unfold settled at books
  simp only [Statistics.unchanged, statistics]
  rw [exact t.processed (Nat.le_refl _), exact t.created (by omega), exact t.updated (by omega),
    exact t.failed (by omega)]
  omega

end Tally

/-- The call fetches the entities of a batch. -/
def Entry.isFetchMatching {K : Kind} : Entry K → Bool
  | .fetchMatching .. => true
  | _ => false

/-- The calls of a sequence are those of its stages, one after the other. -/
theorem Outcome.calls_sequence {K : Kind} {α σ : Type} (step : α → σ → Outcome K σ) (as : List α)
    (w : σ) : (sequence step as w).calls =
      (stages step as w).flatMap fun s => (step s.item s.world).calls := by
  rw [calls, journal_sequence, List.filter_flatMap]
  rfl

namespace Sync

/-! ### Pieces -/

section Pieces

variable {α : Type} {n : Nat} {xs piece : List α}

theorem ne_nil_of_mem_pieces (h : piece ∈ pieces n xs) : piece ≠ [] := by
  fun_induction pieces n xs with
  | case1 => exact absurd h List.not_mem_nil
  | case2 x xs ih =>
    rcases List.mem_cons.1 h with rfl | later
    · exact List.cons_ne_nil _ _
    · exact ih later

theorem length_le_of_mem_pieces (h : piece ∈ pieces n xs) : piece.length ≤ max n 1 := by
  fun_induction pieces n xs with
  | case1 => exact absurd h List.not_mem_nil
  | case2 x xs ih =>
    rcases List.mem_cons.1 h with rfl | later
    · rw [List.length_cons, List.length_take]
      omega
    · exact ih later

/-- All pieces but the last are full. -/
theorem length_of_mem_dropLast_pieces (h : piece ∈ (pieces n xs).dropLast) :
    piece.length = max n 1 := by
  fun_induction pieces n xs with
  | case1 => exact absurd h List.not_mem_nil
  | case2 x xs ih =>
    by_cases last : pieces n (xs.drop (n - 1)) = []
    · rw [last] at h
      exact absurd h List.not_mem_nil
    · rw [List.dropLast_cons_of_ne_nil last] at h
      rcases List.mem_cons.1 h with rfl | later
      · -- something is left over, so the piece is not cut short
        have more : xs.drop (n - 1) ≠ [] := by
          intro nothing
          rw [nothing, pieces] at last
          exact last rfl
        have long : n - 1 < xs.length := by simpa using more
        rw [List.length_cons, List.length_take]
        omega
      · exact ih later

end Pieces

variable {K : Kind} {σ : Type}

/-! ### Reading the call sequences -/

section Reading

variable {service : Service K σ} {options : Options K σ} {existing : K.Entity} {draft : K.Draft}
  {w : σ} {calls : List (Entry K)} {t : Tally}

theorem within_countOf (calls : List (Entry K)) : (countOf calls).Within 1 := by
  unfold countOf
  split
  · exact .ofUpdated 1
  · split
    · exact .ofFailed 1
    · exact .zero 1

theorem CreateCalls.within (h : CreateCalls service options draft w calls t) : t.Within 1 := by
  cases h with
  | vetoed => exact .zero 1
  | @created hooked r =>
    cases r with
    | ok _ => exact .ofCreated 1
    | error _ => exact .ofFailed 1

/-- The calls of a record that is to be updated leave the fetch of the batch alone. -/
theorem UpdateCalls.not_isFetchMatching
    (h : UpdateCalls service options existing draft w calls t) :
    ∀ x ∈ calls, x.isFetchMatching = false := by
  cases h with
  | nothing => simp
  | once => simp [Entry.isFetchMatching]
  | again _ _ _ _ rest =>
    cases rest with
    | lost => simp [Entry.isFetchMatching]
    | settled => simp [Entry.isFetchMatching]
    | resent => simp [Entry.isFetchMatching]

theorem CreateCalls.not_isFetchMatching (h : CreateCalls service options draft w calls t) :
    ∀ x ∈ calls, x.isFetchMatching = false := by
  cases h with
  | vetoed => simp
  | created => simp [Entry.isFetchMatching]

end Reading

variable (service : Service K σ) (options : Options K σ)

/-! ### Results -/

/-- A record ends in one result at most. -/
theorem within_record (m : Matched K) (w : σ) : (record service options m w).tally.Within 1 := by
  cases m with
  | create draft => exact (create_calls service options draft w).within
  | update existing draft =>
    have counted := (update_calls service options existing draft w).tally_eq
    show (update service options existing draft w).tally.Within 1
    rw [counted]
    exact within_countOf _

/-- The results of a sequence add up. -/
theorem within_sequence {α : Type} {step : α → σ → Outcome K σ}
    (h : ∀ a w, (step a w).tally.Within 1) (as : List α) (w : σ) :
    (Outcome.sequence step as w).tally.Within as.length := by
  induction as generalizing w with
  | nil => exact .zero 0
  | cons a as ih =>
    rw [List.length_cons, Nat.add_comm]
    exact (h a w).add (ih _)

/-- A batch has at most as many keys as entries. -/
theorem size_keys_validate_le (batch : List (Option K.Draft)) :
    (validate K batch).keys.size ≤ batch.length := by
  rw [keys_validate]
  calc (K.acceptedKeys batch).size
      ≤ ((batch.filterMap K.accepted?).map K.targetKey).length := SortedSet.size_ofList_le _
    _ = (batch.filterMap K.accepted?).length := List.length_map ..
    _ ≤ batch.length := List.length_filterMap_le ..

/-- The results of a batch do not outnumber its entries: if the fetch fails there is one for each
    key, and else at most one for each draft. -/
theorem within_records (batch : List (Option K.Draft)) (w : σ) :
    (records service options (validate K batch) w).tally.Within batch.length := by
  rcases fetch : service.fetchMatching (validate K batch).keys w with ⟨error | existing, w'⟩
  · rw [records_of_error service options fetch]
    exact (Tally.Within.ofFailed _).mono (size_keys_validate_le batch)
  · rw [records_of_ok service options fetch, Outcome.tally_andThen, Tally.zero_add]
    refine (within_sequence (within_record service options) _ w').mono ?_
    calc (matchDrafts K existing (validate K batch).drafts).length
        = (validate K batch).drafts.length := List.length_map ..
      _ ≤ (batch.filterMap K.accepted?).length := length_drafts_validate_le batch
      _ ≤ batch.length := List.length_filterMap_le ..

theorem tally_batch_books (batch : List (Option K.Draft)) (w : σ) :
    let t := (Sync.batch service options batch w).tally
    t.processed = batch.length ∧ t.settled ≤ batch.length := by
  intro t
  by_cases empty : (validate K batch).drafts = []
  · have ends : t = .ofProcessed batch.length + 0 :=
      congrArg Outcome.tally (batch_of_empty service options empty w)
    rw [ends]
    exact ⟨rfl, Nat.zero_le _⟩
  · have ends : t = .ofProcessed batch.length + _ :=
      congrArg Outcome.tally (batch_of_loaded service options empty w)
    have within := within_records service options batch w
    rw [ends, Tally.processed_add, Tally.settled_add, within.processed]
    exact ⟨rfl, Nat.le_trans (Nat.le_of_eq (Nat.zero_add _)) within.settled⟩

/-- The results of some batches do not outnumber the entries. -/
theorem tally_batches_books (batches : List (List (Option K.Draft))) (w : σ) :
    let t := (Outcome.sequence (batch service options) batches w).tally
    t.processed = batches.flatten.length ∧ t.settled ≤ batches.flatten.length := by
  induction batches generalizing w with
  | nil => exact ⟨rfl, Nat.le_refl 0⟩
  | cons piece batches ih =>
    intro t
    obtain ⟨processed, settled⟩ := tally_batch_books service options piece w
    obtain ⟨processed', settled'⟩ := ih (batch service options piece w).world
    have ends : t = _ + _ := Outcome.tally_andThen _ _
    rw [ends, List.flatten_cons, List.length_append, Tally.processed_add, Tally.settled_add]
    exact ⟨by rw [processed, processed'], Nat.add_le_add settled settled'⟩

/-- Every entry is processed. -/
theorem processed_run (drafts : List (Option K.Draft)) (w : σ) :
    (run service options drafts w).tally.processed = drafts.length := by
  have books := tally_batches_books service options (pieces options.config.batchSize drafts) w
  rw [flatten_pieces] at books
  exact books.1

/-! ### Calls -/

/-- A record does not fetch the entities of a batch. -/
theorem not_isFetchMatching_of_record (m : Matched K) (w : σ) :
    ∀ x ∈ (record service options m w).calls, x.isFetchMatching = false := by
  cases m with
  | create draft => exact (create_calls service options draft w).not_isFetchMatching
  | update existing draft =>
    exact (update_calls service options existing draft w).not_isFetchMatching

/-- Reporting the rejections is not a call. -/
theorem calls_rejected (rejected : List (Rejection K)) :
    (rejected.map fun r => (Entry.event (.rejected r) : Entry K)).filter (·.isCall) = [] := by
  rw [List.filter_eq_nil_iff]
  intro x there
  obtain ⟨r, -, rfl⟩ := List.mem_map.1 there
  exact Bool.false_ne_true

theorem calls_records (v : Validated K) (w : σ) :
    ∃ rest, (records service options v w).calls =
        .fetchMatching v.keys (service.fetchMatching v.keys w).1 :: rest ∧
      ∀ x ∈ rest, x.isFetchMatching = false := by
  rcases fetch : service.fetchMatching v.keys w with ⟨error | existing, w'⟩
  · rw [records_of_error service options fetch]
    exact ⟨[], rfl, fun x there => absurd there List.not_mem_nil⟩
  · rw [records_of_ok service options fetch, Outcome.calls_andThen]
    refine ⟨_, rfl, ?_⟩
    rw [Outcome.calls_sequence]
    intro x there
    obtain ⟨s, -, made⟩ := List.mem_flatMap.1 there
    exact not_isFetchMatching_of_record service options s.item s.world x made

/-- A batch without accepted drafts makes no call; any other fetches the entities with the keys of
    its accepted drafts, once and before anything else. -/
theorem calls_batch (batch : List (Option K.Draft)) (w : σ) :
    let calls := (Sync.batch service options batch w).calls
    let keys := K.acceptedKeys batch
    (batch.filterMap K.accepted? = [] → calls = []) ∧
    (batch.filterMap K.accepted? ≠ [] → ∃ rest,
      calls = .fetchMatching keys (service.fetchMatching keys w).1 :: rest ∧
      ∀ x ∈ rest, x.isFetchMatching = false) := by
  intro calls keys
  constructor
  · intro rejected
    have ends := batch_of_empty service options (drafts_validate_eq_nil.2 rejected) w
    show (Sync.batch service options batch w).calls = []
    rw [ends, Outcome.andThen_idle]
    exact calls_rejected _
  · intro accepted
    have ends := batch_of_loaded service options (drafts_validate_eq_nil.not.2 accepted) w
    obtain ⟨rest, fetch, others⟩ := calls_records service options (validate K batch) w
    refine ⟨rest, ?_, others⟩
    show (Sync.batch service options batch w).calls = _
    rw [ends, Outcome.calls_andThen, fetch, keys_validate]
    show List.filter _ _ ++ _ = _
    rw [calls_rejected, List.nil_append]

/-! ### Whole runs -/

/-- **Batches, counts and fetches of a run.** Whatever the service answers and the hooks do: the
    batches make up the list of drafts, none is empty, none is too long and all but the last are
    full; the run processes every entry; after each batch, no more records ended in a result than
    were processed, so the counters of the others are exact as long as they have room; and each
    batch makes no call if none of its drafts is accepted, and else fetches what is stored under
    the keys of the accepted ones, once and first. -/
theorem run_partition (drafts : List (Option K.Draft)) (w : σ) :
    let size := max options.config.batchSize 1
    let batches := pieces options.config.batchSize drafts
    let stages := Outcome.stages (batch service options) batches w
    let o := run service options drafts w
    (batches.flatten = drafts ∧ (∀ b ∈ batches, b ≠ [] ∧ b.length ≤ size) ∧
      ∀ b ∈ batches.dropLast, b.length = size) ∧
    o.tally.processed = drafts.length ∧
    (∀ k, let t := (Outcome.sequence (batch service options) (batches.take k) w).tally
      t.created + t.updated + t.failed ≤ t.processed ∧
      (drafts.length < UInt64.size → let s := t.statistics
        s.unchanged + s.created.toNat + s.updated.toNat + s.failed.toNat = s.processed.toNat)) ∧
    stages.map (·.item) = batches ∧
    o.calls = stages.flatMap (fun b => (batch service options b.item b.world).calls) ∧
    ∀ b ∈ stages,
      let accepted := b.item.filterMap K.accepted?
      let keys := K.acceptedKeys b.item
      let calls := (batch service options b.item b.world).calls
      (∀ key ∈ keys, isBlankText key = false) ∧
      (accepted = [] → calls = []) ∧
      (accepted ≠ [] → ∃ rest,
        calls = .fetchMatching keys (service.fetchMatching keys b.world).1 :: rest ∧
        ∀ x ∈ rest, x.isFetchMatching = false) := by
  intro size batches stages o
  have whole : batches.flatten = drafts := flatten_pieces _ drafts
  refine ⟨⟨whole, ?_, ?_⟩, processed_run service options drafts w, ?_,
    Outcome.map_item_stages _ _ _, Outcome.calls_sequence _ _ _, ?_⟩
  · exact fun b there => ⟨ne_nil_of_mem_pieces there, length_le_of_mem_pieces there⟩
  · exact fun b there => length_of_mem_dropLast_pieces there
  · intro k t
    obtain ⟨processed, settled⟩ := tally_batches_books service options (batches.take k) w
    have books : t.settled ≤ t.processed := Nat.le_trans settled (Nat.le_of_eq processed.symm)
    refine ⟨books, fun room => t.unchanged_add books ?_⟩
    have part : (batches.take k).flatten.length ≤ drafts.length := by
      have split : batches.flatten.length =
          (batches.take k).flatten.length + (batches.drop k).flatten.length := by
        rw [← List.length_append, ← List.flatten_append, List.take_append_drop]
      rw [← whole, split]
      exact Nat.le_add_right _ _
    rw [show t.processed = _ from processed]
    exact Nat.lt_of_le_of_lt part room
  · intro b there accepted keys calls
    refine ⟨?_, calls_batch service options b.item b.world⟩
    intro key listed
    obtain ⟨d, taken, rfl⟩ := List.mem_map.1 (SortedSet.mem_ofList.1 listed)
    obtain ⟨entry, -, passed⟩ := List.mem_filterMap.1 taken
    exact (Kind.key_of_accepted passed).2

/-- Two channels, and an entry that is rejected. -/
def channelsWithGap : List (Option ChannelDraft) := [some (.ofKey "a"), none, some (.ofKey "b")]

/-- Two drafts to a batch. -/
def inPairs : Options .channel (Memory .channel) :=
  { Options.default with config := Config.default.withBatchSize 2 }

theorem run_partition_in_pairs : channelsWithGap.length < UInt64.size ∧
    let o := run Memory.service inPairs channelsWithGap .empty
    o.tally = ⟨3, 2, 0, 0⟩ ∧ o.tally.statistics.unchanged = 1 := by
  have room : channelsWithGap.length < UInt64.size := by decide
  obtain ⟨-, -, books, -⟩ := run_partition Memory.service inPairs channelsWithGap .empty
  have exact := (books 2).2 room
  have cut : pieces inPairs.config.batchSize channelsWithGap =
      [[some (.ofKey "a"), none], [some (.ofKey "b")]] := by
    simp [pieces, channelsWithGap, inPairs, Config.withBatchSize]
  have counts : (Outcome.sequence (batch Memory.service inPairs)
      [[some (.ofKey "a"), none], [some (.ofKey "b")]] .empty).tally = ⟨3, 2, 0, 0⟩ := by
    decide
  rw [cut, List.take_of_length_le (Nat.le_refl 2), counts] at exact
  have sum : (Tally.statistics ⟨3, 2, 0, 0⟩).unchanged + 2 = 1 + 2 := exact
  rw [run, cut]
  refine ⟨room, counts, ?_⟩
  rw [counts]
  exact Nat.add_right_cancel sum

end Sync

end CatalogSync
