import CatalogSync.Proofs.Differences
import CatalogSync.Proofs.Pairing
import CatalogSync.Proofs.RunRule
import CatalogSync.Proofs.Storage

/- Which drafts of a batch become records, and with what they are matched. An entry is accepted, or
   rejected for a reason; a validated batch is determined by these two (`validate_eq`). The accepted
   drafts have keys that are not blank (`draftKey_of_mem_drafts`), the keys of a validated batch are
   those of its accepted entries (`keys_validate`) and of its drafts (`mem_keys_validate`), and
   without repeated keys the drafts are the accepted entries in their order (`drafts_validate`). A
   draft is matched with the entity that is stored under its key when the batch starts
   (`matchDraft_fetched`). -/
namespace CatalogSync

theorem isBlank_iff_filter {key : Option String} :
    isBlank key = true ↔ (key.filter fun k => !isBlankText k) = none := by
  cases key with
  | none => simp
  | some key => cases blank : isBlankText key <;> simp [Option.filter, blank]

variable {K : Kind}

namespace Kind

/-- The draft of an entry that is accepted: its key is not blank, and nothing speaks against it. -/
def accepted? (K : Kind) (entry : Option K.Draft) : Option K.Draft :=
  entry.filter fun d =>
    ((K.draftKey d).filter fun k => !isBlankText k).isSome && (K.refusal? d).isNone

/-- The key of an entry, if it has one that is not blank. -/
def entryKey? (K : Kind) (entry : Option K.Draft) : Option String :=
  (entry.bind K.draftKey).filter fun k => !isBlankText k

/-- The keys of the entries that are accepted. -/
def acceptedKeys (K : Kind) (batch : List (Option K.Draft)) : SortedSet String :=
  .ofList ((batch.filterMap K.accepted?).map K.targetKey)

/-- Why an entry is rejected, if it is. -/
def rejection? (K : Kind) : Option K.Draft → Option (Rejection K)
  | none => some .absent
  | some d => if isBlank (K.draftKey d) then some (.keyless d) else (K.refusal? d).map (.refused d)

/-- A draft is refused only for its repeated keys. -/
theorem refusal?_eq_none {d : K.Draft} : K.refusal? d = none ↔ K.repeatedKeys d = [] := by
  unfold refusal?
  split
  · next once => simp [once]
  · next again => exact ⟨(by intro h; cases h), fun once => absurd once again⟩

theorem accepted?_eq_some {entry : Option K.Draft} {d : K.Draft} :
    K.accepted? entry = some d ↔
      entry = some d ∧ ((K.draftKey d).filter fun k => !isBlankText k).isSome ∧
        K.refusal? d = none := by
  simp [accepted?, Option.filter_eq_some_iff]

/-- An accepted draft has a key that is not blank, which is the one it is stored under. -/
theorem key_of_accepted {entry : Option K.Draft} {d : K.Draft} (h : K.accepted? entry = some d) :
    K.draftKey d = some (K.targetKey d) ∧ isBlankText (K.targetKey d) = false := by
  obtain ⟨-, keyed, -⟩ := accepted?_eq_some.1 h
  obtain ⟨key, found⟩ := Option.isSome_iff_exists.1 keyed
  rw [Option.filter_eq_some_iff] at found
  obtain ⟨has, filled⟩ := found
  have target : K.targetKey d = key := by simp [targetKey, has]
  exact ⟨by rw [has, target], by rw [target]; simpa using filled⟩

/-- Nothing speaks against an accepted entry. -/
theorem rejection?_of_accepted {entry : Option K.Draft} {d : K.Draft}
    (h : K.accepted? entry = some d) : K.rejection? entry = none := by
  obtain ⟨has, filled⟩ := key_of_accepted h
  obtain ⟨rfl, -, passed⟩ := accepted?_eq_some.1 h
  simp [rejection?, has, filled, passed]

theorem entryKey?_of_accepted {entry : Option K.Draft} {d : K.Draft}
    (h : K.accepted? entry = some d) : K.entryKey? entry = some (K.targetKey d) := by
  obtain ⟨has, filled⟩ := key_of_accepted h
  obtain ⟨rfl, -⟩ := accepted?_eq_some.1 h
  simp [entryKey?, has, Option.filter, filled]

end Kind

namespace Validated

/-- An accepted entry is taken in under its key. -/
theorem consider_of_accepted (v : Validated K) {entry : Option K.Draft} {d : K.Draft}
    (h : K.accepted? entry = some d) : v.consider entry = v.accept d (K.targetKey d) := by
  obtain ⟨has, filled⟩ := Kind.key_of_accepted h
  obtain ⟨rfl, -, passed⟩ := Kind.accepted?_eq_some.1 h
  have keyed : ((K.draftKey d).filter fun k => !isBlankText k) = some (K.targetKey d) := by
    simp [has, Option.filter, filled]
  simp only [consider, keyed, passed]

/-- Any other entry is rejected, for a reason. -/
theorem consider_of_rejected (v : Validated K) {entry : Option K.Draft}
    (h : K.accepted? entry = none) :
    ∃ r, K.rejection? entry = some r ∧ v.consider entry = v.reject r := by
  cases entry with
  | none => exact ⟨.absent, rfl, rfl⟩
  | some d =>
    cases keyed : (K.draftKey d).filter fun k => !isBlankText k with
    | none =>
      have blank : isBlank (K.draftKey d) = true := isBlank_iff_filter.2 keyed
      exact ⟨.keyless d, by simp [Kind.rejection?, blank], by simp only [consider, keyed]⟩
    | some key =>
      have filled : isBlank (K.draftKey d) = false := by
        rw [Bool.eq_false_iff]
        intro blank
        rw [isBlank_iff_filter.1 blank] at keyed
        cases keyed
      cases passed : K.refusal? d with
      | some reason =>
        exact ⟨.refused d reason, by simp [Kind.rejection?, filled, passed],
          by simp only [consider, keyed, passed]⟩
      | none =>
        have accepted : K.accepted? (some d) = some d :=
          Kind.accepted?_eq_some.2 ⟨rfl, by rw [keyed]; rfl, passed⟩
        rw [accepted] at h
        cases h

end Validated

/-! ### Validated batches -/

theorem validate_append_singleton (batch : List (Option K.Draft)) (entry : Option K.Draft) :
    validate K (batch ++ [entry]) = (validate K batch).consider entry := by
  simp [validate]

/-- A validated batch: of the accepted entries, those that count as equal to one taken before are
    left out, their keys are noted in any case, and all other entries are rejected. -/
theorem validate_eq (batch : List (Option K.Draft)) :
    validate K batch = ⟨Diff.difference K.same (batch.filterMap K.accepted?) [],
      K.acceptedKeys batch, batch.filterMap K.rejection?⟩ := by
  induction batch using List.reverseRecOn with
  | nil => rfl
  | append_singleton batch entry ih =>
    rw [validate_append_singleton, ih]
    unfold Kind.acceptedKeys
    cases found : K.accepted? entry with
    | none =>
      obtain ⟨r, reason, rejected⟩ := Validated.consider_of_rejected
        ⟨Diff.difference K.same (batch.filterMap K.accepted?) [],
          .ofList ((batch.filterMap K.accepted?).map K.targetKey),
          batch.filterMap K.rejection?⟩ found
      rw [rejected]
      simp [Validated.reject, found, reason]
    | some d =>
      have passed := Kind.rejection?_of_accepted found
      rw [Validated.consider_of_accepted _ found]
      simp only [Validated.accept, List.filterMap_append, List.filterMap_cons_some found,
        List.filterMap_cons_none passed, List.filterMap_nil, List.append_nil, List.map_append,
        List.map_singleton, SortedSet.ofList_append_singleton, Diff.difference_append_singleton,
        List.any_nil, Bool.false_or]
      split
      · rw [List.append_nil]
      · rfl

theorem drafts_validate_eq_difference (batch : List (Option K.Draft)) :
    (validate K batch).drafts = Diff.difference K.same (batch.filterMap K.accepted?) [] :=
  congrArg Validated.drafts (validate_eq batch)

/-- The keys of a validated batch are those of its accepted entries. -/
theorem keys_validate (batch : List (Option K.Draft)) :
    (validate K batch).keys = K.acceptedKeys batch :=
  congrArg Validated.keys (validate_eq batch)

/-- The rejections of a validated batch, in the order of its entries. -/
theorem rejected_validate (batch : List (Option K.Draft)) :
    (validate K batch).rejected = batch.filterMap K.rejection? :=
  congrArg Validated.rejected (validate_eq batch)

/-- What holds of the accepted entries holds of the drafts of a validated batch. -/
theorem mem_accepted_of_mem_drafts {batch : List (Option K.Draft)} {d : K.Draft}
    (h : d ∈ (validate K batch).drafts) : d ∈ batch.filterMap K.accepted? := by
  rw [drafts_validate_eq_difference] at h
  exact (Diff.mem_difference h).1

theorem accepted_of_mem_drafts {batch : List (Option K.Draft)} {d : K.Draft}
    (h : d ∈ (validate K batch).drafts) : ∃ entry ∈ batch, K.accepted? entry = some d :=
  List.mem_filterMap.1 (mem_accepted_of_mem_drafts h)

/-- Every accepted entry is among the drafts, or it counts as equal to one of them. -/
theorem exists_draft_of_accepted {batch : List (Option K.Draft)} {d : K.Draft}
    (h : d ∈ batch.filterMap K.accepted?) :
    ∃ d' ∈ (validate K batch).drafts, d = d' ∨ K.same d d' = true := by
  rw [drafts_validate_eq_difference]
  exact Diff.exists_difference h rfl

/-- None of the drafts of a validated batch counts as equal to one before it. -/
theorem drafts_validate_apart (batch : List (Option K.Draft)) :
    (validate K batch).drafts.Pairwise fun a b => K.same b a = false := by
  rw [drafts_validate_eq_difference]
  exact Diff.pairwise_difference ..

/-- The drafts of a validated batch are at most as many as its accepted entries. -/
theorem length_drafts_validate_le (batch : List (Option K.Draft)) :
    (validate K batch).drafts.length ≤ (batch.filterMap K.accepted?).length := by
  rw [drafts_validate_eq_difference]
  exact (Diff.difference_sublist ..).length_le

/-- A batch has no drafts only if it has no accepted entries. -/
theorem drafts_validate_eq_nil {batch : List (Option K.Draft)} :
    (validate K batch).drafts = [] ↔ batch.filterMap K.accepted? = [] := by
  simp only [List.eq_nil_iff_forall_not_mem]
  constructor
  · intro empty d accepted
    obtain ⟨d', there, -⟩ := exists_draft_of_accepted accepted
    exact empty d' there
  · intro none d there
    exact none d (mem_accepted_of_mem_drafts there)

theorem draftKey_of_mem_drafts {batch : List (Option K.Draft)} {d : K.Draft}
    (h : d ∈ (validate K batch).drafts) :
    K.draftKey d = some (K.targetKey d) ∧ isBlankText (K.targetKey d) = false := by
  obtain ⟨entry, -, accepted⟩ := accepted_of_mem_drafts h
  exact Kind.key_of_accepted accepted

/-- Drafts that count as equal are stored under one key. -/
theorem targetKey_of_same [LawfulKind K] {d d' : K.Draft} (same : K.same d d' = true) :
    K.targetKey d = K.targetKey d' := by
  rw [Kind.targetKey, Kind.targetKey, LawfulKind.draftKey_of_same same]

/-- The keys of a validated batch are the keys of its drafts. -/
theorem mem_keys_validate [LawfulKind K] {batch : List (Option K.Draft)} {key : String} :
    key ∈ (validate K batch).keys ↔ ∃ d ∈ (validate K batch).drafts, K.targetKey d = key := by
  rw [keys_validate, Kind.acceptedKeys, SortedSet.mem_ofList, List.mem_map]
  constructor
  · rintro ⟨d, accepted, rfl⟩
    -- the draft that was accepted before has the same key
    obtain ⟨d', there, rfl | same⟩ := exists_draft_of_accepted accepted
    · exact ⟨d, there, rfl⟩
    · exact ⟨d', there, (targetKey_of_same same).symm⟩
  · rintro ⟨d, there, rfl⟩
    exact ⟨d, mem_accepted_of_mem_drafts there, rfl⟩

/-- Without repeated keys, the drafts of a validated batch are the accepted entries. -/
theorem drafts_validate [LawfulKind K] {batch : List (Option K.Draft)}
    (distinct : ((batch.filterMap K.accepted?).map K.targetKey).Nodup) :
    (validate K batch).drafts = batch.filterMap K.accepted? := by
  rw [drafts_validate_eq_difference]
  refine Diff.difference_eq_self ((List.pairwise_map.1 distinct).imp fun {d d'} apart => ?_)
  exact Bool.eq_false_iff.2 fun same => apart (targetKey_of_same same).symm

/-- A draft beside the entity stored under its key, or for itself. -/
def Memory.matched (m : Memory K) (d : K.Draft) : Matched K :=
  match m.get? (K.targetKey d) with
  | some e => .update e d
  | none => .create d

theorem ne_empty_of_not_blank {key : String} (h : isBlankText key = false) : key ≠ "" := by
  intro empty
  rw [empty, isBlankText_empty] at h
  cases h

/-- An entity that is stored under a key which is not blank has that key. -/
theorem Memory.OwnKeys.entityKey {m : Memory K} (own : m.OwnKeys) {key : String} {e : K.Entity}
    (found : m.get? key = some e) (filled : isBlankText key = false) :
    K.entityKey e = some key := by
  have stored := own key e found
  unfold Kind.storageKey at stored
  cases has : K.entityKey e with
  | some key' =>
    rw [has] at stored
    exact congrArg some stored
  | none =>
    rw [has] at stored
    exact absurd stored.symm (ne_empty_of_not_blank filled)

/-- What is found under a list of keys has those of them for its storage keys that are taken. -/
theorem Memory.OwnKeys.map_storageKey {m : Memory K} (own : m.OwnKeys) (keys : List String) :
    (keys.filterMap m.get?).map K.storageKey = keys.filter fun key => (m.get? key).isSome := by
  induction keys with
  | nil => rfl
  | cons key keys ih =>
    cases found : m.get? key with
    | none => rw [List.filterMap_cons_none found, List.filter_cons_of_neg (by simp [found]), ih]
    | some e =>
      rw [List.filterMap_cons_some found, List.filter_cons_of_pos (by simp [found]),
        List.map_cons, own key e found, ih]

/-- What is found under different keys has different keys. -/
theorem Memory.OwnKeys.nodup_found {m : Memory K} (own : m.OwnKeys) {keys : List String}
    (once : keys.Nodup) : ((keys.filterMap m.get?).map K.entityKey).Nodup := by
  have storage : ((keys.filterMap m.get?).map K.storageKey).Nodup := by
    rw [own.map_storageKey]
    exact once.filter _
  have parts : (keys.filterMap m.get?).map K.storageKey =
      ((keys.filterMap m.get?).map K.entityKey).map (·.getD "") := by
    rw [List.map_map]
    rfl
  rw [parts] at storage
  exact storage.of_map

/-- In the index of what a fetch returns, a key leads to the entity that is stored under it. -/
theorem get?_index_fetched {m : Memory K} (own : m.OwnKeys) {keys : SortedSet String}
    {key : String} (asked : key ∈ keys) (filled : isBlankText key = false) :
    (SortedMap.indexBy K.entityKey (keys.toList.filterMap m.get?)).get? key = m.get? key := by
  have apart := Edit.nodup_filterMap_of_map (own.nodup_found keys.nodup_toList)
  refine Option.ext fun e => ?_
  rw [Edit.get?_indexBy_eq_some apart]
  constructor
  · rintro ⟨there, named⟩
    obtain ⟨key', -, found⟩ := List.mem_filterMap.1 there
    have same : key = key' := by simpa [Kind.storageKey, named] using own key' e found
    rw [same, found]
  · intro found
    exact ⟨List.mem_filterMap.2 ⟨key, asked, found⟩, own.entityKey found filled⟩

/-- A draft of a batch is matched with the entity that is stored under its key. -/
theorem matchDraft_fetched {m : Memory K} (own : m.OwnKeys) {keys : SortedSet String}
    {d : K.Draft} (asked : K.targetKey d ∈ keys)
    (keyed : K.draftKey d = some (K.targetKey d) ∧ isBlankText (K.targetKey d) = false) :
    matchDraft K (SortedMap.indexBy K.entityKey (keys.toList.filterMap m.get?)) d =
      m.matched d := by
  have found : (K.draftKey d).bind
      (SortedMap.indexBy K.entityKey (keys.toList.filterMap m.get?)).get? =
        m.get? (K.targetKey d) := by
    rw [keyed.1]
    exact get?_index_fetched own asked keyed.2
  unfold matchDraft Memory.matched
  cases stored : m.get? (K.targetKey d) with
  | none => simp only [found, stored]
  | some e => simp only [found, stored]

/-- A run keeps every entity under its own key. -/
theorem Sync.carried_ownKeys [LawfulKind K] {options : Options K (Memory K)}
    (still : options.Still) :
    Carried Memory.service options fun m _ m' => m.OwnKeys → m'.OwnKeys where
  idle _ own := own
  trans h h' own := h' (h own)
  processed _ _ own := own
  failed _ _ own := own
  onFetchMatching keys m own := by
    show (Memory.fetchMatching keys m).2.OwnKeys
    rw [Memory.fetchMatching_snd]
    exact own
  onFetchByKey key m own := by
    show (Memory.fetchByKey key m).2.OwnKeys
    rw [Memory.fetchByKey_snd]
    exact own
  onCreate draft m := (Memory.create_change draft m).ownKeys
  onUpdate e actions m := (Memory.update_change e actions m).ownKeys
  onBeforeCreate hook found draft m own := by
    rw [still.beforeCreate hook found]
    exact own
  onBeforeUpdate hook found actions draft e m own := by
    rw [still.beforeUpdate hook found]
    exact own

/-- The records of a batch: every draft beside what is stored under its key at the start. -/
theorem matchDrafts_fetched [LawfulKind K] {m : Memory K} (own : m.OwnKeys)
    (batch : List (Option K.Draft)) :
    let v := validate K batch
    matchDrafts K (v.keys.toList.filterMap m.get?) v.drafts = v.drafts.map m.matched := by
  intro v
  refine List.map_congr_left fun d there => ?_
  exact matchDraft_fetched own (mem_keys_validate.2 ⟨d, there, rfl⟩) (draftKey_of_mem_drafts there)

end CatalogSync
