import CatalogSync.Proofs.Acceptance
import CatalogSync.Proofs.Recognition

/- Validation parts a batch in two. The entries that are unfit end among the rejections, each with
   its draft and its reason, and of the others the first of every class of equal drafts is kept
   (`drafts_validate_eq_firsts`). That needs drafts that are compared by an equivalence
   (`ComparableKind`), as those of products and channels are. Main statement:
   `validate_partitions`. -/
namespace CatalogSync

/-- A kind whose drafts are compared by an equivalence. -/
class ComparableKind (K : Kind) extends LawfulKind K where
  same_refl : ∀ d, K.same d d = true
  same_symm : ∀ {c d}, K.same c d = true → K.same d c = true
  same_trans : ∀ {b c d}, K.same b c = true → K.same c d = true → K.same b d = true

namespace Kind

instance : ComparableKind product where
  same_refl _ := BEq.rfl
  same_symm := BEq.symm
  same_trans := BEq.trans

instance : ComparableKind channel where
  same_refl _ := BEq.rfl
  same_symm := BEq.symm
  same_trans := BEq.trans

end Kind

/-! ### First occurrences -/

/-- The elements of a list that are the same as none before them, in order. -/
def firsts {α : Type} (same : α → α → Bool) (xs : List α) : List α :=
  Diff.picked xs fun i => (xs.take i).all fun b => !same (xs.get i) b

section Firsts

variable {α : Type} {same : α → α → Bool}

theorem all_take_iff {xs : List α} {i : Fin xs.length} :
    ((xs.take i).all fun b => !same (xs.get i) b) = true ↔
      ∀ j < i, same (xs.get i) (xs.get j) = false := by
  simp only [List.all_eq_true, Bool.not_eq_true', List.mem_take_iff_getElem]
  constructor
  · intro first j earlier
    exact first (xs.get j) ⟨j, by omega, rfl⟩
  · rintro first b ⟨j, earlier, rfl⟩
    exact first ⟨j, by omega⟩ (Fin.mk_lt_of_lt_val (by omega))

/-- Under a transitive relation, the elements that are chosen are those at their first occurrence:
    what is the same as an element before it is the same as one that is chosen. -/
theorem difference_eq_firsts
    (trans : ∀ {a b c}, same a b = true → same b c = true → same a c = true) (xs : List α) :
    Diff.difference same xs [] = firsts same xs := by
  refine Diff.difference_eq_picked fun i => ?_
  rw [all_take_iff]
  constructor
  · intro first
    exact ⟨fun b there => absurd there List.not_mem_nil, fun j earlier _ => first j earlier⟩
  · rintro ⟨-, apart⟩ j
    -- an element that is not chosen is the same as one before it
    induction j using WellFoundedLT.induction with
    | ind j ih =>
      intro earlier
      by_cases chosen : ∀ k < j, same (xs.get j) (xs.get k) = false
      · exact apart j earlier (all_take_iff.2 chosen)
      · simp only [not_forall, Bool.not_eq_false] at chosen
        obtain ⟨k, before, repeated⟩ := chosen
        have differs := Bool.eq_false_iff.1 (ih k before (before.trans earlier))
        exact Bool.eq_false_iff.2 fun alike => differs (trans alike repeated)

end Firsts

variable {K : Kind}

/-! ### Unfit entries -/

namespace Kind

/-- The entry is null, its key is blank, or the draft is refused. -/
def unfit (K : Kind) : Option K.Draft → Bool
  | none => true
  | some d => isBlank (K.draftKey d) || (K.refusal? d).isSome

/-- An unfit entry is rejected, with its draft. -/
theorem map_rejection? (entry : Option K.Draft) :
    (K.rejection? entry).map (·.draft?) = if K.unfit entry then some entry else none := by
  cases entry with
  | none => rfl
  | some d =>
    cases blank : isBlank (K.draftKey d) with
    | true => simp [rejection?, unfit, blank, Rejection.draft?]
    | false =>
      cases refused : K.refusal? d <;>
        simp [rejection?, unfit, blank, refused, Rejection.draft?]

/-- Any other entry is accepted. -/
theorem map_accepted? (entry : Option K.Draft) :
    (K.accepted? entry).map some = if !K.unfit entry then some entry else none := by
  cases entry with
  | none => rfl
  | some d =>
    have filled : ((K.draftKey d).filter fun k => !isBlankText k).isSome =
        !isBlank (K.draftKey d) := by
      rw [Bool.eq_iff_iff, Bool.not_eq_true', Bool.eq_false_iff, ne_eq, isBlank_iff_filter,
        ← ne_eq, Option.ne_none_iff_isSome]
    rw [accepted?, Option.filter_some, filled, unfit, Bool.not_or, Option.not_isSome]
    split <;> rfl

/-- Rejections and accepted drafts are the two parts of a batch. -/
theorem filterMap_rejection? (batch : List (Option K.Draft)) :
    (batch.filterMap K.rejection?).map (·.draft?) = batch.filter K.unfit := by
  rw [List.map_filterMap, ← List.filterMap_eq_filter]
  refine List.filterMap_congr fun entry _ => ?_
  rw [map_rejection?, Option.guard]

theorem filterMap_accepted? (batch : List (Option K.Draft)) :
    (batch.filterMap K.accepted?).map some = batch.filter fun entry => !K.unfit entry := by
  rw [List.map_filterMap, ← List.filterMap_eq_filter]
  refine List.filterMap_congr fun entry _ => ?_
  rw [map_accepted?, Option.guard]

theorem length_rejected_add_length_accepted (batch : List (Option K.Draft)) :
    (batch.filterMap K.rejection?).length + (batch.filterMap K.accepted?).length =
      batch.length := by
  calc (batch.filterMap K.rejection?).length + (batch.filterMap K.accepted?).length
      = (batch.filter K.unfit).length + (batch.filter fun entry => !K.unfit entry).length := by
        rw [← filterMap_rejection?, ← filterMap_accepted?, List.length_map, List.length_map]
    _ = batch.length := (List.length_eq_length_filter_add K.unfit).symm

end Kind

/-! ### The parts of a validated batch -/

variable {batch : List (Option K.Draft)}

theorem accepted?_of_mem_drafts {d : K.Draft} (h : d ∈ (validate K batch).drafts) :
    K.accepted? (some d) = some d := by
  obtain ⟨entry, -, accepted⟩ := accepted_of_mem_drafts h
  obtain ⟨-, keyed, passed⟩ := Kind.accepted?_eq_some.1 accepted
  exact Kind.accepted?_eq_some.2 ⟨rfl, keyed, passed⟩

section Parts

variable [ComparableKind K]

/-- The drafts of a validated batch are the accepted ones at their first occurrence. -/
theorem drafts_validate_eq_firsts (batch : List (Option K.Draft)) :
    (validate K batch).drafts = firsts K.same (batch.filterMap K.accepted?) := by
  rw [drafts_validate_eq_difference]
  exact difference_eq_firsts ComparableKind.same_trans _

/-- No two of them are equal. -/
theorem pairwise_drafts_validate (batch : List (Option K.Draft)) :
    (validate K batch).drafts.Pairwise fun c d => K.same c d = false ∧ K.same d c = false := by
  refine (drafts_validate_apart batch).imp fun {c d} apart => ⟨?_, apart⟩
  exact Bool.eq_false_iff.2 fun same => Bool.eq_false_iff.1 apart (ComparableKind.same_symm same)

/-- Every accepted draft is equal to one of them. -/
theorem exists_same_draft {d : K.Draft} (h : d ∈ batch.filterMap K.accepted?) :
    ∃ d' ∈ (validate K batch).drafts, K.same d d' = true := by
  obtain ⟨d', there, rfl | same⟩ := exists_draft_of_accepted h
  · exact ⟨d, there, ComparableKind.same_refl d⟩
  · exact ⟨d', there, same⟩

/-- Accepted drafts that differ are equal to drafts that differ. -/
theorem exists_distinct_drafts {c d : K.Draft} (hc : c ∈ batch.filterMap K.accepted?)
    (hd : d ∈ batch.filterMap K.accepted?) (differ : K.same c d = false) :
    ∃ c' ∈ (validate K batch).drafts, ∃ d' ∈ (validate K batch).drafts,
      K.same c c' = true ∧ K.same d d' = true ∧ K.same c' d' = false := by
  obtain ⟨c', there, same⟩ := exists_same_draft hc
  obtain ⟨d', there', same'⟩ := exists_same_draft hd
  refine ⟨c', there, d', there', same, same', Bool.eq_false_iff.2 fun alike => ?_⟩
  have back : K.same c d = true := ComparableKind.same_trans same
    (ComparableKind.same_trans alike (ComparableKind.same_symm same'))
  rw [differ] at back
  cases back

theorem mem_keys_validate_iff {key : String} :
    key ∈ (validate K batch).keys ↔ ∃ d ∈ (validate K batch).drafts, K.draftKey d = some key := by
  rw [mem_keys_validate]
  refine exists_congr fun d => and_congr_right fun there => ?_
  rw [(draftKey_of_mem_drafts there).1, Option.some.injEq]

theorem isBlankText_of_mem_keys {key : String} (h : key ∈ (validate K batch).keys) :
    isBlankText key = false := by
  obtain ⟨d, there, rfl⟩ := mem_keys_validate.1 h
  exact (draftKey_of_mem_drafts there).2

theorem keys_validate_eq_ofList (batch : List (Option K.Draft)) :
    (validate K batch).keys = .ofList ((validate K batch).drafts.map K.targetKey) := by
  refine SortedSet.ext fun key => ?_
  rw [mem_keys_validate, SortedSet.mem_ofList, List.mem_map]

/-- Validating the drafts of a validated batch keeps all of them, and rejects nothing. -/
theorem validate_drafts (batch : List (Option K.Draft)) :
    validate K ((validate K batch).drafts.map some) =
      ⟨(validate K batch).drafts, (validate K batch).keys, []⟩ := by
  let v := validate K batch
  let again := validate K (v.drafts.map some)
  have accepted : (v.drafts.map some).filterMap K.accepted? = v.drafts := by
    rw [List.filterMap_map]
    calc v.drafts.filterMap (K.accepted? ∘ some)
        = v.drafts.filterMap some := List.filterMap_congr fun d => accepted?_of_mem_drafts
      _ = v.drafts := List.filterMap_some
  have drafts : again.drafts = v.drafts := by
    rw [drafts_validate_eq_difference, accepted]
    exact Diff.difference_eq_self (drafts_validate_apart batch)
  have keys : again.keys = v.keys := by
    rw [keys_validate_eq_ofList, drafts, keys_validate_eq_ofList batch]
  have rejected : again.rejected = [] := by
    rw [rejected_validate, List.filterMap_eq_nil_iff]
    intro entry listed
    obtain ⟨d, there, rfl⟩ := List.mem_map.1 listed
    exact Kind.rejection?_of_accepted (accepted?_of_mem_drafts there)
  calc again = ⟨again.drafts, again.keys, again.rejected⟩ := rfl
    _ = ⟨v.drafts, v.keys, []⟩ := by rw [drafts, keys, rejected]

end Parts

/-- **Validation parts a batch in two.** The rejections are one for each entry that is null, has a
    blank key or is refused, in the order of the batch; a null entry has no draft, and any other is
    there with its own. Of the other entries, the drafts at their first occurrence are kept, in
    order: no two of them are equal, and every accepted draft is equal to one of them, so drafts
    that differ are both kept, whether or not they share a key. The keys are those of the drafts,
    none is blank, and they are at most as many; drafts and rejections together are at most as many
    as the entries. Validating the drafts once more changes nothing and rejects nothing. -/
theorem validate_partitions [ComparableKind K] (batch : List (Option K.Draft)) :
    let v := validate K batch
    let accepted := batch.filterMap K.accepted?
    (v.rejected.map (·.draft?) = batch.filter K.unfit ∧
      accepted.map some = (batch.filter fun entry => !K.unfit entry) ∧
      v.rejected = batch.filterMap K.rejection?) ∧
    (v.drafts = firsts K.same accepted ∧
      (v.drafts.Pairwise fun c d => K.same c d = false ∧ K.same d c = false) ∧
      (∀ d ∈ accepted, ∃ d' ∈ v.drafts, K.same d d' = true) ∧
      ∀ c ∈ accepted, ∀ d ∈ accepted, K.same c d = false →
        ∃ c' ∈ v.drafts, ∃ d' ∈ v.drafts,
          K.same c c' = true ∧ K.same d d' = true ∧ K.same c' d' = false) ∧
    ((∀ key, key ∈ v.keys ↔ ∃ d ∈ v.drafts, K.draftKey d = some key) ∧
      ∀ key ∈ v.keys, isBlankText key = false) ∧
    (v.keys.size ≤ v.drafts.length ∧ v.drafts.length + v.rejected.length ≤ batch.length) ∧
    validate K (v.drafts.map some) = ⟨v.drafts, v.keys, []⟩ := by
  intro v accepted
  refine ⟨⟨?_, Kind.filterMap_accepted? batch, rejected_validate batch⟩,
    ⟨drafts_validate_eq_firsts batch, pairwise_drafts_validate batch, fun d => exists_same_draft,
      fun c hc d hd => exists_distinct_drafts hc hd⟩,
    ⟨fun key => mem_keys_validate_iff, fun key => isBlankText_of_mem_keys⟩, ⟨?_, ?_⟩,
    validate_drafts batch⟩
  · rw [rejected_validate, Kind.filterMap_rejection?]
  · calc v.keys.size
        ≤ (v.drafts.map K.targetKey).length := by
          rw [keys_validate_eq_ofList]
          exact SortedSet.size_ofList_le _
      _ = v.drafts.length := List.length_map ..
  · have fewer : v.drafts.length ≤ accepted.length := length_drafts_validate_le batch
    have parts : v.rejected.length + accepted.length = batch.length := by
      rw [rejected_validate]
      exact Kind.length_rejected_add_length_accepted batch
    omega

/-- A draft twice, a published one under the same key, and one entry for each reason to reject. -/
def mixedBatch : List (Option ProductDraft) :=
  let draft : ProductDraft := .of "p" .empty .empty
  [some draft, none, some (.of " " .empty .empty), some (draft.withPublish true),
    some ((draft.withVariant (.ofKey "a")).withVariant (.ofKey "a")), some draft]

theorem validate_partitions_mixed :
    let draft : ProductDraft := .of "p" .empty .empty
    let v := validate Kind.product mixedBatch
    v.drafts = [draft, draft.withPublish true] ∧
      v.rejected.map (·.draft?) = [none, some (.of " " .empty .empty),
        some ((draft.withVariant (.ofKey "a")).withVariant (.ofKey "a"))] ∧
      v.keys.size ≤ 2 ∧ validate Kind.product (v.drafts.map some) = ⟨v.drafts, v.keys, []⟩ := by
  intro draft v
  obtain ⟨⟨unfit, -, -⟩, ⟨kept, -⟩, -, ⟨fewer, -⟩, again⟩ :=
    @validate_partitions Kind.product _ mixedBatch
  have drafts : v.drafts = [draft, draft.withPublish true] := kept.trans rfl
  refine ⟨drafts, unfit.trans rfl, ?_, again⟩
  calc v.keys.size ≤ v.drafts.length := fewer
    _ = 2 := by rw [drafts]; rfl

end CatalogSync
