import CatalogSync.Proofs.Acceptance
import CatalogSync.Proofs.Issues
import CatalogSync.Proofs.Recognition

/- Keys that a draft of a product uses more than once. It is refused for these and for nothing else,
   and both the verdict and the message depend on how often each key occurs, but not on where
   (`refusal?_perm`). In a draft without repeated keys, no two entries have the same stored variant
   for a counterpart (`nodup_counterparts`), and the counterparts are all that the diff looks up of
   the stored variants (`variantListPlan_counterparts`). Main statement: `productRefusal_exact`. -/
namespace CatalogSync.Diff

open CatalogSync.Edit

variable {old : Product} {new new' : ProductDraft} {d : VariantDraft} {v : Variant}

/-! ### Refusals -/

theorem mem_repeatedVariantKeys_iff {k : String} :
    k ∈ new.repeatedVariantKeys ↔ 2 ≤ new.variantKeys.count k := by
  rw [mem_repeatedVariantKeys, List.duplicate_iff_two_le_count]

/-- A draft is accepted if and only if its variants have different keys. -/
theorem refusal?_eq_none_iff : Kind.product.refusal? new = none ↔ new.variantKeys.Nodup := by
  rw [Kind.refusal?_eq_none]
  constructor
  · exact nodup_variantKeys
  · intro once
    refine List.eq_nil_iff_forall_not_mem.2 fun k again => ?_
    exact List.nodup_iff_forall_not_duplicate.1 once k (mem_repeatedVariantKeys.1 again)

/-- A refusal names the repeated keys, in ascending order. -/
theorem refusal?_eq_some {message : String} (h : Kind.product.refusal? new = some message) :
    message = "ProductDraft with key: '" ++ new.key.getD "" ++
      "' has duplicated variant keys: [" ++
        String.intercalate ", " new.repeatedVariantKeys.toList ++ "]." := by
  unfold Kind.refusal? at h
  split at h
  · cases h
  · exact (Option.some.inj h).symm

/-- The order of the entries, and which of them is the master, does not matter. -/
theorem refusal?_perm (hkey : new'.key = new.key) (h : new'.allVariants.Perm new.allVariants) :
    Kind.product.refusal? new' = Kind.product.refusal? new := by
  have hkeys : new'.variantKeys.Perm new.variantKeys := h.filterMap _
  have hrepeated : new'.repeatedVariantKeys = new.repeatedVariantKeys := by
    refine SortedSet.ext fun k => ?_
    rw [mem_repeatedVariantKeys_iff, mem_repeatedVariantKeys_iff, hkeys.count_eq]
  unfold Kind.refusal?
  simp only [hrepeated, hkey]

/-! ### Counterparts -/

/-- The stored variant that the diff finds for an entry, by its key. -/
def counterpart? (old : Product) (d : VariantDraft) : Option Variant :=
  if isBlank d.key then none else d.key.bind (variantsByKey old).get?

/-- The stored variants that the diff finds, entry by entry. -/
def counterparts (old : Product) (new : ProductDraft) : List Variant :=
  (presentEntries new).filterMap (counterpart? old)

/-- What an entry calls for, given its counterpart. -/
def entryCalls (ctx : DiffContext) (d : VariantDraft) : Option Variant → List ProductAction
  | some v => variantActions ctx v d
  | none => if isBlank d.key then [] else ctx.filter.gate .variants [addVariantAction d]

theorem counterpart?_spec (h : counterpart? old d = some v) :
    v ∈ old.allVariants ∧ v.key = d.key ∧ isBlank d.key = false := by
  unfold counterpart? at h
  split at h
  · cases h
  · next hb =>
    obtain ⟨k, hk, hv⟩ := Option.bind_eq_some_iff.1 h
    obtain ⟨hm, hvk⟩ := variantsByKey_spec hv
    exact ⟨hm, hvk.trans hk.symm, Bool.eq_false_iff.2 hb⟩

/-- Where the stored variants have different keys, an entry has the one with its key for a
    counterpart. -/
theorem counterpart?_eq_some (h : (old.allVariants.filterMap (·.key)).Nodup) :
    counterpart? old d = some v ↔
      v ∈ old.allVariants ∧ v.key = d.key ∧ isBlank d.key = false := by
  refine ⟨counterpart?_spec, ?_⟩
  rintro ⟨hv, hk, hb⟩
  obtain ⟨k, hd⟩ := exists_key_of_not_blank hb
  rw [hd] at hk
  calc counterpart? old d
      = (variantsByKey old).get? k := by
        rw [counterpart?, if_neg (by simp [hb]), hd, Option.bind_some]
    _ = some v := get?_variantsByKey h hv hk

theorem variantKeys_eq_filterMap : new.variantKeys = (presentEntries new).filterMap (·.key) := by
  rw [presentEntries, List.filterMap_filterMap]
  rfl

/-- Entries with different keys have counterparts with different keys. -/
theorem nodup_counterparts (h : new.variantKeys.Nodup) :
    ((counterparts old new).map (·.key)).Nodup := by
  rw [variantKeys_eq_filterMap] at h
  refine List.pairwise_map.2 (List.pairwise_filterMap.2 ?_)
  refine (List.pairwise_filterMap.1 h).imp fun {c d} hcd v hv w hw hkeys => ?_
  obtain ⟨-, hvk, hb⟩ := counterpart?_spec hv
  obtain ⟨-, hwk, -⟩ := counterpart?_spec hw
  obtain ⟨k, hc⟩ := exists_key_of_not_blank hb
  have hd : d.key = some k := by rw [← hwk, ← hkeys, hvk, hc]
  exact hcd k hc k hd rfl

/-- Every stored variant is found once at most. -/
theorem counterparts_subperm (h : new.variantKeys.Nodup) :
    (counterparts old new).Subperm old.allVariants := by
  refine List.subperm_of_subset (nodup_counterparts h).of_map fun v hv => ?_
  obtain ⟨d, -, hd⟩ := List.mem_filterMap.1 hv
  exact (counterpart?_spec hd).1

theorem entryActions_eq (ctx : DiffContext) (old : Product) (d : VariantDraft) :
    entryActions ctx (variantsByKey old) (some d) = entryCalls ctx d (counterpart? old d) := by
  cases hb : isBlank d.key with
  | true => simp [entryActions, entryCalls, counterpart?, hb]
  | false =>
    simp only [entryActions, counterpart?, hb, Bool.false_eq_true, if_false]
    cases d.key.bind (variantsByKey old).get? with
    | none => simp [entryCalls, hb]
    | some v => rfl

/-- Between the removals and the promotion, the diff is what each entry calls for beside its
    counterpart. -/
theorem variantListPlan_counterparts {ctx : DiffContext} (h : masterKeyProblems old new = []) :
    (variantListPlan ctx old new).actions =
      ctx.filter.gate .variants (removeVariantActions old new) ++
        newOnes [] ((presentEntries new).flatMap fun d => entryCalls ctx d (counterpart? old d)) ++
        ctx.filter.gate .variants (promotion old new) := by
  have hentries : updates ctx old new =
      (presentEntries new).flatMap fun d => entryCalls ctx d (counterpart? old d) := by
    unfold updates presentEntries
    induction new.allVariants with
    | nil => rfl
    | cons e es ih =>
      cases e with
      | none => simpa [entryActions] using ih
      | some d => rw [List.flatMap_cons, ih, entryActions_eq]; rfl
  rw [variantListPlan_actions h, hentries]

/-- **Repeated variant keys are found exactly.** A draft is refused if and only if two of its
    variants have one key, be it blank; null entries and missing keys do not count. The message
    names each key that occurs at least twice, once and in ascending order. Any arrangement of the
    same entries under the same key of the draft, with any of them as the master, has the same
    verdict and message. Let the draft be accepted, and let the keys of the stored variants be
    distinct and neither master key be blank. Then no two entries have the same stored variant for a
    counterpart, which is the one with the key of the entry. The diff is the removals, what each
    entry calls for beside its counterpart, and the promotion. -/
theorem productRefusal_exact (new : ProductDraft) :
    (Kind.product.refusal? new = none ↔ new.variantKeys.Nodup) ∧
    (∀ message, Kind.product.refusal? new = some message → ∃ repeated : List String,
      message = "ProductDraft with key: '" ++ new.key.getD "" ++
        "' has duplicated variant keys: [" ++ String.intercalate ", " repeated ++ "]." ∧
      repeated.Pairwise (· < ·) ∧ ∀ k, k ∈ repeated ↔ 2 ≤ new.variantKeys.count k) ∧
    (∀ new' : ProductDraft, new'.key = new.key → new'.allVariants.Perm new.allVariants →
      Kind.product.refusal? new' = Kind.product.refusal? new) ∧
    (Kind.product.refusal? new = none → ∀ old : Product,
      isBlank old.masterVariant.key = false →
      isBlank (new.masterVariant.bind (·.key)) = false →
      (old.allVariants.filterMap (·.key)).Nodup →
      ((counterparts old new).map (·.key)).Nodup ∧
      (counterparts old new).Subperm old.allVariants ∧
      (∀ d v, counterpart? old d = some v ↔
        v ∈ old.allVariants ∧ v.key = d.key ∧ isBlank d.key = false) ∧
      ∀ ctx : DiffContext, (variantListPlan ctx old new).actions =
        ctx.filter.gate .variants (removeVariantActions old new) ++
          newOnes []
            ((presentEntries new).flatMap fun d => entryCalls ctx d (counterpart? old d)) ++
          ctx.filter.gate .variants (promotion old new)) := by
  refine ⟨refusal?_eq_none_iff, ?_, fun _ => refusal?_perm, ?_⟩
  · intro message hrefused
    exact ⟨_, refusal?_eq_some hrefused, new.repeatedVariantKeys.ascending,
      fun k => mem_repeatedVariantKeys_iff⟩
  · intro haccepted old hold hnew hstored
    have honce := refusal?_eq_none_iff.1 haccepted
    have hmasters := masterKeyProblems_eq_nil_iff.2 ⟨hold, hnew⟩
    exact ⟨nodup_counterparts honce, counterparts_subperm honce,
      fun d v => counterpart?_eq_some hstored, fun ctx => variantListPlan_counterparts hmasters⟩

/-- A draft with keys that occur once, twice and three times, a blank one among them. -/
def crowdedDraft : ProductDraft where
  toProductDetails := .of "p" .empty .empty
  publish := none
  masterVariant := some (.ofKey "b")
  variants := [some (.ofKey "a"), none, some (.ofKey " "), some .empty, some (.ofKey "c"),
    some (.ofKey "a"), some .empty, some (.ofKey " "), some (.ofKey "b"), some (.ofKey "a")]

/-- A draft of two variants, the second of which is the master as stored. -/
def turnedDraft : ProductDraft :=
  ((ProductDraft.of "p" .empty .empty).withMasterVariant (.ofKey "b")).withVariant (.ofKey "a")

/-- The product as it is stored. -/
def unturnedProduct : Product :=
  .ofDraft (.ofNat 7)
    (((ProductDraft.of "p" .empty .empty).withMasterVariant (.ofKey "a")).withVariant (.ofKey "b"))

theorem productRefusal_exact_crowded :
    let exchanged : ProductDraft :=
      { crowdedDraft with
        masterVariant := some (.ofKey "a")
        variants := some (.ofKey "b") :: crowdedDraft.variants.tail }
    Kind.product.refusal? exchanged =
        some "ProductDraft with key: 'p' has duplicated variant keys: [ , a, b]." ∧
      ((counterparts unturnedProduct turnedDraft).map (·.key)).Nodup ∧
      (counterparts unturnedProduct turnedDraft).map (·.id) = [2, 1] := by
  intro exchanged
  obtain ⟨-, -, moved, -⟩ := productRefusal_exact crowdedDraft
  obtain ⟨-, -, -, paired⟩ := productRefusal_exact turnedDraft
  obtain ⟨distinct, -⟩ := paired rfl unturnedProduct rfl rfl (by decide)
  exact ⟨moved exchanged rfl (.swap ..), distinct, rfl⟩

end CatalogSync.Diff
