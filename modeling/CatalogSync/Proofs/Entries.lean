import CatalogSync.Proofs.Pairing
import CatalogSync.Proofs.Reconciliation

/- Stored variants and the entries of a draft, paired by key. All that the entries call for is an
   addition, or it is for the variant with the key of the entry (`mem_updates`); so of all of it,
   what concerns one variant is what its own entry calls for (`filter_updates`). -/
namespace CatalogSync.Diff

open CatalogSync.Edit

/-- The entries that are not null and have a key. -/
def keyedEntries (es : List (Option VariantDraft)) : List VariantDraft :=
  (es.filterMap id).filter fun d => !isBlank d.key

/-- The variants that a draft wants, the master first. -/
def wanted (new : ProductDraft) : List VariantDraft := keyedEntries new.allVariants

theorem mem_keyedEntries {es : List (Option VariantDraft)} {d : VariantDraft} :
    d ∈ keyedEntries es ↔ some d ∈ es ∧ isBlank d.key = false := by
  rw [keyedEntries, List.mem_filter, List.mem_filterMap, Bool.not_eq_true']
  exact and_congr_left fun _ => ⟨fun ⟨e, he, h⟩ => h ▸ he, fun h => ⟨some d, h, rfl⟩⟩

/-- The entries that are not null and pass a test have keys that the entries have. -/
theorem filterMap_key_sublist {es : List (Option VariantDraft)} (p : VariantDraft → Bool) :
    (((es.filterMap id).filter p).filterMap (·.key)).Sublist
      (es.filterMap fun e => e.bind (·.key)) := by
  have hall : es.filterMap (fun e => e.bind (·.key)) = (es.filterMap id).filterMap (·.key) := by
    rw [List.filterMap_filterMap]
    rfl
  rw [hall]
  exact List.filter_sublist.filterMap _

/-- Variants and entries are told apart by their ids and keys. -/
structure Keyed (old : Product) (new : ProductDraft) : Prop where
  ids : (old.allVariants.map (·.id)).Nodup
  stored : (old.allVariants.filterMap (·.key)).Nodup
  wanted : new.variantKeys.Nodup

instance (old : Product) (new : ProductDraft) : Decidable (Keyed old new) :=
  decidable_of_iff (_ ∧ _ ∧ _) ⟨fun ⟨h, h', h''⟩ => ⟨h, h', h''⟩,
    fun h => ⟨h.ids, h.stored, h.wanted⟩⟩

variable {ctx : DiffContext} {old : Product} {new : ProductDraft} {v w : Variant}
  {d d' : VariantDraft} {a : ProductAction}

theorem exists_key_of_not_blank {key : Option String} (h : isBlank key = false) :
    ∃ k, key = some k := by
  cases key with
  | none => cases h
  | some k => exact ⟨k, rfl⟩

/-- The keys of a draft tell the variants apart that it wants. -/
theorem nodup_wanted (h : new.variantKeys.Nodup) : ((wanted new).map (·.key)).Nodup := by
  refine nodup_map_of_filterMap ?_ (h.sublist (filterMap_key_sublist _))
  intro d hd
  exact Option.isSome_iff_exists.2 (exists_key_of_not_blank (mem_keyedEntries.1 hd).2)

theorem entry_eq (h : new.variantKeys.Nodup) (hd : d ∈ wanted new) (hd' : d' ∈ wanted new)
    (hk : d.key = d'.key) : d = d' :=
  List.inj_on_of_nodup_map (nodup_wanted h) hd hd' hk

theorem Keyed.eq_of_id (h : Keyed old new) (hv : v ∈ old.allVariants) (hw : w ∈ old.allVariants)
    (he : v.id = w.id) : v = w :=
  List.inj_on_of_nodup_map h.ids hv hw he

/-- Where the stored variants have different keys, a key leads to the variant that has it. -/
theorem get?_variantsByKey (h : (old.allVariants.filterMap (·.key)).Nodup)
    (hv : v ∈ old.allVariants) {k : String} (hk : v.key = some k) :
    (variantsByKey old).get? k = some v := (get?_indexBy_eq_some h).2 ⟨hv, hk⟩

/-- The stored variant with the key of an entry is the one that the entry is paired with. -/
theorem Keyed.get? (h : Keyed old new) (hv : v ∈ old.allVariants) (hb : isBlank d.key = false)
    (hk : v.key = d.key) : d.key.bind (variantsByKey old).get? = some v := by
  obtain ⟨k, hd⟩ := exists_key_of_not_blank hb
  rw [hd, Option.bind_some]
  rw [hd] at hk
  exact get?_variantsByKey h.stored hv hk

/-- The entries call for additions, and for changes of the variants with their keys. -/
theorem mem_updates (h : a ∈ updates ctx old new) :
    (∃ d ∈ wanted new, Unmatched old d ∧ a = .addVariant d) ∨
      ∃ d ∈ wanted new, ∃ v ∈ old.allVariants, v.key = d.key ∧ a ∈ variantActions ctx v d := by
  obtain ⟨e, he, h⟩ := List.mem_flatMap.1 h
  obtain ⟨d, rfl, hb, ⟨v, hv, hk, ha⟩ | ⟨hu, rfl⟩⟩ := entryActions_cases h
  · exact Or.inr ⟨d, mem_keyedEntries.2 ⟨he, hb⟩, v, hv, hk, ha⟩
  · exact Or.inl ⟨d, mem_keyedEntries.2 ⟨he, hb⟩, hu, rfl⟩

theorem entryActions_of_matched (h : Keyed old new) (hv : v ∈ old.allVariants)
    (hb : isBlank d.key = false) (hk : v.key = d.key) :
    entryActions ctx (variantsByKey old) (some d) = variantActions ctx v d := by
  simp only [entryActions, hb, Bool.false_eq_true, if_false, h.get? hv hb hk]

theorem mem_updates_of_matched (h : Keyed old new) (hv : v ∈ old.allVariants) (hd : d ∈ wanted new)
    (hk : v.key = d.key) (ha : a ∈ variantActions ctx v d) : a ∈ updates ctx old new := by
  obtain ⟨hmem, hb⟩ := mem_keyedEntries.1 hd
  refine List.mem_flatMap.2 ⟨some d, hmem, ?_⟩
  rw [entryActions_of_matched h hv hb hk]
  exact ha

/-- What the collected actions hold for one variant is what its own entry calls for. -/
theorem filter_updates (h : Keyed old new) (hv : v ∈ old.allVariants) (hd : d ∈ wanted new)
    (hk : v.key = d.key) {p : ProductAction → Bool}
    (hwide : ∀ a, isProductWide a = true → p a = false) (hadd : ∀ c, p (.addVariant c) = false)
    (hother : ∀ w ∈ old.allVariants, w ≠ v → ∀ d', ∀ a ∈ variantActions ctx w d', p a = false) :
    (newOnes [] (updates ctx old new)).filter p = (variantActions ctx v d).filter p := by
  obtain ⟨hmem, hb⟩ := mem_keyedEntries.1 hd
  obtain ⟨k, hdk⟩ := exists_key_of_not_blank hb
  obtain ⟨before, after, hsplit⟩ := List.append_of_mem hmem
  have hkeys := h.wanted
  rw [ProductDraft.variantKeys, hsplit, List.filterMap_append,
    List.filterMap_cons_some (f := fun e : Option VariantDraft => e.bind (·.key)) (a := some d) hdk,
    List.nodup_middle, List.nodup_cons, List.mem_append] at hkeys
  -- the entries before and behind have other keys, so they are not for this variant
  have hnone : ∀ es : List (Option VariantDraft), k ∉ es.filterMap (fun e => e.bind (·.key)) →
      (es.flatMap (entryActions ctx (variantsByKey old))).filter p = [] := by
    intro es hes
    apply List.filter_eq_nil_iff.2
    intro a ha
    obtain ⟨e, he, ha⟩ := List.mem_flatMap.1 ha
    obtain ⟨d', rfl, -, ⟨w, hw, hwk, ha⟩ | ⟨-, rfl⟩⟩ := entryActions_cases ha
    · have hne : w ≠ v := by
        intro hwv
        refine hes (List.mem_filterMap.2 ⟨some d', he, ?_⟩)
        show d'.key = some k
        rw [← hwk, hwv, hk, hdk]
      simp [hother w hw hne d' a ha]
    · simp [hadd d']
  rw [filter_newOnes hwide, updates, hsplit, List.flatMap_append, List.flatMap_cons,
    List.filter_append, List.filter_append, hnone before fun hm => hkeys.1 (Or.inl hm),
    hnone after fun hm => hkeys.1 (Or.inr hm), entryActions_of_matched h hv hb hk,
    List.nil_append, List.append_nil]

end CatalogSync.Diff
