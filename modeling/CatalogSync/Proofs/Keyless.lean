import CatalogSync.Proofs.Recognition
import CatalogSync.Sync.Kind

/- Variants without a key. A draft pairs its variants with the stored ones by key, so against the
   product that was stored for it no variant with a key is removed, none is added and the master
   stays; but those stored without a key are removed, one by one and in their order
   (`variantListPlan_stored`). A blank key is a key here: its variant stays. -/
namespace CatalogSync.Diff

variable {ctx : DiffContext} {rid : ResourceId} {new : ProductDraft} {v : Variant}
  {d : VariantDraft}

/-! ### What is stored for the entries -/

theorem content_numbered (n : UInt32) (ds : List VariantDraft) :
    (Product.numbered n ds).map (·.toVariantDraft) = ds := by
  induction ds generalizing n with
  | nil => rfl
  | cons d ds ih => rw [Product.numbered, List.map_cons, ih]; rfl

theorem content_variants_ofDraft (rid : ResourceId) (new : ProductDraft) :
    (Product.ofDraft rid new).variants.map (·.toVariantDraft) = new.variants.filterMap id :=
  content_numbered 2 _

/-- The stored master has the key that the draft gives it, or none if there is no master. -/
theorem key_master_ofDraft (rid : ResourceId) (new : ProductDraft) :
    (Product.ofDraft rid new).masterVariant.key = new.masterVariant.bind (·.key) := by
  rw [Product.ofDraft]
  cases new.masterVariant <;> rfl

/-- Every entry is stored. -/
theorem exists_stored (rid : ResourceId) (hd : d ∈ presentEntries new) :
    ∃ v ∈ (Product.ofDraft rid new).allVariants, v.toVariantDraft = d := by
  rcases List.mem_cons.1 (mem_presentEntries.1 hd) with hm | hd
  · refine ⟨_, List.mem_cons_self .., ?_⟩
    rw [Product.ofDraft, ← hm]
    rfl
  · have hd : d ∈ (Product.ofDraft rid new).variants.map (·.toVariantDraft) := by
      rw [content_variants_ofDraft]
      simpa using hd
    obtain ⟨v, hv, he⟩ := List.mem_map.1 hd
    exact ⟨v, List.mem_cons_of_mem _ hv, he⟩

/-- A stored variant is dropped by its own draft if and only if it has no key. -/
theorem dropped_ofDraft_iff (hv : v ∈ (Product.ofDraft rid new).variants) :
    Dropped new v ↔ v.key = none := by
  refine ⟨fun hdrop => ?_, Or.inl⟩
  have hd : v.toVariantDraft ∈ new.variants.filterMap id := by
    rw [← content_variants_ofDraft rid]
    exact List.mem_map.2 ⟨v, hv, rfl⟩
  have he : some v.toVariantDraft ∈ new.allVariants :=
    List.mem_cons_of_mem _ (by simpa using hd)
  exact hdrop.resolve_right fun hall => hall _ he _ rfl rfl

/-- No entry is unmatched by what was stored for it. -/
theorem not_unmatched_ofDraft (hd : d ∈ wanted new) :
    ¬ Unmatched (Product.ofDraft rid new) d := by
  intro hu
  obtain ⟨v, hv, he⟩ := exists_stored rid (present_of_wanted hd)
  exact hu.2 v hv (congrArg (fun d : VariantDraft => d.key) he)

/-! ### The plan -/

/-- The master keys of a draft and of what was stored for it are blank together. -/
theorem masterKeyProblems_ofDraft : masterKeyProblems (Product.ofDraft rid new) new = [] ↔
    isBlank (new.masterVariant.bind (·.key)) = false := by
  rw [masterKeyProblems_eq_nil, key_master_ofDraft]
  cases new.masterVariant with
  | none => simp
  | some m => simp

theorem promotion_ofDraft (h : masterKeyProblems (Product.ofDraft rid new) new = []) :
    promotion (Product.ofDraft rid new) new = [] := by
  obtain ⟨ho, m, hm, hk⟩ := masterKeyProblems_eq_nil.1 h
  have hkey : (Product.ofDraft rid new).masterVariant.key = m.key := by
    rw [key_master_ofDraft, hm]
    rfl
  rw [promotion_eq ho hm hk, if_neg fun hp => hp.1 hkey]

theorem filterMap_added_updates_ofDraft :
    (updates ctx (Product.ofDraft rid new) new).filterMap added? = [] := by
  apply List.filterMap_eq_nil_iff.2
  intro a ha
  rcases mem_updates ha with ⟨d, hd, hu, -⟩ | ⟨d, -, v, -, -, ha⟩
  · exact absurd hu (not_unmatched_ofDraft hd)
  · exact added?_eq_none (variantActions_group_ne ha)

/-- The variants of a stored product that have no key. -/
def keylessVariants (p : Product) : List Variant := p.variants.filter (·.key == none)

theorem removeVariantActions_ofDraft : removeVariantActions (Product.ofDraft rid new) new =
    (keylessVariants (Product.ofDraft rid new)).map fun v => .removeVariant v.id := by
  rw [removeVariantActions_eq, keylessVariants]
  congr 1
  apply List.filter_congr
  intro v hv
  rw [Bool.eq_iff_iff, decide_eq_true_iff, beq_iff_eq, dropped_ofDraft_iff hv]

/-- **What a draft does to the variants stored for it.** Whatever passes the filter and whichever
    attributes are the same for all variants, nothing is added and no master is promoted. Unless
    removals are held back or the master key is blank, all variants without a key are removed
    before anything else, and no other variant is. -/
theorem variantListPlan_stored (ctx : DiffContext) (rid : ResourceId) (new : ProductDraft) :
    ∃ changes,
      (variantListPlan ctx (Product.ofDraft rid new) new).actions =
        (if ctx.filter.passes .variants = true ∧
            isBlank (new.masterVariant.bind (·.key)) = false then
          (keylessVariants (Product.ofDraft rid new)).map fun v => .removeVariant v.id
        else []) ++ changes ∧
      ∀ a ∈ changes, removed? a = none ∧ added? a = none ∧ ∀ sku, a ≠ .changeMasterVariant sku := by
  by_cases hk : masterKeyProblems (Product.ofDraft rid new) new = []
  · refine ⟨newOnes [] (updates ctx (Product.ofDraft rid new) new), ?_, ?_⟩
    · have hblank := masterKeyProblems_ofDraft.1 hk
      rw [variantListPlan_actions hk, promotion_ofDraft hk, removeVariantActions_ofDraft]
      cases hf : ctx.filter.passes .variants <;> simp [Filter.gate, hf, hblank]
    · intro a ha
      have ha := mem_of_mem_newOnes ha
      obtain ⟨hremoved, hpromoted, -⟩ := named_updates ha
      exact ⟨hremoved, List.filterMap_eq_nil_iff.1 filterMap_added_updates_ofDraft a ha, hpromoted⟩
  · refine ⟨[], ?_, fun a ha => absurd ha List.not_mem_nil⟩
    rw [variantListPlan_of_problems hk, if_neg fun h => hk (masterKeyProblems_ofDraft.2 h.2)]
    rfl

/-- A draft whose second variant has no key, and whose third has a blank one. -/
def halfKeyedDraft : ProductDraft where
  toProductDetails := .of "p" .empty .empty
  publish := none
  masterVariant := some (.ofKey "a")
  variants := [none, some .empty, some (.ofKey " ")]

/-- The draft is accepted, and what was stored for it loses the variant without a key. -/
theorem halfKeyedDraft_drops :
    isBlank (Kind.product.draftKey halfKeyedDraft) = false ∧
      Kind.product.refusal? halfKeyedDraft = none ∧
      (variantListPlan .unrestricted (Product.ofDraft (.ofNat 7) halfKeyedDraft)
        halfKeyedDraft).actions.filterMap removed? = [2] := by
  decide

end CatalogSync.Diff
