import CatalogSync.Proofs.Matched
import CatalogSync.Proofs.ProductReplay

/- Variants of a product on the way to its draft. After the updates the product is stocked with what
   the draft wants (`stocked_updates`): each entry is reflected by a variant, and each variant but
   the old master reflects an entry. The change of the master keeps it so and puts the variant of
   the new master first (`Stocked.masterChange`), and then there is nothing left over
   (`Stocked.reflects`). A product whose variants are in step with the draft needs no actions on them
   (`InStep.variantListPlan_eq_nil`). -/
namespace CatalogSync.Diff

open CatalogSync.Edit

/-- The variants of a product are those that a draft wants, but for the master, which may be left
    over. -/
structure Stocked (p : Product) (new : ProductDraft) : Prop where
  ids : (p.allVariants.map (·.id)).Nodup
  keys : (p.allVariants.map (·.key)).Nodup
  left : ∀ w ∈ p.variants, ∃ d ∈ wanted new, Reflects w d
  right : ∀ d ∈ wanted new, ∃ w ∈ p.allVariants, Reflects w d

variable {ctx : DiffContext} {old p q r : Product} {new : ProductDraft} {v w x : Variant}
  {d m : VariantDraft} {rest : List Variant}

theorem wanted_eq (hm : new.masterVariant = some m) (hk : isBlank m.key = false) :
    wanted new = m :: keyedEntries new.variants := by
  rw [wanted, ProductDraft.allVariants, hm]
  show (m :: new.variants.filterMap id).filter (fun d => !isBlank d.key) = _
  rw [List.filter_cons_of_pos (by simp [hk])]
  rfl

theorem Stocked.congr (h : Stocked q new) (hm : p.masterVariant = q.masterVariant)
    (hv : p.variants = q.variants) : Stocked p new := by
  have hall : p.allVariants = q.allVariants := by
    unfold Product.allVariants
    rw [hm, hv]
  exact ⟨hall ▸ h.ids, hall ▸ h.keys, hv ▸ h.left, hall ▸ h.right⟩

theorem Stocked.eq_of_key (h : Stocked p new) (hv : v ∈ p.allVariants) (hw : w ∈ p.allVariants)
    (hk : v.key = w.key) : v = w :=
  List.inj_on_of_nodup_map h.keys hv hw hk

theorem Stocked.key_ne (h : Stocked p new) (hw : w ∈ p.variants) :
    w.key ≠ p.masterVariant.key := by
  intro he
  exact (List.nodup_cons.1 h.keys).1 (List.mem_map.2 ⟨w, hw, he⟩)

/-- The variant with the key of an entry is the one that reflects it. -/
theorem Stocked.of_key (h : Stocked p new) (hv : v ∈ p.allVariants) (hd : d ∈ wanted new)
    (hk : v.key = d.key) : Reflects v d := by
  obtain ⟨w, hw, hr⟩ := h.right d hd
  rw [h.eq_of_key hv hw (hk.trans hr.key.symm)]
  exact hr

/-- A stocked product whose master has the key of the wanted one is all that the draft wants. -/
theorem Stocked.reflects (h : Stocked p new) (hn : new.variantKeys.Nodup)
    (hm : new.masterVariant = some m) (hk : isBlank m.key = false)
    (he : p.masterVariant.key = m.key) :
    Reflects p.masterVariant m ∧ OneToOne Reflects p.variants (keyedEntries new.variants) := by
  have hwanted := wanted_eq hm hk
  have hkeys := nodup_wanted hn
  rw [hwanted, List.map_cons] at hkeys
  have hmem : m ∈ wanted new := hwanted ▸ List.mem_cons_self ..
  refine ⟨h.of_key (List.mem_cons_self ..) hmem he, ?_⟩
  refine oneToOne_of_keys (fun w d hr => hr.key) (List.nodup_cons.1 h.keys).2
    (List.nodup_cons.1 hkeys).2 ?_ ?_
  · intro w hw
    obtain ⟨d, hd, hr⟩ := h.left w hw
    rw [hwanted] at hd
    rcases List.mem_cons.1 hd with rfl | hd
    · exact absurd (hr.key.trans he.symm) (h.key_ne hw)
    · exact ⟨d, hd, hr⟩
  · intro d hd
    obtain ⟨w, hw, hr⟩ := h.right d (hwanted ▸ List.mem_cons_of_mem m hd)
    rcases List.mem_cons.1 hw with rfl | hw
    · refine absurd (List.mem_map.2 ⟨d, hd, ?_⟩) (List.nodup_cons.1 hkeys).1
      exact hr.key.symm.trans he
    · exact ⟨w, hw, hr⟩

/-! ### The change of the master -/

/-- The master changes places with another variant, and an entry wants it. -/
theorem Stocked.swap (h : Stocked q new) (hq : q.variants.Perm (x :: rest))
    (hm : r.masterVariant = x) (hv : r.variants.Perm (q.masterVariant :: rest))
    (hd : ∃ d ∈ wanted new, Reflects q.masterVariant d) : Stocked r new := by
  have hall : r.allVariants.Perm q.allVariants := by
    unfold Product.allVariants
    rw [hm]
    calc (x :: r.variants).Perm (x :: q.masterVariant :: rest) := hv.cons x
      List.Perm _ (q.masterVariant :: x :: rest) := .swap ..
      List.Perm _ (q.masterVariant :: q.variants) := hq.symm.cons _
  refine ⟨(hall.map _).nodup_iff.2 h.ids, (hall.map _).nodup_iff.2 h.keys, ?_, ?_⟩
  · intro w hw
    rcases List.mem_cons.1 (hv.mem_iff.1 hw) with rfl | hw
    · exact hd
    · exact h.left w (hq.mem_iff.2 (List.mem_cons_of_mem x hw))
  · intro d hd
    obtain ⟨w, hw, hr⟩ := h.right d hd
    exact ⟨w, hall.mem_iff.2 hw, hr⟩

/-- Another variant takes the place of the master, and no entry wants the old one. -/
theorem Stocked.replace (h : Stocked q new) (hq : q.variants.Perm (x :: rest))
    (hm : r.masterVariant = x) (hv : r.variants.Perm rest)
    (hd : ∀ d ∈ wanted new, d.key ≠ q.masterVariant.key) : Stocked r new := by
  have hall : r.allVariants.Perm q.variants := by
    unfold Product.allVariants
    rw [hm]
    calc (x :: r.variants).Perm (x :: rest) := hv.cons x
      List.Perm _ q.variants := hq.symm
  refine ⟨(hall.map _).nodup_iff.2 (List.nodup_cons.1 h.ids).2,
    (hall.map _).nodup_iff.2 (List.nodup_cons.1 h.keys).2, ?_, ?_⟩
  · intro w hw
    exact h.left w (hq.mem_iff.2 (List.mem_cons_of_mem x (hv.mem_iff.1 hw)))
  · intro d hdw
    obtain ⟨w, hw, hr⟩ := h.right d hdw
    rcases List.mem_cons.1 hw with rfl | hw
    · exact absurd hr.key.symm (hd d hdw)
    · exact ⟨w, hall.mem_iff.2 hw, hr⟩

/-- The wanted master can be promoted: it has a sku, by which it is found. -/
structure Promotable (old : Product) (new : ProductDraft) (m : VariantDraft) : Prop where
  sku : isBlank m.sku = false
  unique : ∀ d ∈ keyedEntries new.variants, d.sku ≠ m.sku
  left : Demoted old new ∨ old.masterVariant.sku ≠ m.sku

instance (old : Product) (new : ProductDraft) (m : VariantDraft) :
    Decidable (Promotable old new m) :=
  decidable_of_iff (_ ∧ _ ∧ _) ⟨fun ⟨h, h', h''⟩ => ⟨h, h', h''⟩,
    fun h => ⟨h.sku, h.unique, h.left⟩⟩

theorem demoted_iff (ho : isBlank old.masterVariant.key = false) :
    Demoted old new ↔ ∃ d ∈ keyedEntries new.variants, d.key = old.masterVariant.key := by
  constructor
  · intro h
    obtain ⟨e, he, d, rfl, hk⟩ := h
    exact ⟨d, mem_keyedEntries.2 ⟨he, hk ▸ ho⟩, hk⟩
  · intro h
    obtain ⟨d, hd, hk⟩ := h
    exact ⟨some d, (mem_keyedEntries.1 hd).1, d, rfl, hk⟩

/-- If the masters differ, one variant reflects the wanted master, and the others have other skus.
    -/
theorem Stocked.exists_promoted (h : Stocked q new) (hm : new.masterVariant = some m)
    (hk : isBlank m.key = false) (hne : q.masterVariant.key ≠ m.key)
    (hu : ∀ d ∈ keyedEntries new.variants, d.sku ≠ m.sku) :
    ∃ x rest, q.variants.Perm (x :: rest) ∧ Reflects x m ∧ ∀ v ∈ rest, v.sku ≠ m.sku := by
  have hwanted := wanted_eq hm hk
  obtain ⟨x, hx, hxm⟩ := h.right m (hwanted ▸ List.mem_cons_self ..)
  have hx : x ∈ q.variants := by
    rcases List.mem_cons.1 hx with rfl | hx
    · exact absurd hxm.key hne
    · exact hx
  obtain ⟨as, bs, hsplit⟩ := List.append_of_mem hx
  have hq : q.variants.Perm (x :: (as ++ bs)) := hsplit ▸ List.perm_middle
  refine ⟨x, as ++ bs, hq, hxm, ?_⟩
  intro v hv
  obtain ⟨d, hd, hr⟩ := h.left v (hq.mem_iff.2 (List.mem_cons_of_mem x hv))
  rw [hwanted] at hd
  rcases List.mem_cons.1 hd with rfl | hd
  · have hkeys := (hq.map (·.key)).nodup_iff.1 (List.nodup_cons.1 h.keys).2
    refine absurd (List.mem_map.2 ⟨v, hv, ?_⟩) (List.nodup_cons.1 hkeys).1
    exact hr.key.trans hxm.key.symm
  · rw [hr.sku]
    exact hu d hd

/-- The change of the master keeps a product stocked, and the master has the wanted key then. -/
theorem Stocked.masterChange (h : Stocked q new) (hm : new.masterVariant = some m)
    (hk : isBlank m.key = false) (ho : isBlank old.masterVariant.key = false)
    (hid : q.masterVariant.id = old.masterVariant.id)
    (hkey : q.masterVariant.key = old.masterVariant.key)
    (hsku : old.masterVariant.key ≠ m.key → ¬ Demoted old new →
      q.masterVariant.sku = old.masterVariant.sku)
    (hp : old.masterVariant.key ≠ m.key → Promotable old new m) :
    Stocked (replay product (masterChange old new m) q) new ∧
      (replay product (masterChange old new m) q).masterVariant.key = m.key := by
  by_cases hne : old.masterVariant.key = m.key
  · rw [CatalogSync.Diff.masterChange, if_neg fun hc => hc.1 hne]
    exact ⟨h, hkey.trans hne⟩
  have hpm := hp hne
  have hwanted := wanted_eq hm hk
  obtain ⟨sku, hs⟩ : ∃ sku, m.sku = some sku := exists_key_of_not_blank hpm.sku
  obtain ⟨x, rest, hq, hxm, hrest⟩ :=
    h.exists_promoted hm hk (fun he => hne (hkey.symm.trans he)) hpm.unique
  have hkept {d : VariantDraft} (hd : d ∈ keyedEntries new.variants)
      (hdk : d.key = old.masterVariant.key) : d ∈ wanted new ∧ Reflects q.masterVariant d := by
    have hdw : d ∈ wanted new := hwanted ▸ List.mem_cons_of_mem m hd
    exact ⟨hdw, h.of_key (List.mem_cons_self ..) hdw (hkey.trans hdk.symm)⟩
  -- the old master must not be taken for the wanted one
  have hmaster : q.masterVariant.sku ≠ m.sku := by
    by_cases hd : Demoted old new
    · obtain ⟨d, hd, hdk⟩ := (demoted_iff ho).1 hd
      rw [(hkept hd hdk).2.sku]
      exact hpm.unique d hd
    · rw [hsku hne hd]
      exact hpm.left.resolve_left hd
  obtain ⟨hpm', hpv⟩ := promote_spec hq (hxm.sku.trans hs) (hs ▸ hmaster) (hs ▸ hrest)
  have hrm : (product (.changeMasterVariant sku) q).masterVariant = x := hpm'
  have hrv : (product (.changeMasterVariant sku) q).variants.Perm (q.masterVariant :: rest) := hpv
  rw [CatalogSync.Diff.masterChange, if_pos ⟨hne, hpm.sku⟩, hs, Option.getD_some, replay_cons]
  by_cases hd : Demoted old new
  · rw [if_pos hd, replay_nil, hrm]
    obtain ⟨d, hd, hdk⟩ := (demoted_iff ho).1 hd
    exact ⟨h.swap hq hrm hrv ⟨d, hkept hd hdk⟩, hxm.key⟩
  · -- nothing wants the old master, so it goes
    rw [if_neg hd]
    obtain ⟨hgm, hgv⟩ := replay_removeVariant [old.masterVariant.id]
      (product (.changeMasterVariant sku) q)
    have hgone : (q.masterVariant :: rest).filter
        (fun v => !(([old.masterVariant.id] : List UInt32).contains v.id)) = rest := by
      rw [List.filter_cons_of_neg (by simp [hid])]
      apply List.filter_eq_self.2
      intro v hv
      have hne : v.id ≠ old.masterVariant.id := by
        intro he
        refine (List.nodup_cons.1 h.ids).1 (List.mem_map.2 ⟨v, ?_, he.trans hid.symm⟩)
        exact hq.mem_iff.2 (List.mem_cons_of_mem x hv)
      simp [hne]
    have hgm := hgm.trans hrm
    refine ⟨h.replace hq hgm ?_ ?_, (congrArg (fun v : Variant => v.key) hgm).trans hxm.key⟩
    · rw [← hgone]
      exact hgv ▸ hrv.filter _
    · intro d hdw he
      rw [hwanted] at hdw
      rcases List.mem_cons.1 hdw with rfl | hdw
      · exact hne (he.trans hkey).symm
      · exact hd ((demoted_iff ho).2 ⟨d, hdw, he.trans hkey⟩)

/-! ### Nothing left to do -/

/-- The variants of a product are in step with a draft: every entry with a key that is not blank has
    its variant, and no variant is left over. -/
structure InStep (p : Product) (new : ProductDraft) : Prop where
  kept : ∀ v ∈ p.variants, ¬ Dropped new v
  present : ∀ d ∈ wanted new, ∃ v ∈ p.allVariants, v.key = d.key
  reflects : ∀ v ∈ p.allVariants, ∀ d ∈ wanted new, v.key = d.key → Reflects v d
  master : ∀ m, new.masterVariant = some m → p.masterVariant.key = m.key

/-- While the master keys agree, nothing is to be done about the master. -/
theorem InStep.masterActions_eq_ok (h : InStep p new) (hk : masterKeyProblems p new = []) :
    masterActions p new = .ok [] := by
  obtain ⟨ho, m, hm, hmk⟩ := masterKeyProblems_eq_nil.1 hk
  rw [masterActions_eq ho hm hmk, if_pos (h.master m hm)]

/-- Variants that are in step with the draft need no actions, whatever passes the filter. -/
theorem InStep.variantListPlan_eq_nil (h : InStep p new)
    (hw : ∀ d ∈ wanted new, Unambiguous d) : (variantListPlan ctx p new).actions = [] := by
  by_cases hk : masterKeyProblems p new = []
  · have hremovals : removeVariantActions p new = [] := by
      rw [removeVariantActions_eq, List.map_eq_nil_iff]
      apply List.filter_eq_nil_iff.2
      intro v hv
      rw [decide_eq_true_iff]
      exact h.kept v hv
    have hupdates : updates ctx p new = [] := by
      apply List.eq_nil_iff_forall_not_mem.2
      intro a ha
      rcases mem_updates ha with ⟨d, hd, hu, -⟩ | ⟨d, hd, v, hv, hvk, ha⟩
      · -- an entry that has its variant is not unmatched
        obtain ⟨v, hv, hvk⟩ := h.present d hd
        exact hu.2 v hv hvk
      · rw [variantActions_eq_nil (h.reflects v hv d hd hvk) (hw d hd)] at ha
        cases ha
    have hpromotion : promotion p new = [] := by
      rw [promotion, h.masterActions_eq_ok hk]
    rw [variantListPlan_actions hk, hremovals, hupdates, hpromotion]
    simp [Filter.gate, newOnes]
  · rw [variantListPlan_of_problems hk]

end CatalogSync.Diff
