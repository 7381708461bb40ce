import CatalogSync.Proofs.Addressing
import CatalogSync.Proofs.Collection
import Mathlib.Data.List.Nodup

/- Reconciliation of the variant list. Old and draft variants are paired by key, and the plan is
   pinned down by what it removes, adds and promotes: removals stand first, the change of the
   master stands last, and between them every entry of the draft is updated or added. Main
   statement: `variantListPlan_reconciles`. -/
namespace CatalogSync.Diff

open CatalogSync.Edit (target?)

/-! ### What the plan is measured against -/

/-- A stored variant is dropped by a draft that has no variant with its key. -/
def Dropped (new : ProductDraft) (v : Variant) : Prop :=
  v.key = none ∨ ∀ e ∈ new.allVariants, ∀ d, e = some d → d.key ≠ v.key

/-- An entry of a draft is unmatched if it has a key, but no stored variant has that key. -/
def Unmatched (old : Product) (d : VariantDraft) : Prop :=
  isBlank d.key = false ∧ ∀ v ∈ old.allVariants, v.key ≠ d.key

/-- The old master stays on as another variant of the draft. -/
def Demoted (old : Product) (new : ProductDraft) : Prop :=
  ∃ e ∈ new.variants, ∃ d, e = some d ∧ d.key = old.masterVariant.key

instance (new : ProductDraft) (v : Variant) : Decidable (Dropped new v) :=
  decidable_of_iff (v.key = none ∨ new.allVariants.all (·.all (·.key != v.key)) = true) <| by
    simp only [Dropped, List.all_eq_true, Option.all_eq_true, bne_iff_ne, ne_eq]

instance (old : Product) (d : VariantDraft) : Decidable (Unmatched old d) :=
  inferInstanceAs (Decidable (_ ∧ _))

instance (old : Product) (new : ProductDraft) : Decidable (Demoted old new) :=
  decidable_of_iff (new.variants.any (·.any (·.key == old.masterVariant.key)) = true) <| by
    simp only [Demoted, List.any_eq_true, Option.any_eq_true, beq_iff_eq]

/-- The variant that an action removes. -/
def removed? : ProductAction → Option UInt32
  | .removeVariant id => some id
  | _ => none

/-- The content that an action adds as a variant. -/
def added? : ProductAction → Option VariantDraft
  | .addVariant content => some content
  | _ => none

/-- The variant that an action names by id, to change or to remove it. -/
def named? (a : ProductAction) : Option UInt32 := (removed? a).or (target? a)

/-! ### The parts of the plan -/

variable {ctx : DiffContext} {old : Product} {new : ProductDraft}

theorem mem_variantKeys {k : String} :
    k ∈ new.variantKeys ↔ ∃ e ∈ new.allVariants, ∃ d, e = some d ∧ d.key = some k := by
  simp only [ProductDraft.variantKeys, List.mem_filterMap, Option.bind_eq_some_iff]

theorem not_dropped_iff {v : Variant} :
    ¬ Dropped new v ↔ ∃ k ∈ new.variantKeys, v.key = some k := by
  unfold Dropped
  constructor
  · intro h
    obtain ⟨hn, he⟩ := not_or.1 h
    push Not at he
    obtain ⟨e, hm, d, hd, hk⟩ := he
    obtain ⟨k, hv⟩ := Option.ne_none_iff_exists'.1 hn
    exact ⟨k, mem_variantKeys.2 ⟨e, hm, d, hd, by rw [hk, hv]⟩, hv⟩
  · intro hkey h
    obtain ⟨k, hk, hv⟩ := hkey
    rcases h with h | h
    · rw [hv] at h
      cases h
    · obtain ⟨e, he, d, hd, hdk⟩ := mem_variantKeys.1 hk
      exact h e he d hd (by rw [hdk, hv])

theorem removeVariantActions_eq : removeVariantActions old new =
    (old.variants.filter (Dropped new ·)).map fun v => .removeVariant v.id := by
  unfold removeVariantActions
  have hkept (v : Variant) :
      (!v.key.any new.variantKeys.contains) = decide (Dropped new v) := by
    rw [Bool.eq_iff_iff, Bool.not_eq_true', Bool.eq_false_iff, decide_eq_true_iff, not_iff_comm,
      not_dropped_iff]
    cases hv : v.key <;> simp
  simp only [hkept]

theorem promotion_eq {m : VariantDraft} (ho : isBlank old.masterVariant.key = false)
    (hm : new.masterVariant = some m) (hk : isBlank m.key = false) :
    promotion old new =
      if old.masterVariant.key ≠ m.key ∧ isBlank m.sku = false then
        .changeMasterVariant (m.sku.getD "") ::
          if Demoted old new then [] else [.removeVariant old.masterVariant.id]
      else [] := by
  have hd : (new.variants.any (·.any (·.key == old.masterVariant.key)) = true) =
      Demoted old new := by
    simp only [Demoted, List.any_eq_true, Option.any_eq_true, beq_iff_eq]
  unfold promotion
  rw [masterActions_eq ho hm hk]
  by_cases he : old.masterVariant.key = m.key
  · simp [he]
  · cases isBlank m.sku
    · simp only [he, hd, ne_eq, not_false_eq_true, true_and, if_true, if_false, Bool.false_eq_true]
    · simp [he]

/-- The stored variant that an entry is paired with has the key of the entry. -/
theorem variantsByKey_spec {k : String} {v : Variant} (h : (variantsByKey old).get? k = some v) :
    v ∈ old.allVariants ∧ v.key = some k := by
  rw [variantsByKey, SortedMap.get?_indexBy] at h
  exact ⟨List.mem_reverse.1 (List.mem_of_find?_eq_some h), by simpa using List.find?_some h⟩

theorem variantsByKey_eq_none {k : String} :
    (variantsByKey old).get? k = none ↔ ∀ v ∈ old.allVariants, v.key ≠ some k := by
  rw [variantsByKey, SortedMap.get?_indexBy, List.find?_eq_none]
  simp

/-! ### Entries of the draft -/

/-- Only actions of the group of variants remove, add or promote one. -/
theorem removed?_eq_none {a : ProductAction} (h : a.group ≠ .variants) : removed? a = none := by
  cases a <;> first | rfl | exact absurd rfl h

theorem added?_eq_none {a : ProductAction} (h : a.group ≠ .variants) : added? a = none := by
  cases a <;> first | rfl | exact absurd rfl h

theorem variantActions_group_ne {v : Variant} {d : VariantDraft} {a : ProductAction}
    (h : a ∈ variantActions ctx v d) : a.group ≠ .variants := by
  intro hg
  have hm := group_variantActions h
  rw [hg] at hm
  exact absurd hm (by decide)

/-- An entry with a key that is stored is updated, and any other entry with a key is added. -/
theorem entryActions_cases {e : Option VariantDraft} {a : ProductAction}
    (h : a ∈ entryActions ctx (variantsByKey old) e) :
    ∃ d, e = some d ∧ isBlank d.key = false ∧
      ((∃ v ∈ old.allVariants, v.key = d.key ∧ a ∈ variantActions ctx v d) ∨
        Unmatched old d ∧ a = .addVariant d) := by
  cases e with
  | none => exact absurd h List.not_mem_nil
  | some d =>
    simp only [entryActions] at h
    split at h
    · exact absurd h List.not_mem_nil
    · next hb =>
      have hb : isBlank d.key = false := Bool.eq_false_iff.2 hb
      refine ⟨d, rfl, hb, ?_⟩
      cases hg : d.key.bind (variantsByKey old).get? with
      | some v =>
        rw [hg] at h
        obtain ⟨k, hk, hg⟩ := Option.bind_eq_some_iff.1 hg
        obtain ⟨hv, hvk⟩ := variantsByKey_spec hg
        exact Or.inl ⟨v, hv, hvk.trans hk.symm, h⟩
      | none =>
        rw [hg] at h
        refine Or.inr ⟨⟨hb, ?_⟩, List.mem_singleton.1 (mem_gate.1 h).2⟩
        cases hk : d.key with
        | none => simp [hk] at hb
        | some k =>
          rw [hk] at hg
          exact variantsByKey_eq_none.1 hg

theorem filterMap_added_entryActions (hf : ctx.filter.passes .variants = true)
    (e : Option VariantDraft) :
    (entryActions ctx (variantsByKey old) e).filterMap added? =
      e.toList.filter (Unmatched old ·) := by
  cases e with
  | none => rfl
  | some d =>
    have hd : (some d).toList.filter (Unmatched old ·) = if Unmatched old d then [d] else [] := by
      by_cases h : Unmatched old d <;> simp [h]
    rw [hd]
    simp only [entryActions]
    split
    · next hb => rw [if_neg fun h => by simp [h.1] at hb]; rfl
    · next hb =>
      have hb : isBlank d.key = false := Bool.eq_false_iff.2 hb
      cases hk : d.key with
      | none => simp [hk] at hb
      | some k =>
        simp only [Option.bind_some]
        cases hg : (variantsByKey old).get? k with
        | some v =>
          obtain ⟨hv, hvk⟩ := variantsByKey_spec hg
          rw [if_neg fun h => h.2 v hv (by rw [hvk, hk])]
          apply List.filterMap_eq_nil_iff.2
          intro a ha
          exact added?_eq_none (variantActions_group_ne ha)
        | none =>
          rw [if_pos ⟨hb, by rw [hk]; exact variantsByKey_eq_none.1 hg⟩]
          simp [Filter.gate, hf, addVariantAction, added?]

theorem filterMap_added_updates (hf : ctx.filter.passes .variants = true) :
    (updates ctx old new).filterMap added? =
      (new.allVariants.filterMap id).filter (Unmatched old ·) := by
  unfold updates
  induction new.allVariants with
  | nil => rfl
  | cons e es ih =>
    rw [List.flatMap_cons, List.filterMap_append, ih, filterMap_added_entryActions hf]
    cases e with
    | none => rfl
    | some d =>
      rw [← List.filter_append]
      rfl

/-- What the entries call for names kept variants only, and it removes and promotes none. -/
theorem named_updates {a : ProductAction} (h : a ∈ updates ctx old new) :
    removed? a = none ∧ (∀ sku, a ≠ .changeMasterVariant sku) ∧
      ∀ id, named? a = some id → ∃ v ∈ old.allVariants, v.id = id ∧ ¬ Dropped new v := by
  obtain ⟨e, he, h⟩ := List.mem_flatMap.1 h
  obtain ⟨d, rfl, hb, ⟨v, hv, hvk, ha⟩ | ⟨_, rfl⟩⟩ := entryActions_cases h
  · have hg := variantActions_group_ne ha
    refine ⟨removed?_eq_none hg, fun sku hs => hg (by rw [hs]; rfl), ?_⟩
    intro id hid
    rw [named?, removed?_eq_none hg, Option.none_or] at hid
    cases hk : d.key with
    | none => simp [hk] at hb
    | some k =>
      exact ⟨v, hv, (target_variantActions ha hid).symm,
        not_dropped_iff.2 ⟨k, mem_variantKeys.2 ⟨_, he, d, rfl, hk⟩, hvk.trans hk⟩⟩
  · refine ⟨rfl, fun _ => ProductAction.noConfusion, ?_⟩
    intro id hid
    cases hid

/-- The ids of the dropped variants, and at the end that of the old master if it is replaced for
    good. -/
def removedIds (old : Product) (new : ProductDraft) (m : VariantDraft) : List UInt32 :=
  (old.variants.filter (Dropped new ·)).map (·.id) ++
    if (old.masterVariant.key ≠ m.key ∧ isBlank m.sku = false) ∧ ¬ Demoted old new then
      [old.masterVariant.id]
    else []

theorem nodup_removedIds (h : (old.allVariants.map (·.id)).Nodup) (m : VariantDraft) :
    (removedIds old new m).Nodup := by
  obtain ⟨hm, hv⟩ := List.nodup_cons.1 h
  have hs : ((old.variants.filter (Dropped new ·)).map (·.id)).Sublist (old.variants.map (·.id)) :=
    List.filter_sublist.map _
  unfold removedIds
  split
  · apply List.nodup_append.2
    refine ⟨hv.sublist hs, List.nodup_singleton _, ?_⟩
    intro a ha b hb hab
    rw [hab, List.mem_singleton.1 hb] at ha
    exact hm (hs.subset ha)
  · rw [List.append_nil]
    exact hv.sublist hs

/-! ### The whole plan -/

/-- The change of the master that the plan ends with. -/
def masterChange (old : Product) (new : ProductDraft) (m : VariantDraft) : List ProductAction :=
  if old.masterVariant.key ≠ m.key ∧ isBlank m.sku = false then
    .changeMasterVariant (m.sku.getD "") ::
      if Demoted old new then [] else [.removeVariant old.masterVariant.id]
  else []

theorem variantListPlan_parts {m : VariantDraft} (hf : ctx.filter.passes .variants = true)
    (hm : new.masterVariant = some m) (ho : isBlank old.masterVariant.key = false)
    (hk : isBlank m.key = false) :
    (variantListPlan ctx old new).actions =
      (old.variants.filter (Dropped new ·)).map (fun v => .removeVariant v.id) ++
        newOnes [] (updates ctx old new) ++ masterChange old new m := by
  rw [variantListPlan_actions (masterKeyProblems_eq_nil.2 ⟨ho, m, hm, hk⟩),
    removeVariantActions_eq, promotion_eq ho hm hk]
  simp only [Filter.gate, hf, if_true]
  rfl

theorem filterMap_removed_parts (ctx : DiffContext) (m : VariantDraft) :
    ((old.variants.filter (Dropped new ·)).map (fun v => ProductAction.removeVariant v.id) ++
      newOnes [] (updates ctx old new) ++ masterChange old new m).filterMap removed? =
    removedIds old new m := by
  have hmid : (newOnes [] (updates ctx old new)).filterMap removed? = [] := by
    apply List.filterMap_eq_nil_iff.2
    intro a ha
    exact (named_updates (mem_of_mem_newOnes ha)).1
  rw [List.filterMap_append, List.filterMap_append, hmid, List.append_nil, List.filterMap_map,
    removedIds]
  have hdrop : (old.variants.filter (Dropped new ·)).filterMap
      (removed? ∘ fun v => ProductAction.removeVariant v.id) =
      (old.variants.filter (Dropped new ·)).map (·.id) :=
    congrFun (List.filterMap_eq_map (f := fun v : Variant => v.id)) _
  rw [hdrop]
  congr 1
  unfold masterChange
  by_cases hp : old.masterVariant.key ≠ m.key ∧ isBlank m.sku = false
  · by_cases hd : Demoted old new
    · rw [if_pos hp, if_pos hd, if_neg fun h => h.2 hd]
      rfl
    · rw [if_pos hp, if_neg hd, if_pos ⟨hp, hd⟩]
      rfl
  · rw [if_neg hp, if_neg fun h => hp h.1]
    rfl

/-- A removal of the old master is the last action, so it cannot come before another one. -/
theorem removal_last {m : VariantDraft} {acts before after : List ProductAction}
    {a : ProductAction} (hacts : (acts ++ masterChange old new m) = before ++ a :: after)
    (hp : (old.masterVariant.key ≠ m.key ∧ isBlank m.sku = false) ∧ ¬ Demoted old new) :
    .removeVariant old.masterVariant.id ∈ a :: after := by
  apply List.mem_of_getLast?
  have hl := congrArg List.getLast? hacts
  rw [masterChange, if_pos hp.1, if_neg hp.2] at hl
  simp only [List.getLast?_append] at hl
  cases hr : (a :: after).getLast? with
  | none => simp at hr
  | some b =>
    rw [hr] at hl
    simpa using hl.symm

theorem mem_old_of_mem_removedIds {m : VariantDraft} {i : UInt32} (h : i ∈ removedIds old new m) :
    i ∈ old.allVariants.map (·.id) := by
  rcases List.mem_append.1 h with h | h
  · obtain ⟨v, hv, rfl⟩ := List.mem_map.1 h
    exact List.mem_map.2 ⟨v, List.mem_cons_of_mem _ (List.mem_filter.1 hv).1, rfl⟩
  · split at h
    · rw [List.mem_singleton.1 h]
      exact List.mem_map.2 ⟨old.masterVariant, List.mem_cons_self .., rfl⟩
    · exact absurd h List.not_mem_nil

/-- Only what the entries call for names a variant without removing it. -/
theorem mem_updates_of_named {m : VariantDraft} {a : ProductAction}
    (h : a ∈ (old.variants.filter (Dropped new ·)).map (fun v => .removeVariant v.id) ++
      newOnes [] (updates ctx old new) ++ masterChange old new m)
    (hr : removed? a = none) (hn : (named? a).isSome) : a ∈ updates ctx old new := by
  rw [List.mem_append, List.mem_append] at h
  rcases h with (h | h) | h
  · obtain ⟨v, _, rfl⟩ := List.mem_map.1 h
    cases hr
  · exact mem_of_mem_newOnes h
  · unfold masterChange at h
    split at h
    · rcases List.mem_cons.1 h with rfl | h
      · cases hn
      · split at h
        · exact absurd h List.not_mem_nil
        · rw [List.mem_singleton.1 h] at hr
          cases hr
    · exact absurd h List.not_mem_nil

/-- What it means that actions reconcile the variants of a product with those of a draft whose
    master is `m`. -/
structure Reconciles (old : Product) (new : ProductDraft) (m : VariantDraft)
    (actions : List ProductAction) : Prop where
  /-- The dropped variants are removed in their order and before anything else. At the end stands
      the change of the master, if the master keys differ and the new master has a sku; the
      removal of the old master follows it directly, if the draft does not keep the old master.
      Nothing between them removes or promotes a variant. -/
  parts : ∃ middle, actions =
      (old.variants.filter (Dropped new ·)).map (fun v => .removeVariant v.id) ++ middle ++
        (if old.masterVariant.key ≠ m.key ∧ isBlank m.sku = false then
          .changeMasterVariant (m.sku.getD "") ::
            if Demoted old new then [] else [.removeVariant old.masterVariant.id]
        else []) ∧
    ∀ a ∈ middle, removed? a = none ∧ ∀ sku, a ≠ .changeMasterVariant sku
  /-- The entries with a key that is not stored are added, each once and in their order. -/
  added : actions.filterMap added? = (new.allVariants.filterMap id).filter (Unmatched old ·)
  removed_once : (actions.filterMap removed?).Nodup
  /-- Every variant that an action names is an old one, and no action before has removed it. -/
  named : ∀ before a after, actions = before ++ a :: after → ∀ id, named? a = some id →
    id ∈ old.allVariants.map (·.id) ∧ id ∉ before.filterMap removed?

/-- **Reconciliation of the variant list.** Whatever the variants of a product and the entries of
    a draft have in common, the plan reconciles them, once both masters have a key and the group
    of variants passes. -/
theorem variantListPlan_reconciles (ctx : DiffContext) (old : Product) (new : ProductDraft)
    (m : VariantDraft) (hf : ctx.filter.passes .variants = true)
    (hids : (old.allVariants.map (·.id)).Nodup) (hm : new.masterVariant = some m)
    (ho : isBlank old.masterVariant.key = false) (hk : isBlank m.key = false) :
    Reconciles old new m (variantListPlan ctx old new).actions := by
  have hparts := variantListPlan_parts hf hm ho hk
  generalize (variantListPlan ctx old new).actions = actions at hparts ⊢
  have hremoved : actions.filterMap removed? = removedIds old new m := by
    rw [← filterMap_removed_parts ctx m, ← hparts]
  have hnodup : (actions.filterMap removed?).Nodup := hremoved ▸ nodup_removedIds hids m
  refine ⟨⟨_, hparts, ?_⟩, ?_, hnodup, ?_⟩
  · intro a ha
    obtain ⟨hr, hp, _⟩ := named_updates (mem_of_mem_newOnes ha)
    exact ⟨hr, hp⟩
  · have hdrop : ((old.variants.filter (Dropped new ·)).map
        fun v => ProductAction.removeVariant v.id).filterMap added? = [] := by
      apply List.filterMap_eq_nil_iff.2
      intro a ha
      obtain ⟨v, _, rfl⟩ := List.mem_map.1 ha
      rfl
    have hmaster : (masterChange old new m).filterMap added? = [] := by
      unfold masterChange
      split
      · split <;> rfl
      · rfl
    have hwide (a : ProductAction) (ha : isProductWide a = true) : added? a = none := by
      obtain ⟨name, value, rfl⟩ := isProductWide_iff.1 ha
      rfl
    rw [hparts, List.filterMap_append, List.filterMap_append, hdrop, hmaster,
      filterMap_newOnes hwide, filterMap_added_updates hf, List.nil_append, List.append_nil]
  · intro before a after hsplit id hid
    -- an id is removed once, so not before and behind
    have hdisj : ∀ i, i ∈ before.filterMap removed? → i ∉ (a :: after).filterMap removed? := by
      rw [hsplit, List.filterMap_append] at hnodup
      intro i hi hi'
      exact (List.nodup_append.1 hnodup).2.2 i hi i hi' rfl
    have hbefore {i : UInt32} (hi : i ∈ before.filterMap removed?) : i ∈ removedIds old new m := by
      rw [← hremoved, hsplit, List.filterMap_append]
      exact List.mem_append_left _ hi
    have ha : a ∈ actions := hsplit ▸ List.mem_append_right _ (List.mem_cons_self ..)
    cases hr : removed? a with
    | some i =>
      rw [named?, hr] at hid
      cases hid
      have hi : id ∈ removedIds old new m := hremoved ▸ List.mem_filterMap.2 ⟨a, ha, hr⟩
      have hlater : id ∈ (a :: after).filterMap removed? :=
        List.mem_filterMap.2 ⟨a, List.mem_cons_self .., hr⟩
      exact ⟨mem_old_of_mem_removedIds hi, fun h => hdisj id h hlater⟩
    | none =>
      -- it is for a kept variant, and the old master is removed behind everything else
      have hu := mem_updates_of_named (by rw [← hparts]; exact ha) hr (by rw [hid]; rfl)
      obtain ⟨v, hv, rfl, hkept⟩ := (named_updates hu).2.2 id hid
      refine ⟨List.mem_map.2 ⟨v, hv, rfl⟩, ?_⟩
      intro hb
      rcases List.mem_append.1 (hbefore hb) with hi | hi
      · obtain ⟨w, hw, he⟩ := List.mem_map.1 hi
        obtain ⟨hw, hd⟩ := List.mem_filter.1 hw
        rw [List.inj_on_of_nodup_map hids (List.mem_cons_of_mem _ hw) hv he] at hd
        exact hkept (of_decide_eq_true hd)
      · split at hi
        · next hp =>
          rw [List.mem_singleton.1 hi] at hb
          have hlast := removal_last (hparts.symm.trans hsplit) hp
          exact hdisj _ hb (List.mem_filterMap.2 ⟨_, hlast, rfl⟩)
        · exact absurd hi List.not_mem_nil

/-- A stored product with a master `a`, two other variants with a key and one without. -/
def fourVariants : Product where
  toProductDetails := .of "p" .empty .empty
  id := .ofNat 0
  version := 1
  published := false
  hasStagedChanges := false
  masterVariant := .ofDraft 1 (.ofKey "a")
  variants := [.ofDraft 2 (.ofKey "b"), .ofDraft 3 (.ofKey "c"), .ofDraft 4 .empty]

/-- A draft whose master is new, and which keeps `b` between a null, a blank and a new entry. -/
def promotedDraft : ProductDraft where
  toProductDetails := .of "p" .empty .empty
  publish := none
  masterVariant := some ((VariantDraft.ofKey "d").withSku "s")
  variants := [none, some (.ofKey "b"), some (.ofKey " "), some (.ofKey "e")]

theorem variantListPlan_reconciles_promoted :
    DiffContext.unrestricted.filter.passes .variants = true ∧
    (fourVariants.allVariants.map (·.id)).Nodup ∧
    promotedDraft.masterVariant = some ((VariantDraft.ofKey "d").withSku "s") ∧
    isBlank fourVariants.masterVariant.key = false ∧
    isBlank ((VariantDraft.ofKey "d").withSku "s").key = false ∧
    Reconciles fourVariants promotedDraft ((VariantDraft.ofKey "d").withSku "s")
      (variantListPlan .unrestricted fourVariants promotedDraft).actions :=
  ⟨rfl, by decide, rfl, by decide, by decide,
    variantListPlan_reconciles _ _ _ _ rfl (by decide) rfl (by decide) (by decide)⟩

/-- The two dropped variants go first and the old master last. -/
example : (variantListPlan .unrestricted fourVariants promotedDraft).actions.filterMap removed? =
    [3, 4, 1] := by decide

end CatalogSync.Diff
