import CatalogSync.Proofs.Details
import CatalogSync.Proofs.Stock

/- Convergence of the product diff. The actions of a diff, replayed on the product, lead to a
   product that is as the draft describes it, and whose diff is empty. The plan is followed in its
   order: details, removals, updates, the change of the master, publication. Main statement:
   `productPlan_converges`. -/
namespace CatalogSync.Diff

open CatalogSync.Edit

/-- What is assumed of a product and a draft whose master is `m`. -/
structure Consistent (ctx : DiffContext) (old : Product) (new : ProductDraft) (m : VariantDraft) :
    Prop where
  passes : ∀ g, ctx.filter.passes g = true
  categories : WellClassified old.categories new.categories
  taxCategory : ∀ c ∈ new.taxCategory, c.named = true
  state : ∀ s ∈ new.state, s.named = true
  master : new.masterVariant = some m
  oldKey : isBlank old.masterVariant.key = false
  newKey : isBlank m.key = false
  keyed : Keyed old new
  /-- Keys that the product and the draft have in common are not blank. -/
  shared : ∀ v ∈ old.allVariants, ∀ k ∈ new.variantKeys, v.key = some k → isBlank v.key = false
  /-- There are enough ids. -/
  room : old.allVariants.length + new.allVariants.length < UInt32.size
  /-- The wanted master can be told apart by its sku. -/
  promotable : old.masterVariant.key ≠ m.key → Promotable old new m
  sameForAll : SameForAll ctx new
  wellFormed : ∀ d ∈ wanted new, WellFormed d
  comparable : ∀ v ∈ old.allVariants, ∀ d ∈ wanted new, v.key = d.key → Comparable v d
  priceIds : PriceIds old new

variable {ctx : DiffContext} {old p q : Product} {new : ProductDraft} {m : VariantDraft}

/-! ### Updates -/

/-- The entries that are added. -/
def addedEntries (old : Product) (new : ProductDraft) : List VariantDraft :=
  (new.allVariants.filterMap id).filter (Unmatched old ·)

theorem mem_addedEntries {d : VariantDraft} :
    d ∈ addedEntries old new ↔ d ∈ wanted new ∧ Unmatched old d := by
  rw [addedEntries, List.mem_filter, decide_eq_true_iff, wanted, keyedEntries, List.mem_filter,
    Bool.not_eq_true', and_assoc]
  exact and_congr_right fun _ => ⟨fun h => ⟨h.1, h⟩, fun h => h.2⟩

theorem nodup_addedEntries (h : new.variantKeys.Nodup) :
    ((addedEntries old new).map (·.key)).Nodup := by
  refine nodup_map_of_filterMap ?_ (h.sublist (filterMap_key_sublist _))
  intro d hd
  exact Option.isSome_iff_exists.2
    (exists_key_of_not_blank (mem_keyedEntries.1 (mem_addedEntries.1 hd).1).2)

theorem added_newOnes (hf : ctx.filter.passes .variants = true) :
    (newOnes [] (updates ctx old new)).filterMap added? = addedEntries old new := by
  rw [filterMap_newOnes, filterMap_added_updates hf, addedEntries]
  intro a ha
  obtain ⟨name, value, rfl⟩ := isProductWide_iff.1 ha
  rfl

theorem steady_updates {a : ProductAction} (h : a ∈ newOnes [] (updates ctx old new)) : Steady a :=
  ⟨(named_updates (mem_of_mem_newOnes h)).1, (named_updates (mem_of_mem_newOnes h)).2.1⟩

/-- A stored variant that is not dropped is wanted by an entry, unless its key is blank. -/
theorem exists_wanted {v : Variant} (hd : ¬ Dropped new v)
    (hb : ∀ k ∈ new.variantKeys, v.key = some k → isBlank v.key = false) :
    ∃ d ∈ wanted new, v.key = d.key := by
  obtain ⟨k, hk, hvk⟩ := not_dropped_iff.1 hd
  have hb := hb k hk hvk
  obtain ⟨e, he, d, rfl, hdk⟩ := mem_variantKeys.1 hk
  have hsame : v.key = d.key := hvk.trans hdk.symm
  exact ⟨d, mem_keyedEntries.2 ⟨he, hsame ▸ hb⟩, hsame⟩

theorem not_dropped_of_wanted {v : Variant} {d : VariantDraft} (hd : d ∈ wanted new)
    (hk : v.key = d.key) : ¬ Dropped new v := by
  obtain ⟨he, hb⟩ := mem_keyedEntries.1 hd
  obtain ⟨k, hdk⟩ := exists_key_of_not_blank hb
  exact not_dropped_iff.2 ⟨k, mem_variantKeys.2 ⟨_, he, d, rfl, hdk⟩, hk.trans hdk⟩

/-- A product whose variants are the old ones that are not dropped. -/
structure Cleared (old : Product) (new : ProductDraft) (p : Product) : Prop where
  master : p.masterVariant = old.masterVariant
  variants : p.variants = old.variants.filter (¬ Dropped new ·)

theorem Cleared.sublist (h : Cleared old new p) : p.allVariants.Sublist old.allVariants := by
  unfold Product.allVariants
  rw [h.master, h.variants]
  exact List.filter_sublist.cons_cons _

/-- What an entry wants is not cleared away. -/
theorem Cleared.mem (h : Cleared old new p) {v : Variant} {d : VariantDraft}
    (hv : v ∈ old.allVariants) (hd : d ∈ wanted new) (hk : v.key = d.key) : v ∈ p.allVariants := by
  unfold Product.allVariants
  rw [h.master, h.variants]
  rcases List.mem_cons.1 hv with rfl | hv
  · exact List.mem_cons_self ..
  · refine List.mem_cons_of_mem _ (List.mem_filter.2 ⟨hv, ?_⟩)
    exact decide_eq_true (not_dropped_of_wanted hd hk)

theorem Cleared.nodup_keys (hp : Cleared old new p)
    (hs : (old.allVariants.filterMap (·.key)).Nodup)
    (ho : isBlank old.masterVariant.key = false) : (p.allVariants.map (·.key)).Nodup := by
  refine nodup_map_of_filterMap ?_ (hs.sublist (hp.sublist.filterMap _))
  intro v hv
  rw [Product.allVariants, hp.master, hp.variants] at hv
  have hsome : ∃ k, v.key = some k := by
    rcases List.mem_cons.1 hv with rfl | hv
    · exact exists_key_of_not_blank ho
    · obtain ⟨-, hd⟩ := List.mem_filter.1 hv
      obtain ⟨k, -, hk⟩ := not_dropped_iff.1 (of_decide_eq_true hd)
      exact ⟨k, hk⟩
  exact Option.isSome_iff_exists.2 hsome

theorem grown_updates (h : Consistent ctx old new m) (hp : Cleared old new p) :
    Grown (newOnes [] (updates ctx old new)) p
      (replay product (newOnes [] (updates ctx old new)) p) := by
  refine replay_steady (fun a => steady_updates) (h.keyed.ids.sublist (hp.sublist.map _)) ?_
  rw [added_newOnes (h.passes _)]
  have hstored := hp.sublist.length_le
  have hadded : (addedEntries old new).length ≤ new.allVariants.length :=
    (List.length_filter_le ..).trans (List.length_filterMap_le ..)
  have hroom := h.room
  omega

/-- What the updates add: a variant for every added entry, which sees some of the updates. -/
theorem added_of_grown (hf : ctx.filter.passes .variants = true)
    (hq : Grown (newOnes [] (updates ctx old new)) p q) : ∃ extra,
    q.variants = p.variants.map (replay variant (newOnes [] (updates ctx old new))) ++ extra ∧
      List.Forall₂ (fun x d => ∃ as, (∀ a ∈ as, a ∈ updates ctx old new) ∧
        x = replay variant as (.ofDraft x.id d)) extra (addedEntries old new) := by
  obtain ⟨extra, he, hx⟩ := hq.variants
  refine ⟨extra, he, ?_⟩
  rw [← added_newOnes hf, ← map_fst_additions, List.forall₂_map_right_iff]
  refine forall₂_mono hx ?_
  intro x _ e hadd hxe
  exact ⟨e.2, fun a ha => mem_of_mem_newOnes (mem_of_mem_additions hadd a ha), hxe⟩

/-- What is added has other ids than the variants that the draft keeps. -/
theorem Cleared.apart (hp : Cleared old new p) (hq : Grown (newOnes [] (updates ctx old new)) p q)
    {extra : List Variant}
    (he : q.variants = p.variants.map (replay variant (newOnes [] (updates ctx old new))) ++ extra)
    {x : Variant} (hx : x ∈ extra) :
    ∀ w ∈ old.allVariants, ∀ d ∈ wanted new, w.key = d.key → w.id ≠ x.id := by
  intro w hw d hd hk hid
  have hids := hq.ids
  rw [hq.allVariants he, List.map_append, List.nodup_append] at hids
  refine hids.2.2 w.id (List.mem_map.2 ⟨_, List.mem_map.2 ⟨w, hp.mem hw hd hk, rfl⟩, ?_⟩) x.id
    (List.mem_map.2 ⟨x, hx, rfl⟩) hid
  exact replay_variant_id _ w

/-- After the updates the keys are distinct: what is added has keys that were not stored. -/
theorem Cleared.nodup_keys_grown (hp : Cleared old new p) (hk : Keyed old new)
    (ho : isBlank old.masterVariant.key = false) (hf : ctx.filter.passes .variants = true)
    (hq : Grown (newOnes [] (updates ctx old new)) p q) : (q.allVariants.map (·.key)).Nodup := by
  obtain ⟨extra, he, hx⟩ := added_of_grown hf hq
  have hkept : (p.allVariants.map (replay variant (newOnes [] (updates ctx old new)))).map
      (·.key) = p.allVariants.map (·.key) := by
    rw [List.map_map]
    exact List.map_congr_left fun v _ => replay_variant_key _ v
  have hadded : extra.map (·.key) = (addedEntries old new).map (·.key) := by
    refine map_eq_of_forall₂ ?_ hx
    intro x d hxd
    obtain ⟨as, -, hxe⟩ := hxd
    rw [hxe, replay_variant_key]
    rfl
  rw [hq.allVariants he, List.map_append, hkept, hadded]
  refine List.nodup_append.2 ⟨hp.nodup_keys hk.stored ho, nodup_addedEntries hk.wanted, ?_⟩
  intro k hk k' hk' hkk
  obtain ⟨v, hv, rfl⟩ := List.mem_map.1 hk
  obtain ⟨d, hd, rfl⟩ := List.mem_map.1 hk'
  exact (mem_addedEntries.1 hd).2.2 v (hp.sublist.subset hv) hkk

/-- What is added reflects its entry, and so it does under the actions that follow. -/
theorem Cleared.reflects_added (hp : Cleared old new p) (h : Consistent ctx old new m)
    (hq : Grown (newOnes [] (updates ctx old new)) p q) : ∃ extra,
    q.variants = p.variants.map (replay variant (newOnes [] (updates ctx old new))) ++ extra ∧
      List.Forall₂ Reflects extra (addedEntries old new) := by
  obtain ⟨extra, he, hx⟩ := added_of_grown (h.passes _) hq
  refine ⟨extra, he, forall₂_mono hx ?_⟩
  intro x hx d hadd hxd
  obtain ⟨as, has, hxe⟩ := hxd
  have hd := (mem_addedEntries.1 hadd).1
  rw [hxe]
  exact reflects_of_added h.priceIds h.sameForAll has (hp.apart hq he hx) hd (h.wellFormed d hd)

/-- After the updates every entry has its variant. -/
theorem Cleared.exists_of_wanted (hp : Cleared old new p)
    (hf : ctx.filter.passes .variants = true)
    (hq : Grown (newOnes [] (updates ctx old new)) p q) {d : VariantDraft} (hd : d ∈ wanted new) :
    ∃ w ∈ q.allVariants, w.key = d.key := by
  obtain ⟨extra, he, hx⟩ := added_of_grown hf hq
  rw [hq.allVariants he]
  by_cases hv : ∃ v ∈ old.allVariants, v.key = d.key
  · obtain ⟨v, hv, hk⟩ := hv
    refine ⟨_, List.mem_append_left _ (List.mem_map.2 ⟨v, hp.mem hv hd hk, rfl⟩), ?_⟩
    rw [replay_variant_key, hk]
  · push Not at hv
    have hadd : d ∈ addedEntries old new :=
      mem_addedEntries.2 ⟨hd, (mem_keyedEntries.1 hd).2, hv⟩
    obtain ⟨x, hxm, as, -, hxd⟩ := exists_of_forall₂_left hx.flip d hadd
    refine ⟨x, List.mem_append_right _ hxm, ?_⟩
    rw [hxd, replay_variant_key]
    rfl

/-- After the updates a product is stocked with what the draft wants. -/
theorem stocked_updates (h : Consistent ctx old new m) (hp : Cleared old new p)
    (hq : Grown (newOnes [] (updates ctx old new)) p q) : Stocked q new := by
  obtain ⟨extra, he, hx⟩ := hp.reflects_added h hq
  have hmatched {v : Variant} (hv : v ∈ old.allVariants) {d : VariantDraft} (hd : d ∈ wanted new)
      (hk : v.key = d.key) :
      Reflects (replay variant (newOnes [] (updates ctx old new)) v) d :=
    reflects_of_matched h.passes h.keyed h.priceIds h.sameForAll hv hd hk (h.wellFormed d hd)
      (h.comparable v hv d hd hk)
  refine ⟨hq.ids, hp.nodup_keys_grown h.keyed h.oldKey (h.passes _) hq, ?_, ?_⟩
  · intro w hw
    rw [he, List.mem_append] at hw
    rcases hw with hw | hw
    · -- a variant that was kept has an entry, since it would have been dropped otherwise
      obtain ⟨v, hv, rfl⟩ := List.mem_map.1 hw
      rw [hp.variants, List.mem_filter, decide_eq_true_iff] at hv
      have hvo : v ∈ old.allVariants := List.mem_cons_of_mem _ hv.1
      obtain ⟨d, hd, hk⟩ := exists_wanted hv.2 (h.shared v hvo)
      exact ⟨d, hd, hmatched hvo hd hk⟩
    · obtain ⟨d, hd, hr⟩ := exists_of_forall₂_left hx w hw
      exact ⟨d, (mem_addedEntries.1 hd).1, hr⟩
  · intro d hd
    rw [hq.allVariants he]
    by_cases hv : ∃ v ∈ old.allVariants, v.key = d.key
    · obtain ⟨v, hv, hk⟩ := hv
      refine ⟨_, List.mem_append_left _ (List.mem_map.2 ⟨v, hp.mem hv hd hk, rfl⟩), ?_⟩
      exact hmatched hv hd hk
    · push Not at hv
      have hadd : d ∈ addedEntries old new :=
        mem_addedEntries.2 ⟨hd, (mem_keyedEntries.1 hd).2, hv⟩
      obtain ⟨x, hxm, hr⟩ := exists_of_forall₂_left hx.flip d hadd
      exact ⟨x, List.mem_append_right _ hxm, hr⟩

/-! ### The whole plan -/

theorem cleared_removals (hn : (old.allVariants.map (·.id)).Nodup)
    (hm : p.masterVariant = old.masterVariant) (hv : p.variants = old.variants) :
    Cleared old new (replay product
      ((old.variants.filter (Dropped new ·)).map fun v => .removeVariant v.id) p) := by
  have hids :
      ((old.variants.filter (Dropped new ·)).map fun v => ProductAction.removeVariant v.id) =
        ((old.variants.filter (Dropped new ·)).map (·.id)).map .removeVariant := by
    rw [List.map_map]
    rfl
  obtain ⟨hgm, hgv⟩ := replay_removeVariant ((old.variants.filter (Dropped new ·)).map (·.id)) p
  rw [hids]
  refine ⟨hgm.trans hm, hgv.trans ?_⟩
  rw [hv]
  apply List.filter_congr
  intro v hv
  rw [Bool.eq_iff_iff, Bool.not_eq_true', ← Bool.not_eq_true, List.contains_iff_mem,
    decide_eq_true_iff, not_iff_not, List.mem_map]
  constructor
  · intro h
    obtain ⟨w, hw, hid⟩ := h
    obtain ⟨hw, hd⟩ := List.mem_filter.1 hw
    rw [← List.inj_on_of_nodup_map hn (List.mem_cons_of_mem _ hw) (List.mem_cons_of_mem _ hv) hid]
    exact of_decide_eq_true hd
  · intro hd
    exact ⟨v, List.mem_filter.2 ⟨hv, decide_eq_true hd⟩, rfl⟩

theorem idle_detailActions {f : Filter} {a : ProductAction} (h : a ∈ detailActions f old new) :
    Idle a := by
  have hdisjoint : ∀ g ∈ detailGroups, g ∉ variantGroups := by decide
  exact hdisjoint _ (group_detailActions h)

theorem idle_publication {desired : Option Bool} {current others staged : Bool} {a : ProductAction}
    (h : a ∈ publication desired current others staged) : Idle a := by
  rw [Idle, group_publication h]
  decide

/-- Behind the details, the plan leads to a stocked product with the wanted master. -/
theorem stocked_variantListPlan (h : Consistent ctx old new m)
    (hm : p.masterVariant = old.masterVariant) (hv : p.variants = old.variants) :
    Stocked (replay product (variantListPlan ctx old new).actions p) new ∧
      (replay product (variantListPlan ctx old new).actions p).masterVariant.key = m.key := by
  rw [variantListPlan_parts (h.passes _) h.master h.oldKey h.newKey, replay_append, replay_append]
  -- the removals clear the product for the updates, and the change of the master comes last
  have hcleared : Cleared old new _ := cleared_removals h.keyed.ids hm hv
  have hgrown := grown_updates h hcleared
  have hmaster := hgrown.master.trans (congrArg _ hcleared.master)
  refine (stocked_updates h hcleared hgrown).masterChange h.master h.newKey h.oldKey ?_ ?_ ?_
    h.promotable
  · rw [hmaster, replay_variant_id]
  · rw [hmaster, replay_variant_key]
  · intro hne hd
    rw [hmaster]
    refine sku_of_unwanted h.keyed (List.mem_cons_self ..) ?_
    intro d hdw he
    rw [wanted_eq h.master h.newKey] at hdw
    rcases List.mem_cons.1 hdw with rfl | hdw
    · exact hne he
    · exact hd ((demoted_iff h.oldKey).2 ⟨d, hdw, he.symm⟩)

theorem stocked_productPlan (h : Consistent ctx old new m) :
    Stocked (replay product (productPlan ctx old new).actions old) new ∧
      (replay product (productPlan ctx old new).actions old).masterVariant.key = m.key := by
  rw [productPlan_actions, changes, replay_append, replay_append]
  obtain ⟨hm, hv⟩ := @replay_idle (detailActions ctx.filter old new) old fun _ => idle_detailActions
  obtain ⟨hs, hk⟩ := stocked_variantListPlan h hm hv
  obtain ⟨hm', hv'⟩ := replay_idle fun _ ha => idle_publication (mem_gate.1 ha).2
  exact ⟨hs.congr hm' hv', (congrArg (fun v : Variant => v.key) hm').trans hk⟩

/-- The details of the product that a diff leads to. -/
theorem toProductDetails_productPlan (hf : ∀ g, ctx.filter.passes g = true) :
    (replay product (productPlan ctx old new).actions old).toProductDetails = settled old new := by
  rw [replay_product_toProductDetails, productPlan_actions, changes, List.append_assoc,
    replay_append, replay_detailActions hf]
  apply replay_of_idle
  intro a ha
  apply details_of_group
  rcases List.mem_append.1 ha with ha | ha
  · have hdisjoint : ∀ g ∈ variantGroups, g ∉ detailGroups := by decide
    exact hdisjoint _ (group_variantListPlan ha)
  · rw [group_publication (mem_gate.1 ha).2]
    decide

theorem flags_productPlan (hf : ∀ g, ctx.filter.passes g = true) :
    (replay product (productPlan ctx old new).actions old).published = new.publish.getD false ∧
      ((replay product (productPlan ctx old new).actions old).published = true →
        (replay product (productPlan ctx old new).actions old).hasStagedChanges = false) := by
  obtain ⟨hpublished, hstaged⟩ :=
    @replay_product_flags (changes ctx old new) old fun _ => changes_not_publication
  rw [productPlan_actions, gate_eq_self hf, replay_append, ← hpublished]
  exact replay_publication hstaged

/-! ### Convergence -/

/-- A product is all that a draft with the master `m` asks for. -/
structure Fulfils (p : Product) (new : ProductDraft) (m : VariantDraft) : Prop where
  details : Describes p new
  master : Reflects p.masterVariant m
  /-- The other variants and the other entries with a key correspond one to one. -/
  variants : OneToOne Reflects p.variants (keyedEntries new.variants)
  published : p.published = new.publish.getD false
  flushed : p.published = true → p.hasStagedChanges = false

/-- The variants of a stocked product with the wanted master are in step with the draft. -/
theorem Stocked.inStep (h : Stocked p new) (hm : new.masterVariant = some m)
    (hkey : p.masterVariant.key = m.key) : InStep p new where
  kept w hw := by
    obtain ⟨d, hd, hr⟩ := h.left w hw
    exact not_dropped_of_wanted hd hr.key
  present d hd := by
    obtain ⟨w, hw, hr⟩ := h.right d hd
    exact ⟨w, hw, hr.key⟩
  reflects v hv d hd hk := h.of_key hv hd hk
  master m' hm' := by
    rw [hm] at hm'
    cases hm'
    exact hkey

/-- The variants of a stocked product with the wanted master need no actions. -/
theorem Stocked.variantListPlan_eq_nil (h : Stocked p new) (hm : new.masterVariant = some m)
    (hkey : p.masterVariant.key = m.key) (hw : ∀ d ∈ wanted new, WellFormed d) :
    (variantListPlan ctx p new).actions = [] :=
  (h.inStep hm hkey).variantListPlan_eq_nil fun d hd => (hw d hd).unambiguous

/-- A product with the wanted flag and nothing to flush needs no publication. -/
theorem publication_eq_nil {desired : Option Bool} {current staged : Bool}
    (h : current = desired.getD false) (hs : current = true → staged = false) :
    publication desired current false staged = [] := by
  subst h
  rcases desired with _ | _ | _
  · rfl
  · rfl
  · have hstaged : staged = false := hs rfl
    rw [hstaged]
    rfl

/-- **Convergence of the product diff.** For a consistent product and draft the actions of the
    diff, applied to the product in sequence, lead to a product that is all that the draft asks
    for; the diff of that product and the draft has no actions. What a draft does not speak of is
    as before: the id, the version and the key, and the state if the draft names none. -/
theorem productPlan_converges (ctx : DiffContext) (old : Product) (new : ProductDraft)
    (m : VariantDraft) (h : Consistent ctx old new m) :
    let p := replay product (productPlan ctx old new).actions old
    Fulfils p new m ∧ (productPlan ctx p new).actions = [] ∧
      p.id = old.id ∧ p.version = old.version ∧ p.key = old.key ∧
      (new.state = none → p.state = old.state) := by
  intro p
  obtain ⟨hs, hkey⟩ := stocked_productPlan h
  obtain ⟨hmaster, hvariants⟩ := hs.reflects h.keyed.wanted h.master h.newKey hkey
  obtain ⟨hpublished, hflushed⟩ := @flags_productPlan ctx old new h.passes
  -- details and variants can be told apart, since no action bears on both
  have hdetails : p.toProductDetails = settled old new := toProductDetails_productPlan h.passes
  have hdescribes := settled_describes hdetails h.categories h.taxCategory h.state
  obtain ⟨hid, hversion⟩ := replay_product_frame (productPlan ctx old new).actions old
  refine ⟨⟨hdescribes, hmaster, hvariants, hpublished, hflushed⟩, ?_, hid, hversion,
    (congrArg ProductDetails.key hdetails :), ?_⟩
  · have hchanges : changes ctx p new = [] := by
      rw [changes, detailActions_eq_nil hdescribes,
        hs.variantListPlan_eq_nil h.master hkey h.wellFormed]
      rfl
    rw [productPlan_actions, hchanges, gate_eq_self h.passes]
    exact publication_eq_nil hpublished hflushed
  · intro hnone
    rw [congrArg ProductDetails.state hdetails]
    unfold settled
    rw [hnone]

/-- A product whose second variant has two images and a price, and whose third is keyless. -/
def threeVariants : Product where
  toProductDetails := { ProductDetails.of "p" .empty .empty with
    categories := [.ofId "1", .ofIdAndKey "2" "tops"]
    taxCategory := some (.ofId "full") }
  id := .ofNat 0
  version := 1
  published := true
  hasStagedChanges := false
  masterVariant := .ofDraft 1 ((VariantDraft.ofKey "a").withSku "x")
  variants := [
    .ofDraft 2 { VariantDraft.ofKey "b" with
      images := [.of "i", .of "j"]
      prices := [(Price.of ⟨100, "EUR"⟩).withId "q"] },
    .ofDraft 3 .empty]

/-- The second variant of `threeVariants` as a master, with its images swapped and other prices. -/
def newMaster : VariantDraft :=
  { (VariantDraft.ofKey "b").withSku "y" with
    images := [.of "j", .of "i"]
    prices := [.of ⟨90, "EUR"⟩, .of ⟨80, "USD"⟩] }

/-- A draft that keeps the old master under another sku and adds a variant. -/
def swappedDraft : ProductDraft where
  toProductDetails := { ProductDetails.of "p" .empty .empty with
    categories := [.ofKey "tops", .ofKey "new"]
    taxCategory := some (.ofIdAndKey "half" "h") }
  publish := some true
  masterVariant := some newMaster
  variants := [some ((VariantDraft.ofKey "a").withSku "z"), none, some (.ofKey "e")]

theorem productPlan_converges_swapped :
    Consistent .unrestricted threeVariants swappedDraft newMaster ∧
    let p := replay product (productPlan .unrestricted threeVariants swappedDraft).actions
      threeVariants
    Fulfils p swappedDraft newMaster ∧ (productPlan .unrestricted p swappedDraft).actions = [] ∧
      p.id = threeVariants.id ∧ p.version = threeVariants.version ∧ p.key = threeVariants.key ∧
      (swappedDraft.state = none → p.state = threeVariants.state) := by
  have h : Consistent .unrestricted threeVariants swappedDraft newMaster :=
    { passes := fun _ => rfl
      categories := by decide
      taxCategory := by decide
      state := by decide
      master := rfl
      oldKey := by decide
      newKey := by decide
      keyed := by decide
      shared := by decide
      room := by decide
      promotable := by decide
      sameForAll := by decide
      wellFormed := by decide
      comparable := by decide
      priceIds := by decide }
  exact ⟨h, productPlan_converges _ _ _ _ h⟩

/-- The old master gives way, and the variant without a key is gone. -/
example : (replay product (productPlan .unrestricted threeVariants swappedDraft).actions
    threeVariants).allVariants.map (·.key) = [some "b", some "a", some "e"] := by decide

end CatalogSync.Diff
