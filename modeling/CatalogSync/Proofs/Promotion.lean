import CatalogSync.Proofs.Idempotence

/- The promotion of a new master. It is addressed by the sku that the draft gives the new master, at
   a time when the variants have the skus that the actions before it left them with. If nothing else
   lays claim to that sku (`Unclaimed`), then exactly one variant has it by then, the one with the
   key of the new master (`promotion_addresses`). Two kinds of variants may claim it otherwise: the
   old master, which is removed only afterwards, and where changes of skus are held back, any variant
   that was stored with it. -/
namespace CatalogSync.Diff

open CatalogSync.Edit

/-- Every variant of a draft has a key and a sku, and no two have the same sku. -/
structure Labelled (new : ProductDraft) : Prop where
  keys : ∀ d ∈ presentEntries new, isBlank d.key = false
  skus : ∀ d ∈ presentEntries new, isBlank d.sku = false
  distinct : ((presentEntries new).map (·.sku)).Nodup

instance (new : ProductDraft) : Decidable (Labelled new) :=
  decidable_of_iff (_ ∧ _ ∧ _) ⟨fun ⟨h, h', h''⟩ => ⟨h, h', h''⟩,
    fun h => ⟨h.keys, h.skus, h.distinct⟩⟩

/-- No variant claims a sku that its entry does not have. -/
structure Unclaimed (ctx : DiffContext) (old : Product) (new : ProductDraft) (sku : String) :
    Prop where
  /-- The old master has an entry, or another sku. -/
  superseded : Demoted old new ∨ old.masterVariant.sku ≠ some sku
  /-- Skus change, or the variant that was stored with this one is the one that should have it. -/
  held : ctx.filter.passes .sku = true ∨ ∀ v ∈ old.allVariants, ∀ d ∈ wanted new, v.key = d.key →
    (v.sku = some sku ↔ d.sku = some sku)

instance (ctx : DiffContext) (old : Product) (new : ProductDraft) (sku : String) :
    Decidable (Unclaimed ctx old new sku) :=
  decidable_of_iff (_ ∧ _) ⟨fun ⟨h, h'⟩ => ⟨h, h'⟩, fun h => ⟨h.superseded, h.held⟩⟩

variable {ctx : DiffContext} {old p q : Product} {new : ProductDraft} {m d : VariantDraft}
  {v w : Variant} {sku : String} {before after : List ProductAction}

/-! ### What comes before the promotion -/

/-- What a promotion by a sku says of the master variants and of the actions before it. -/
structure Promotes (ctx : DiffContext) (old : Product) (new : ProductDraft) (m : VariantDraft)
    (sku : String) (before : List ProductAction) : Prop where
  passes : ctx.filter.passes .variants = true
  oldKey : isBlank old.masterVariant.key = false
  newKey : isBlank m.key = false
  differ : old.masterVariant.key ≠ m.key
  sku : m.sku = some sku
  before : before = (old.variants.filter (Dropped new ·)).map (fun v => .removeVariant v.id) ++
    newOnes [] (updates ctx old new)

/-- Neither the removals nor what the entries call for promotes a variant. -/
theorem not_promoted (ctx : DiffContext) (old : Product) (new : ProductDraft) (sku : String) :
    .changeMasterVariant sku ∉
      (old.variants.filter (Dropped new ·)).map (fun v => ProductAction.removeVariant v.id) ++
        newOnes [] (updates ctx old new) := by
  intro h
  rcases List.mem_append.1 h with h | h
  · obtain ⟨v, -, h⟩ := List.mem_map.1 h
    cases h
  · exact (steady_updates h).2 sku rfl

theorem promotes (h : (variantListPlan ctx old new).actions =
    before ++ .changeMasterVariant sku :: after) :
    ∃ m, new.masterVariant = some m ∧ Promotes ctx old new m sku before := by
  have hmem : .changeMasterVariant sku ∈ (variantListPlan ctx old new).actions := by
    rw [h]
    exact List.mem_append_right _ (List.mem_cons_self ..)
  have hk : masterKeyProblems old new = [] := by
    by_contra hk
    rw [variantListPlan_of_problems hk] at hmem
    cases hmem
  obtain ⟨ho, m, hm, hmk⟩ := masterKeyProblems_eq_nil.1 hk
  refine ⟨m, hm, ?_⟩
  cases hf : ctx.filter.passes .variants with
  | false =>
    -- nothing but what the entries call for is left
    rw [variantListPlan_actions hk] at hmem
    simp only [Filter.gate, hf, Bool.false_eq_true, if_false, List.nil_append, List.append_nil]
      at hmem
    exact absurd (List.mem_append_right _ hmem) (not_promoted ctx old new sku)
  | true =>
    rw [variantListPlan_parts hf hm ho hmk] at h hmem
    unfold masterChange at h hmem
    by_cases hp : old.masterVariant.key ≠ m.key ∧ isBlank m.sku = false
    · rw [if_pos hp] at h
      have htail : .changeMasterVariant sku ∉
          if Demoted old new then [] else [ProductAction.removeVariant old.masterVariant.id] := by
        split <;> simp
      obtain ⟨hbefore, hsku, -⟩ :=
        (List.append_cons_inj_of_notMem (not_promoted ctx old new sku) htail).1 h
      obtain ⟨s, hs⟩ := exists_key_of_not_blank hp.2
      rw [hs] at hsku
      cases hsku
      exact ⟨hf, ho, hmk, hp.1, hs, hbefore.symm⟩
    · rw [if_neg hp, List.append_nil] at hmem
      exact absurd hmem (not_promoted ctx old new sku)

/-- The actions before the promotion clear the product, and then it grows by what the entries call
    for. -/
theorem Promotes.grown (h : Promotes ctx old new m sku before)
    (hids : (old.allVariants.map (·.id)).Nodup) (hq : Leads before old q) :
    ∃ p, Cleared old new p ∧ Grown (newOnes [] (updates ctx old new)) p q := by
  rw [h.before] at hq
  obtain ⟨p, hp, hq⟩ := leads_append.1 hq
  have hcleared : Cleared old new p := by
    rw [hp.eq_replay]
    · exact cleared_removals hids rfl rfl
    · intro a ha
      obtain ⟨v, -, rfl⟩ := List.mem_map.1 ha
      rfl
  exact ⟨p, hcleared, hq.grown (fun a => steady_updates) (hids.sublist (hcleared.sublist.map _))⟩

/-! ### Who has the sku -/

/-- Of the entries the new master has the sku, and it alone. -/
theorem Labelled.sku_iff (h : Labelled new) (hn : new.variantKeys.Nodup) (hm : m ∈ wanted new)
    (hs : m.sku = some sku) (hd : d ∈ wanted new) : d.sku = some sku ↔ d.key = m.key := by
  constructor
  · intro he
    rw [List.inj_on_of_nodup_map h.distinct (present_of_wanted hd) (present_of_wanted hm)
      (he.trans hs.symm)]
  · intro he
    rw [entry_eq hn hd hm he, hs]

/-- What the draft does not drop has an entry. -/
theorem Labelled.exists_wanted (h : Labelled new) (hd : ¬ Dropped new v) :
    ∃ d ∈ wanted new, v.key = d.key := by
  refine CatalogSync.Diff.exists_wanted hd fun k hk hv => ?_
  obtain ⟨e, he, d, rfl, hdk⟩ := mem_variantKeys.1 hk
  rw [hv, ← hdk]
  exact h.keys d (mem_presentEntries.2 he)

/-- A variant that was kept has the sku of the new master if and only if it has its key. -/
theorem sku_iff_of_kept (hk : Keyed old new) (hl : Labelled new)
    (hu : Unclaimed ctx old new sku) (ho : isBlank old.masterVariant.key = false)
    (hm : m ∈ wanted new) (hs : m.sku = some sku) (hp : Cleared old new p)
    (hv : v ∈ p.allVariants) :
    (replay variant (newOnes [] (updates ctx old new)) v).sku = some sku ↔ v.key = m.key := by
  have hvo := hp.sublist.subset hv
  by_cases hd : ∃ d ∈ wanted new, v.key = d.key
  · obtain ⟨d, hd, hvd⟩ := hd
    rw [sku_of_matched hk hvo hd hvd, hvd, ← hl.sku_iff hk.wanted hm hs hd]
    split
    · exact Iff.rfl
    · next hf => exact hu.held.resolve_left hf v hvo d hd hvd
  · -- only the old master is there without an entry
    push Not at hd
    have hv : v = old.masterVariant := by
      rw [Product.allVariants, hp.master, hp.variants] at hv
      rcases List.mem_cons.1 hv with hv | hv
      · exact hv
      · obtain ⟨d, hdw, hvd⟩ := hl.exists_wanted (of_decide_eq_true (List.mem_filter.1 hv).2)
        exact absurd hvd (hd d hdw)
    have hgone : ¬ Demoted old new := by
      intro hdem
      obtain ⟨d, hdm, hdk⟩ := (demoted_iff ho).1 hdem
      have hdw : d ∈ wanted new := by
        obtain ⟨he, hb⟩ := mem_keyedEntries.1 hdm
        exact mem_keyedEntries.2 ⟨List.mem_cons_of_mem _ he, hb⟩
      exact hd d hdw (hv ▸ hdk.symm)
    rw [sku_of_unwanted hk hvo hd]
    exact iff_of_false (hv ▸ hu.superseded.resolve_left hgone) (hd m hm)

/-- By the time of the promotion a variant has the sku of the new master if and only if it has its
    key. -/
theorem sku_iff_of_grown (hk : Keyed old new) (hl : Labelled new)
    (hu : Unclaimed ctx old new sku) (ho : isBlank old.masterVariant.key = false)
    (hf : ctx.filter.passes .variants = true) (hm : m ∈ wanted new) (hs : m.sku = some sku)
    (hp : Cleared old new p) (hq : Grown (newOnes [] (updates ctx old new)) p q)
    (hw : w ∈ q.allVariants) : w.sku = some sku ↔ w.key = m.key := by
  obtain ⟨extra, he, hx⟩ := added_of_grown hf hq
  rw [hq.allVariants he] at hw
  rcases List.mem_append.1 hw with hw | hw
  · obtain ⟨v, hv, rfl⟩ := List.mem_map.1 hw
    rw [replay_variant_key]
    exact sku_iff_of_kept hk hl hu ho hm hs hp hv
  · obtain ⟨d, hd, as, has, hwd⟩ := exists_of_forall₂_left hx w hw
    have hsku : w.sku = d.sku := by
      rw [hwd]
      exact sku_of_added has (hp.apart hq he hw)
    have hkey : w.key = d.key := by
      rw [hwd, replay_variant_key]
      rfl
    rw [hsku, hkey]
    exact hl.sku_iff hk.wanted hm hs (mem_addedEntries.1 hd).1

/-- **The promotion is addressed right.** Whenever a diff promotes a variant by a sku that nothing
    else lays claim to, exactly one variant has that sku once the actions before the promotion were
    applied, whichever unused ids the additions among them get, and it is the variant with the key
    of the new master. -/
theorem promotion_addresses (ctx : DiffContext) (old q : Product) (new : ProductDraft)
    (sku : String) (before after : List ProductAction)
    (hids : (old.allVariants.map (·.id)).Nodup)
    (hkeys : (old.allVariants.filterMap (·.key)).Nodup)
    (haccepted : Kind.product.refusal? new = none) (hl : Labelled new)
    (hu : Unclaimed ctx old new sku)
    (hplan : (variantListPlan ctx old new).actions =
      before ++ .changeMasterVariant sku :: after)
    (hq : Leads before old q) :
    ∃ m x, new.masterVariant = some m ∧
      q.allVariants.filter (·.sku == some sku) = [x] ∧
      q.allVariants.filter (·.key == m.key) = [x] := by
  have hk : Keyed old new := ⟨hids, hkeys, nodup_variantKeys (Kind.refusal?_eq_none.1 haccepted)⟩
  obtain ⟨m, hm, h⟩ := promotes hplan
  obtain ⟨p, hp, hg⟩ := h.grown hids hq
  have hmw : m ∈ wanted new :=
    mem_keyedEntries.2 ⟨hm ▸ List.mem_cons_self .., h.newKey⟩
  -- the keys tell the variants apart, so it is enough that one of them has that of the new master
  obtain ⟨x, hx, hxm⟩ := hp.exists_of_wanted h.passes hg hmw
  have hone : q.allVariants.filter (·.key == m.key) = [x] := by
    rw [← hxm]
    exact filter_eq_singleton (hp.nodup_keys_grown hk h.oldKey h.passes hg) hx
  refine ⟨m, x, hm, ?_, hone⟩
  rw [← hone]
  apply List.filter_congr
  intro w hw
  rw [Bool.eq_iff_iff, beq_iff_eq, beq_iff_eq]
  exact sku_iff_of_grown hk hl hu h.oldKey h.passes hmw h.sku hp hg hw

/-- A product with three variants. -/
def shelf : Product where
  toProductDetails := .of "p" .empty .empty
  id := .ofNat 0
  version := 1
  published := false
  hasStagedChanges := false
  masterVariant := .ofDraft 1 ((VariantDraft.ofKey "a").withSku "x")
  variants := [.ofDraft 2 ((VariantDraft.ofKey "b").withSku "y"),
    .ofDraft 3 ((VariantDraft.ofKey "c").withSku "z")]

/-- A draft with `b` as the master, and these variants besides. -/
def rearranged (sku : String) (others : List (Option VariantDraft)) : ProductDraft where
  toProductDetails := .of "p" .empty .empty
  publish := none
  masterVariant := some ((VariantDraft.ofKey "b").withSku sku)
  variants := others

/-- A draft in which the skus of the stored variants are passed on, one of them to a new variant. -/
def passedOn : ProductDraft :=
  rearranged "w" [some ((VariantDraft.ofKey "a").withSku "y"), none,
    some ((VariantDraft.ofKey "d").withSku "x")]

/-- What stands before the promotion by `passedOn`. -/
def beforePassedOn : List ProductAction :=
  [.removeVariant 3, .setSku 2 (some "w"), .setSku 1 (some "y"),
    .addVariant ((VariantDraft.ofKey "d").withSku "x")]

theorem promotion_addresses_passedOn :
    (shelf.allVariants.map (·.id)).Nodup ∧ (shelf.allVariants.filterMap (·.key)).Nodup ∧
    Kind.product.refusal? passedOn = none ∧ Labelled passedOn ∧
    Unclaimed .unrestricted shelf passedOn "w" ∧
    (variantListPlan .unrestricted shelf passedOn).actions =
      beforePassedOn ++ .changeMasterVariant "w" :: [] ∧
    Leads beforePassedOn shelf (replay product beforePassedOn shelf) ∧
    ∃ m x, passedOn.masterVariant = some m ∧
      (replay product beforePassedOn shelf).allVariants.filter (·.sku == some "w") = [x] ∧
      (replay product beforePassedOn shelf).allVariants.filter (·.key == m.key) = [x] := by
  have hids : (shelf.allVariants.map (·.id)).Nodup := by decide
  have hkeys : (shelf.allVariants.filterMap (·.key)).Nodup := by decide
  have haccepted : Kind.product.refusal? passedOn = none := by decide
  have hl : Labelled passedOn := by decide
  have hu : Unclaimed .unrestricted shelf passedOn "w" := by decide
  have hplan : (variantListPlan .unrestricted shelf passedOn).actions =
      beforePassedOn ++ .changeMasterVariant "w" :: [] := rfl
  have hq : Leads beforePassedOn shelf (replay product beforePassedOn shelf) :=
    .cons (.other rfl) (.cons (.other rfl) (.cons (.other rfl) (.cons (.add 3 (by decide))
      (.nil _))))
  exact ⟨hids, hkeys, haccepted, hl, hu, hplan, hq,
    promotion_addresses _ _ _ _ _ _ _ hids hkeys haccepted hl hu hplan hq⟩

/-- A draft in which `b` and `c` exchange their skus. -/
def exchanged : ProductDraft :=
  rearranged "z" [some ((VariantDraft.ofKey "c").withSku "y"),
    some ((VariantDraft.ofKey "a").withSku "x")]

/-- A draft in which `b` takes the place of `a`, and its sku. -/
def inherited : ProductDraft :=
  rearranged "x" [some ((VariantDraft.ofKey "c").withSku "z")]

/-- Only changes of the variant list itself. -/
def listOnly : DiffContext := ⟨.only (.ofList [.variants]), .empty⟩

/-- With changes of skus held back, the exchanged sku of `b` is still that of `c`; and without an
    entry for `a`, both `a` and `b` have the inherited one by the time of the promotion. -/
theorem promotion_misses :
    (shelf.allVariants.map (·.id)).Nodup ∧ (shelf.allVariants.filterMap (·.key)).Nodup ∧
    (shelf.allVariants.filterMap (·.sku)).Nodup ∧
    (listOnly.filter.passes .variants = true ∧
      Kind.product.refusal? exchanged = none ∧ Labelled exchanged ∧
      (variantListPlan listOnly shelf exchanged).actions = [.changeMasterVariant "z"] ∧
      (shelf.allVariants.filter (·.sku == some "z")).map (·.key) = [some "c"]) ∧
    (DiffContext.unrestricted.filter.passes .variants = true ∧
      Kind.product.refusal? inherited = none ∧ Labelled inherited ∧
      (variantListPlan .unrestricted shelf inherited).actions =
        [.setSku 2 (some "x"), .changeMasterVariant "x", .removeVariant 1] ∧
      ((product (.setSku 2 (some "x")) shelf).allVariants.filter (·.sku == some "x")).map (·.key) =
        [some "a", some "b"]) :=
  ⟨by decide, by decide, by decide, ⟨by decide, by decide, by decide, rfl, by decide⟩,
    ⟨by decide, by decide, by decide, rfl, by decide⟩⟩

end CatalogSync.Diff
