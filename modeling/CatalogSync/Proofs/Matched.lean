import CatalogSync.Proofs.Assets
import CatalogSync.Proofs.Attributes
import CatalogSync.Proofs.Entries
import CatalogSync.Proofs.Images
import CatalogSync.Proofs.Prices

/- Variants and the entries of a draft that they are paired with. A matched variant comes to reflect
   its entry (`reflects_of_matched`): its sku, images and assets see what this entry calls for and
   nothing else, its prices are not touched by what others call for, and its attributes may also
   be written for all variants at once. A variant that is added carries its entry already, and what
   the other entries call for does not spoil it (`reflects_of_added`). -/
namespace CatalogSync.Diff

open CatalogSync.Edit

variable {ctx : DiffContext} {old : Product} {new : ProductDraft} {v w : Variant}
  {d d' : VariantDraft} {a : ProductAction}

/-! ### The parts of a matched variant -/

/-- A variant is as an entry wants it. -/
structure Reflects (v : Variant) (d : VariantDraft) : Prop where
  key : v.key = d.key
  sku : v.sku = d.sku
  attributes : Agree v.attributes d.attributes
  images : v.images.map face = d.images.map face
  prices : PricesServe v.prices d.prices
  assets : keyedAssets v.assets = keyedAssets d.assets

/-- Within an entry images are told apart by url, assets by key and prices by scope. -/
structure WellFormed (d : VariantDraft) : Prop where
  images : (d.images.map (·.url)).Nodup
  assets : (assetKeys d.assets).Nodup
  prices : WellPriced d.prices

instance (d : VariantDraft) : Decidable (WellFormed d) :=
  decidable_of_iff (_ ∧ _ ∧ _) ⟨fun ⟨h, h', h''⟩ => ⟨h, h', h''⟩,
    fun h => ⟨h.images, h.assets, h.prices⟩⟩

/-- Within an entry images with one url have one label, and assets are told apart by key and prices
    by scope. -/
structure Unambiguous (d : VariantDraft) : Prop where
  images : OneLabel d.images
  assets : (assetKeys d.assets).Nodup
  prices : WellPriced d.prices

instance (d : VariantDraft) : Decidable (Unambiguous d) :=
  decidable_of_iff (_ ∧ _ ∧ _) ⟨fun ⟨h, h', h''⟩ => ⟨h, h', h''⟩,
    fun h => ⟨h.images, h.assets, h.prices⟩⟩

theorem WellFormed.unambiguous (h : WellFormed d) : Unambiguous d :=
  ⟨oneLabel_of_nodup h.images, h.assets, h.prices⟩

/-- An entry can be compared with a stored variant part by part. -/
structure Comparable (v : Variant) (d : VariantDraft) : Prop where
  images : (v.images.map (·.url)).Nodup
  assets : (assetKeys v.assets).Nodup
  identified : ∀ o ∈ v.prices, o.id.isSome = true
  left : ∀ p ∈ d.prices, AtMostOne (fun o => o.sameScope p) v.prices
  right : ∀ o ∈ v.prices, AtMostOne (fun p => o.sameScope p) d.prices

instance (v : Variant) (d : VariantDraft) : Decidable (Comparable v d) :=
  decidable_of_iff (_ ∧ _ ∧ _ ∧ _ ∧ _) ⟨fun ⟨h₁, h₂, h₃, h₄, h₅⟩ => ⟨h₁, h₂, h₃, h₄, h₅⟩,
    fun h => ⟨h.images, h.assets, h.identified, h.left, h.right⟩⟩

/-- The ids of the prices of a variant. -/
def priceIds (v : Variant) : List String := v.prices.filterMap (·.id)

/-- Stored prices are told apart by their ids, and no price of the draft has one of these. -/
structure PriceIds (old : Product) (new : ProductDraft) : Prop where
  distinct : (old.allVariants.flatMap priceIds).Nodup
  fresh : ∀ d ∈ wanted new, ∀ p ∈ d.prices, ∀ i ∈ p.id, i ∉ old.allVariants.flatMap priceIds

instance (old : Product) (new : ProductDraft) : Decidable (PriceIds old new) :=
  decidable_of_iff (_ ∧ _) ⟨fun ⟨h, h'⟩ => ⟨h, h'⟩, fun h => ⟨h.distinct, h.fresh⟩⟩

/-- A variant that is as its entry wants it needs no action. -/
theorem variantActions_eq_nil (h : Reflects v d) (hd : Unambiguous d) :
    variantActions ctx v d = [] := by
  have hsku : skuActions v d = [] := by
    rw [skuActions, h.sku, whenChanged, if_pos (beq_self_eq_true _)]
  simp only [variantActions, hsku, attributeActions_eq_nil h.attributes,
    imageActions_eq_nil h.images hd.images, priceActions_eq_nil h.prices,
    assetActions_eq_nil h.assets hd.assets, Filter.gate, ite_self, List.append_nil]

/-- The parts that only actions by id bear on. -/
def ByName (g : ActionGroup) : Prop := g = .sku ∨ g = .images ∨ g = .assets

/-- The actions on such a part name the variant that they are for. -/
theorem target_partActions {g : ActionGroup} (hg : ByName g) (h : a ∈ partActions ctx v d g) :
    target? a = some v.id := by
  rcases hg with rfl | rfl | rfl
  · exact target_skuActions h
  · exact target_imageActions h
  · exact target_assetActions h

theorem own_variantActions {g : ActionGroup} (hg : ByName g) :
    own v.id g (variantActions ctx v d) = ctx.filter.gate g (partActions ctx v d g) := by
  rw [own, ← List.filter_filter, filter_group_variantActions]
  apply List.filter_eq_self.2
  intro a ha
  rw [addresses, target_partActions hg (mem_gate.1 ha).2]
  exact beq_self_eq_true v.id

/-- Such a part of a matched variant sees what its own entry calls for. -/
theorem own_updates (h : Keyed old new) (hv : v ∈ old.allVariants) (hd : d ∈ wanted new)
    (hk : v.key = d.key) {g : ActionGroup} (hg : ByName g) :
    own v.id g (newOnes [] (updates ctx old new)) =
      ctx.filter.gate g (partActions ctx v d g) := by
  rw [← own_variantActions hg]
  refine filter_updates h hv hd hk ?_ ?_ ?_
  · intro a ha
    obtain ⟨name, value, rfl⟩ := isProductWide_iff.1 ha
    rcases hg with rfl | rfl | rfl <;> rfl
  · intro c
    rcases hg with rfl | rfl | rfl <;> rfl
  · intro w hw hne d' a ha
    by_cases hag : a.group = g
    · have hid : w.id ≠ v.id := fun he => hne (h.eq_of_id hw hv he)
      simp [addresses, target_partActions hg (mem_partActions ha hag), hid]
    · simp [hag]

/-- The entries call for nothing on such a part of a variant that none of them is paired with. -/
theorem own_of_unpaired {as : List ProductAction} (has : ∀ a ∈ as, a ∈ updates ctx old new)
    {id : UInt32} (hid : ∀ w ∈ old.allVariants, ∀ d' ∈ wanted new, w.key = d'.key → w.id ≠ id)
    {g : ActionGroup} (hg : ByName g) : own id g as = [] := by
  apply List.filter_eq_nil_iff.2
  intro a ha hto
  rw [Bool.and_eq_true, beq_iff_eq] at hto
  rcases mem_updates (has a ha) with ⟨c, -, -, rfl⟩ | ⟨d', hd', w, hw, hk, ha⟩
  · rcases hg with rfl | rfl | rfl <;> cases hto.2
  · have ht := hto.1
    rw [addresses, target_partActions hg (mem_partActions ha hto.2)] at ht
    exact hid w hw d' hd' hk (eq_of_beq ht)

/-- A matched variant gets the sku of its entry, unless changes of skus are held back. -/
theorem sku_of_matched (h : Keyed old new) (hv : v ∈ old.allVariants) (hd : d ∈ wanted new)
    (hk : v.key = d.key) : (replay variant (newOnes [] (updates ctx old new)) v).sku =
      if ctx.filter.passes .sku then d.sku else v.sku := by
  rw [replay_variant_sku, own_updates h hv hd hk (Or.inl rfl), partActions, skuActions,
    Filter.gate]
  split
  · exact replay_whenChanged fun he => he.symm
  · rfl

/-- A variant that no entry wants keeps its sku. -/
theorem sku_of_unwanted (h : Keyed old new) (hv : v ∈ old.allVariants)
    (hd : ∀ d ∈ wanted new, v.key ≠ d.key) :
    (replay variant (newOnes [] (updates ctx old new)) v).sku = v.sku := by
  have hown : own v.id .sku (newOnes [] (updates ctx old new)) = [] := by
    refine own_of_unpaired (fun a => mem_of_mem_newOnes) ?_ (Or.inl rfl)
    intro w hw d hdw hk hid
    exact hd d hdw (h.eq_of_id hw hv hid ▸ hk)
  rw [replay_variant_sku, hown]
  rfl

theorem images_of_matched (hf : ∀ g, ctx.filter.passes g = true) (h : Keyed old new)
    (hv : v ∈ old.allVariants) (hd : d ∈ wanted new) (hk : v.key = d.key) (hw : WellFormed d)
    (hc : Comparable v d) :
    (replay variant (newOnes [] (updates ctx old new)) v).images.map face = d.images.map face := by
  rw [replay_variant_images, own_updates h hv hd hk (Or.inr (Or.inl rfl)), gate_eq_self hf]
  exact replay_imageActions hc.images hw.images

theorem assets_of_matched (hf : ∀ g, ctx.filter.passes g = true) (h : Keyed old new)
    (hv : v ∈ old.allVariants) (hd : d ∈ wanted new) (hk : v.key = d.key) (hw : WellFormed d)
    (hc : Comparable v d) :
    keyedAssets (replay variant (newOnes [] (updates ctx old new)) v).assets =
      keyedAssets d.assets := by
  rw [replay_variant_assets, own_updates h hv hd hk (Or.inr (Or.inr rfl)), gate_eq_self hf]
  exact replay_assetActions hc.assets hw.assets

/-! ### Prices of a matched variant -/

/-- The action is for a price with one of the ids, or adds one to the variant. -/
def touches (ids : List String) (id : UInt32) : ProductAction → Bool
  | .removePrice i => ids.contains i
  | .changePrice i _ => ids.contains i
  | .addPrice v _ => v == id
  | _ => false

theorem mem_priceIds {i : String} : i ∈ priceIds v ↔ ∃ o ∈ v.prices, o.id = some i :=
  List.mem_filterMap

/-- What a variant and an entry call for in prices: removals and changes of prices of the variant,
    and additions of prices of the entry. -/
theorem mem_priceActions (h : a ∈ priceActions v d) :
    (∃ i ∈ priceIds v, a = .removePrice i) ∨
      (∃ i ∈ priceIds v, ∃ p, a = .changePrice i p) ∨ ∃ p ∈ d.prices, a = .addPrice v.id p := by
  rcases List.mem_append.1 h with h | h
  · obtain ⟨o, ho, h⟩ := List.mem_flatMap.1 h
    obtain ⟨i, hi, rfl⟩ := dropPriceActions_mem h
    exact Or.inl ⟨i, mem_priceIds.2 ⟨o, ho, hi⟩, rfl⟩
  · obtain ⟨p, hp, h⟩ := List.mem_flatMap.1 h
    rcases placePriceActions_mem h with ⟨o, ho, i, hi, rfl⟩ | rfl
    · exact Or.inr (Or.inl ⟨i, mem_priceIds.2 ⟨o, ho, hi⟩, p, rfl⟩)
    · exact Or.inr (Or.inr ⟨p, hp, rfl⟩)

theorem touches_priceActions (h : a ∈ priceActions v d) : touches (priceIds v) v.id a = true := by
  rcases mem_priceActions h with ⟨i, hi, rfl⟩ | ⟨i, hi, p, rfl⟩ | ⟨p, -, rfl⟩
  · exact List.contains_iff_mem.2 hi
  · exact List.contains_iff_mem.2 hi
  · exact beq_self_eq_true v.id

theorem touches_of_group {ids : List String} {id : UInt32} (h : a.group ≠ .prices) :
    touches ids id a = false := by
  cases a <;> first | rfl | exact absurd rfl h

theorem PriceIds.apart (h : PriceIds old new) (hv : v ∈ old.allVariants) (hw : w ∈ old.allVariants)
    (hne : v ≠ w) {i : String} (hi : i ∈ priceIds v) : i ∉ priceIds w := by
  have hp := (List.nodup_flatMap.1 h.distinct).2
  have : Std.Symm (Function.onFun List.Disjoint priceIds) := ⟨fun _ _ h i hi hi' => h hi' hi⟩
  exact fun hi' => List.Pairwise.forall hp hv hw hne hi hi'

/-- What the entries call for does not touch the prices of a variant, unless its own entry calls
    for it. -/
theorem touches_other (h : Keyed old new) (hp : PriceIds old new) (hv : v ∈ old.allVariants)
    (hw : w ∈ old.allVariants) (hne : w ≠ v) (ha : a ∈ variantActions ctx w d) :
    touches (priceIds v) v.id a = false := by
  by_cases hg : a.group = .prices
  · rcases mem_priceActions (mem_partActions ha hg) with
      ⟨i, hi, rfl⟩ | ⟨i, hi, p, rfl⟩ | ⟨p, -, rfl⟩
    · exact Bool.eq_false_iff.2 fun hc => hp.apart hw hv hne hi (List.contains_iff_mem.1 hc)
    · exact Bool.eq_false_iff.2 fun hc => hp.apart hw hv hne hi (List.contains_iff_mem.1 hc)
    · exact beq_eq_false_iff_ne.2 fun he => hne (h.eq_of_id hw hv he)
  · exact touches_of_group hg

/-- The actions on prices address stored prices, or add prices of the draft. -/
theorem price_of_updates (h : a ∈ updates ctx old new) (hg : a.group = .prices) :
    (∃ i ∈ old.allVariants.flatMap priceIds, a = .removePrice i ∨ ∃ p, a = .changePrice i p) ∨
      ∃ d ∈ wanted new, ∃ p ∈ d.prices, ∃ w ∈ old.allVariants, w.key = d.key ∧
        a = .addPrice w.id p := by
  rcases mem_updates h with ⟨d, -, -, rfl⟩ | ⟨d, hd, w, hw, hk, ha⟩
  · cases hg
  · have hall {i : String} (hi : i ∈ priceIds w) : i ∈ old.allVariants.flatMap priceIds :=
      List.mem_flatMap.2 ⟨w, hw, hi⟩
    rcases mem_priceActions (mem_partActions ha hg) with
      ⟨i, hi, rfl⟩ | ⟨i, hi, p, rfl⟩ | ⟨p, hp, rfl⟩
    · exact Or.inl ⟨i, hall hi, Or.inl rfl⟩
    · exact Or.inl ⟨i, hall hi, Or.inr ⟨p, rfl⟩⟩
    · exact Or.inr ⟨d, hd, p, hp, w, hw, hk, rfl⟩

/-- Removals and changes by an id that no price has do nothing. -/
theorem prices_of_unknown {i : String} {xs : List Price} (hx : ∀ q ∈ xs, q.id ≠ some i)
    (h : a = .removePrice i ∨ ∃ p, a = .changePrice i p) : prices a xs = xs := by
  have hnone : ∀ q ∈ xs, (q.id == some i) = false :=
    fun q hq => beq_eq_false_iff_ne.2 (hx q hq)
  rcases h with rfl | ⟨p, rfl⟩
  · exact List.eraseP_of_forall_not fun q hq => by simp [hnone q hq]
  · exact changeFirst_of_none hnone

/-- A price that a matched variant may hold on the way: one of its own, or one of the draft. -/
def Allowed (old : Product) (v : Variant) (q : Price) : Prop :=
  ∀ i, q.id = some i → i ∈ priceIds v ∨ i ∉ old.allVariants.flatMap priceIds

theorem allowed_prices (hp : PriceIds old new) (ha : a ∈ updates ctx old new) {xs : List Price}
    (hx : ∀ q ∈ xs, Allowed old v q) : ∀ q ∈ prices a xs, Allowed old v q := by
  by_cases hg : a.group = .prices
  · rcases price_of_updates ha hg with ⟨i, -, rfl | ⟨p, rfl⟩⟩ | ⟨d, hd, p, hpd, w, -, -, rfl⟩
    · intro q hq
      exact hx q (List.mem_of_mem_eraseP hq)
    · intro q hq
      rcases mem_changeFirst hq with hq | ⟨r, hr, rfl⟩
      · exact hx q hq
      · exact hx r hr
    · intro q hq
      rcases List.mem_append.1 hq with hq | hq
      · exact hx q hq
      · rw [List.mem_singleton.1 hq]
        exact fun i hi => Or.inr (hp.fresh d hd p hpd i hi)
  · rw [prices_of_group hg]
    exact hx

theorem own_of_touches {ids : List String} {id : UInt32} (h : touches ids id a = true) :
    (addresses id a && a.group == .prices) = true := by
  cases a
  case removePrice i => rfl
  case changePrice i p => rfl
  case addPrice w p =>
    have h : (w == id) = true := h
    show ((w == id) && true) = true
    rw [h]
    rfl
  all_goals cases h

theorem filter_touches (hf : ∀ g, ctx.filter.passes g = true) (v : Variant) (d : VariantDraft) :
    (variantActions ctx v d).filter (touches (priceIds v) v.id) = priceActions v d := by
  rw [filter_variantActions fun a => touches_of_group, gate_eq_self hf]
  exact List.filter_eq_self.2 fun a ha => touches_priceActions ha

/-- The prices of a matched variant see what its own entry calls for. -/
theorem prices_updates (hf : ∀ g, ctx.filter.passes g = true) (h : Keyed old new)
    (hp : PriceIds old new) (hv : v ∈ old.allVariants) (hd : d ∈ wanted new) (hk : v.key = d.key) :
    (replay variant (newOnes [] (updates ctx old new)) v).prices =
      replay prices (priceActions v d) v.prices := by
  have hown : (own v.id .prices (newOnes [] (updates ctx old new))).filter
      (touches (priceIds v) v.id) = priceActions v d := by
    have hsame : (own v.id .prices (newOnes [] (updates ctx old new))).filter
        (touches (priceIds v) v.id) =
        (newOnes [] (updates ctx old new)).filter (touches (priceIds v) v.id) := by
      rw [own, List.filter_filter]
      apply List.filter_congr
      intro a _
      cases ht : touches (priceIds v) v.id a with
      | false => rfl
      | true => rw [own_of_touches ht]; rfl
    rw [hsame, filter_updates h hv hd hk]
    · exact filter_touches hf v d
    · intro a ha
      obtain ⟨name, value, rfl⟩ := isProductWide_iff.1 ha
      rfl
    · exact fun _ => rfl
    · exact fun w hw hne d' a ha => touches_other h hp hv hw hne ha
  -- what does not touch its prices addresses prices that it never comes to hold
  rw [replay_variant_prices, ← hown]
  refine replay_filter (I := fun xs => ∀ q ∈ xs, Allowed old v q) ?_ ?_ ?_
  · intro a ha _ xs hx
    exact allowed_prices hp (mem_of_mem_newOnes (List.mem_filter.1 ha).1) hx
  · intro a ha ht xs hx
    obtain ⟨ha, hg⟩ := List.mem_filter.1 ha
    rw [Bool.and_eq_true, beq_iff_eq] at hg
    rcases price_of_updates (mem_of_mem_newOnes ha) hg.2 with
      ⟨i, hi, he⟩ | ⟨d', -, p, -, w, -, -, rfl⟩
    · have hnot : i ∉ priceIds v := by
        intro hin
        have hc := List.contains_iff_mem.2 hin
        rcases he with rfl | ⟨p, rfl⟩
        · exact Bool.false_ne_true (ht.symm.trans hc)
        · exact Bool.false_ne_true (ht.symm.trans hc)
      refine prices_of_unknown ?_ he
      intro q hq hqi
      rcases hx q hq i hqi with hin | hout
      · exact hnot hin
      · exact hout hi
    · -- an addition for this variant does touch its prices
      exact absurd hg.1 (Bool.eq_false_iff.1 ht)
  · intro q hq i hi
    exact Or.inl (mem_priceIds.2 ⟨q, hq, hi⟩)

theorem priced_of_comparable (hp : PriceIds old new) (hv : v ∈ old.allVariants)
    (hc : Comparable v d) : Priced v.prices d.prices :=
  ⟨hc.identified, (List.nodup_flatMap.1 hp.distinct).1 v hv, hc.left, hc.right⟩

/-! ### Attributes of a matched variant -/

/-- The entries agree on the attributes that are the same for all variants. -/
def SameForAll (ctx : DiffContext) (new : ProductDraft) : Prop :=
  ∀ n, ctx.isSameForAll n = true → ∀ d ∈ wanted new, ∀ d' ∈ wanted new,
    (d.attributes.get? n == d'.attributes.get? n) = true

instance (ctx : DiffContext) (new : ProductDraft) : Decidable (SameForAll ctx new) :=
  decidable_of_iff (∀ n ∈ ctx.sameForAll.elems, ∀ d ∈ wanted new, ∀ d' ∈ wanted new,
      (d.attributes.get? n == d'.attributes.get? n) = true) <|
    forall_congr' fun _ => imp_congr_left SortedSet.contains_iff.symm

theorem written_group {n : String} {x : Option Json} (h : written? n a = some x) :
    a.group = .attributes := by
  cases a <;> first | rfl | cases h

/-- A write names its variant, or the attribute is the same for all variants. -/
theorem target_or_sameForAll {n : String} {x : Option Json} (h : a ∈ attributeActions ctx v d)
    (hx : written? n a = some x) : target? a = some v.id ∨ ctx.isSameForAll n = true := by
  obtain ⟨name, -, rfl⟩ := mem_attributeActions.1 h
  rw [written_writeAttribute] at hx
  split at hx
  · next hname =>
    unfold writeAttribute
    rw [hname]
    split
    · next hs => exact Or.inr hs
    · exact Or.inl rfl
  · cases hx

/-- All that is written for a variant is what `d` has, if no entry but `d` is paired with a stored
    variant of that id. -/
theorem written_updates (hs : SameForAll ctx new) (hd : d ∈ wanted new) {id : UInt32}
    (hid : ∀ w ∈ old.allVariants, ∀ d' ∈ wanted new, w.key = d'.key → w.id = id → d' = d)
    (ha : a ∈ updates ctx old new) (hto : addresses id a = true) {n : String} {x : Option Json}
    (hx : written? n a = some x) : (x == d.attributes.get? n) = true := by
  rcases mem_updates ha with ⟨c, -, -, rfl⟩ | ⟨d', hd', w, hw, hk, ha⟩
  · cases hx
  · have ha : a ∈ attributeActions ctx w d' := mem_partActions ha (written_group hx)
    rw [written_attributeActions ha hx]
    rcases target_or_sameForAll ha hx with ht | hn
    · rw [addresses, ht] at hto
      rw [hid w hw d' hd' hk (eq_of_beq hto)]
      exact BEq.rfl
    · exact hs n hn d' hd' d hd

theorem attributes_of_matched (h : Keyed old new) (hf : ∀ g, ctx.filter.passes g = true)
    (hs : SameForAll ctx new) (hv : v ∈ old.allVariants) (hd : d ∈ wanted new)
    (hk : v.key = d.key) :
    Agree (replay variant (newOnes [] (updates ctx old new)) v).attributes d.attributes := by
  intro n
  rw [replay_variant_attributes]
  refine replay_attributes ?_ ?_
  · intro a ha x hx
    obtain ⟨ha, hto⟩ := List.mem_filter.1 ha
    refine written_updates hs hd ?_ (mem_of_mem_newOnes ha) (Bool.and_eq_true_iff.1 hto).1 hx
    intro w hw d' hd' hwk hwid
    exact entry_eq h.wanted hd' hd (hwk.symm.trans (h.eq_of_id hw hv hwid ▸ hk))
  · cases hsame : v.attributes.get? n == d.attributes.get? n with
    | true => exact Or.inl rfl
    | false =>
      -- what the entry calls for is collected, or something equal to it is
      obtain ⟨a, ha, hw⟩ := @exists_write ctx v d n hsame
      have hto : addresses v.id a = true := by
        unfold addresses
        cases ht : target? a with
        | none => rfl
        | some i => exact beq_iff_eq.2 (target_attributeActions ha ht)
      have hgroup : a.group = .attributes := group_attributeActions ha
      have hmem : a ∈ updates ctx old new :=
        mem_updates_of_matched h hv hd hk (mem_variantActions (hf .attributes) ha)
      rcases @exists_newOnes a (updates ctx old new) [] hmem with hin | ⟨hwide, b, hb, he⟩
      · exact Or.inr ⟨a, List.mem_filter.2 ⟨hin, by simp [hto, hgroup]⟩, hw⟩
      · obtain ⟨name, value, rfl⟩ := isProductWide_iff.1 hwide
        obtain ⟨value', rfl, -⟩ := eq_of_beq_productWide he
        have hname : name = n := by
          by_contra hne
          rw [written?, if_neg hne] at hw
          cases hw
        refine Or.inr ⟨_, List.mem_filter.2 ⟨hb, rfl⟩, ?_⟩
        rw [written?, if_pos hname]
        rfl

/-! ### Whole variants -/

/-- A matched variant comes to reflect its entry. -/
theorem reflects_of_matched (hf : ∀ g, ctx.filter.passes g = true) (h : Keyed old new)
    (hp : PriceIds old new) (hs : SameForAll ctx new) (hv : v ∈ old.allVariants)
    (hd : d ∈ wanted new) (hk : v.key = d.key) (hw : WellFormed d) (hc : Comparable v d) :
    Reflects (replay variant (newOnes [] (updates ctx old new)) v) d where
  key := (replay_variant_key _ v).trans hk
  sku := (sku_of_matched h hv hd hk).trans (if_pos (hf _))
  attributes := attributes_of_matched h hf hs hv hd hk
  images := images_of_matched hf h hv hd hk hw hc
  prices := by
    rw [prices_updates hf h hp hv hd hk]
    exact replay_priceActions (priced_of_comparable hp hv hc) hw.prices
  assets := assets_of_matched hf h hv hd hk hw hc

/-- A variant under a new id keeps the sku that it was added with. -/
theorem sku_of_added {as : List ProductAction} (has : ∀ a ∈ as, a ∈ updates ctx old new)
    {id : UInt32}
    (hid : ∀ w ∈ old.allVariants, ∀ d' ∈ wanted new, w.key = d'.key → w.id ≠ id) :
    (replay variant as (.ofDraft id d)).sku = d.sku := by
  rw [replay_variant_sku, Variant.ofDraft, own_of_unpaired has hid (Or.inl rfl)]
  rfl

/-- A variant under a new id that has the content of an entry reflects it, and keeps doing so. -/
theorem reflects_of_added (hp : PriceIds old new) (hs : SameForAll ctx new)
    {as : List ProductAction} (has : ∀ a ∈ as, a ∈ updates ctx old new) {id : UInt32}
    (hid : ∀ w ∈ old.allVariants, ∀ d' ∈ wanted new, w.key = d'.key → w.id ≠ id)
    (hd : d ∈ wanted new) (hw : WellFormed d) :
    Reflects (replay variant as (.ofDraft id d)) d := by
  have hown {g : ActionGroup} (hg : ByName g) : own id g as = [] := own_of_unpaired has hid hg
  refine ⟨replay_variant_key _ _, sku_of_added has hid, ?_, ?_, ?_, ?_⟩
  · intro n
    rw [replay_variant_attributes]
    refine replay_attributes ?_ (Or.inl BEq.rfl)
    intro a ha x hx
    obtain ⟨ha, hto⟩ := List.mem_filter.1 ha
    refine written_updates hs hd ?_ (has a ha) (Bool.and_eq_true_iff.1 hto).1 hx
    intro w hw d' hd' hk he
    exact absurd he (hid w hw d' hd' hk)
  · rw [replay_variant_images, Variant.ofDraft, hown (Or.inr (Or.inl rfl))]
    rfl
  · have hidle : replay prices (own id .prices as) d.prices = d.prices := by
      apply replay_of_idle
      intro a ha
      obtain ⟨ha, hto⟩ := List.mem_filter.1 ha
      rw [Bool.and_eq_true, beq_iff_eq] at hto
      rcases price_of_updates (has a ha) hto.2 with ⟨i, hi, he⟩ | ⟨d', hd', p, -, w, hw, hk, rfl⟩
      · exact prices_of_unknown (fun q hq hqi => hp.fresh d hd q hq i hqi hi) he
      · exact absurd (eq_of_beq hto.1) (hid w hw d' hd' hk)
    rw [replay_variant_prices, Variant.ofDraft, hidle]
    exact hw.prices.serve
  · rw [replay_variant_assets, Variant.ofDraft, hown (Or.inr (Or.inr rfl))]
    rfl

end CatalogSync.Diff
