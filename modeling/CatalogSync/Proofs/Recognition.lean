import Mathlib.Data.List.Duplicate
import CatalogSync.Proofs.Convergence

/- What is stored for a draft is recognised by the diff: a product that was just created for a
   draft, or for an equal one, needs no action, whatever passes the filter. Each variant reflects
   the entry it was made of (`reflects_ofDraft`), so the variants are in step with the draft
   (`inStep_ofDraft`), null entries and blank keys included. Equality of drafts is an equivalence;
   equal drafts may differ in how the numbers within attributes are written, and in nothing else
   (`ProductDraft.beq_iff`). Main statement: `productPlan_ofDraft`. -/
namespace CatalogSync

/-! ### Equality of parts -/

section Parts

variable {α β : Type} [BEq α] [BEq β] [PartialEquivBEq α] [PartialEquivBEq β]

instance partialEquivOption : PartialEquivBEq (Option α) where
  symm {x y} h := match x, y, h with
    | none, none, _ => rfl
    | some _, some _, h => BEq.symm (α := α) h
  trans {x y z} h h' := match x, y, z, h, h' with
    | none, none, none, _, _ => rfl
    | some _, some _, some _, h, h' => BEq.trans (α := α) h h'

instance partialEquivProd : PartialEquivBEq (α × β) where
  symm {x y} h := by
    have h : (x.1 == y.1 && x.2 == y.2) = true := h
    obtain ⟨h₁, h₂⟩ := Bool.and_eq_true_iff.1 h
    exact Bool.and_eq_true_iff.2 ⟨BEq.symm h₁, BEq.symm h₂⟩
  trans {x y z} h h' := by
    have h : (x.1 == y.1 && x.2 == y.2) = true := h
    have h' : (y.1 == z.1 && y.2 == z.2) = true := h'
    obtain ⟨h₁, h₂⟩ := Bool.and_eq_true_iff.1 h
    obtain ⟨h₁', h₂'⟩ := Bool.and_eq_true_iff.1 h'
    exact Bool.and_eq_true_iff.2 ⟨BEq.trans h₁ h₁', BEq.trans h₂ h₂'⟩

theorem beq_symm_list : ∀ {xs ys : List α}, (xs == ys) = true → (ys == xs) = true
  | [], [], _ => rfl
  | [], _ :: _, h => by cases h
  | _ :: _, [], h => by cases h
  | x :: xs, y :: ys, h => by
    have h : (x == y && xs == ys) = true := h
    obtain ⟨first, others⟩ := Bool.and_eq_true_iff.1 h
    exact Bool.and_eq_true_iff.2 ⟨BEq.symm first, beq_symm_list others⟩

theorem beq_trans_list : ∀ {xs ys zs : List α},
    (xs == ys) = true → (ys == zs) = true → (xs == zs) = true
  | [], [], _, _, h' => h'
  | [], _ :: _, _, h, _ => by cases h
  | _ :: _, [], _, h, _ => by cases h
  | _ :: _, _ :: _, [], _, h' => by cases h'
  | x :: xs, y :: ys, z :: zs, h, h' => by
    have h : (x == y && xs == ys) = true := h
    have h' : (y == z && ys == zs) = true := h'
    obtain ⟨first, others⟩ := Bool.and_eq_true_iff.1 h
    obtain ⟨first', others'⟩ := Bool.and_eq_true_iff.1 h'
    exact Bool.and_eq_true_iff.2 ⟨BEq.trans first first', beq_trans_list others others'⟩

instance partialEquivList : PartialEquivBEq (List α) := ⟨beq_symm_list, beq_trans_list⟩

instance [LT α] : PartialEquivBEq (SortedMap α β) where
  symm h := BEq.symm (α := List (α × β)) h
  trans h h' := BEq.trans (α := List (α × β)) h h'

end Parts

/-! ### Equal drafts -/

instance {κ α : Type} [LT κ] [BEq κ] [BEq α] [ReflBEq κ] [ReflBEq α] : ReflBEq (SortedMap κ α) where
  rfl := beq_self_eq_true (_ : List (κ × α))

theorem VariantDraft.beq_iff {c d : VariantDraft} : (c == d) = true ↔
    c.key = d.key ∧ c.sku = d.sku ∧ (c.attributes == d.attributes) = true ∧ c.images = d.images ∧
      c.prices = d.prices ∧ c.assets = d.assets := by
  have unfolded : (c == d) = (c.key == d.key && (c.sku == d.sku && (c.attributes == d.attributes &&
    (c.images == d.images && (c.prices == d.prices && c.assets == d.assets))))) := rfl
  rw [unfolded]
  simp only [Bool.and_eq_true, beq_iff_eq]

instance : EquivBEq VariantDraft where
  rfl := VariantDraft.beq_iff.2 ⟨rfl, rfl, BEq.rfl, rfl, rfl, rfl⟩
  symm h := by
    obtain ⟨key, sku, attributes, images, prices, assets⟩ := VariantDraft.beq_iff.1 h
    exact VariantDraft.beq_iff.2
      ⟨key.symm, sku.symm, BEq.symm attributes, images.symm, prices.symm, assets.symm⟩
  trans h h' := by
    obtain ⟨key, sku, attributes, images, prices, assets⟩ := VariantDraft.beq_iff.1 h
    obtain ⟨key', sku', attributes', images', prices', assets'⟩ := VariantDraft.beq_iff.1 h'
    exact VariantDraft.beq_iff.2 ⟨key.trans key', sku.trans sku', BEq.trans attributes attributes',
      images.trans images', prices.trans prices', assets.trans assets'⟩

theorem ProductDraft.beq_iff {c d : ProductDraft} : (c == d) = true ↔
    c.toProductDetails = d.toProductDetails ∧ c.publish = d.publish ∧
      (c.masterVariant == d.masterVariant) = true ∧ (c.variants == d.variants) = true := by
  have unfolded : (c == d) = (c.toProductDetails == d.toProductDetails && (c.publish == d.publish &&
    (c.masterVariant == d.masterVariant && c.variants == d.variants))) := rfl
  rw [unfolded]
  simp only [Bool.and_eq_true, beq_iff_eq]

instance : EquivBEq ProductDraft where
  rfl := ProductDraft.beq_iff.2 ⟨rfl, rfl, BEq.rfl, BEq.rfl⟩
  symm h := by
    obtain ⟨details, publish, masters, others⟩ := ProductDraft.beq_iff.1 h
    exact ProductDraft.beq_iff.2
      ⟨details.symm, publish.symm, BEq.symm masters, BEq.symm others⟩
  trans h h' := by
    obtain ⟨details, publish, masters, others⟩ := ProductDraft.beq_iff.1 h
    obtain ⟨details', publish', masters', others'⟩ := ProductDraft.beq_iff.1 h'
    exact ProductDraft.beq_iff.2 ⟨details.trans details', publish.trans publish',
      BEq.trans masters masters', BEq.trans others others'⟩

namespace Diff

open CatalogSync.Edit

theorem lookupEntry_beq {name : String} : ∀ {es es' : List (String × Json)}, (es == es') = true →
    (SortedMap.lookupEntry name es == SortedMap.lookupEntry name es') = true
  | [], [], _ => rfl
  | [], _ :: _, h => by cases h
  | _ :: _, [], h => by cases h
  | e :: es, e' :: es', h => by
    have h : (e == e' && es == es') = true := h
    rw [Bool.and_eq_true] at h
    obtain ⟨he, hes⟩ := h
    have he : (e.1 == e'.1 && e.2 == e'.2) = true := he
    rw [Bool.and_eq_true, beq_iff_eq] at he
    obtain ⟨hname, hvalue⟩ := he
    rw [SortedMap.lookupEntry, SortedMap.lookupEntry, hname]
    split
    · exact hvalue
    · exact lookupEntry_beq hes

/-- Equal maps of attributes agree. -/
theorem agree_of_beq {m m' : SortedMap String Json} (h : (m == m') = true) : Agree m m' :=
  fun _ => lookupEntry_beq h

/-! ### Variants -/

/-- The entries of a draft that are not null. -/
def presentEntries (new : ProductDraft) : List VariantDraft := new.allVariants.filterMap id

/-- The variants of a draft have keys, its references say what they refer to, and the parts of a
    variant can be told apart. -/
structure Tidy (new : ProductDraft) : Prop where
  keyed : ∀ d ∈ presentEntries new, d.key.isSome = true
  unambiguous : ∀ d ∈ presentEntries new, Unambiguous d
  categories : ∀ c ∈ new.categories, c.named = true
  taxCategory : ∀ c ∈ new.taxCategory, c.named = true
  state : ∀ s ∈ new.state, s.named = true

instance (new : ProductDraft) : Decidable (Tidy new) :=
  decidable_of_iff (_ ∧ _ ∧ _ ∧ _ ∧ _) ⟨fun ⟨h₁, h₂, h₃, h₄, h₅⟩ => ⟨h₁, h₂, h₃, h₄, h₅⟩,
    fun h => ⟨h.keyed, h.unambiguous, h.categories, h.taxCategory, h.state⟩⟩

/-- What the diff has to be able to rely on in a draft to recognise what was stored for it. -/
structure Recognizable (new : ProductDraft) : Prop extends Tidy new where
  distinct : new.variantKeys.Nodup

instance (new : ProductDraft) : Decidable (Recognizable new) :=
  decidable_of_iff (Tidy new ∧ new.variantKeys.Nodup)
    ⟨fun ⟨tidy, distinct⟩ => ⟨tidy, distinct⟩, fun h => ⟨h.toTidy, h.distinct⟩⟩

variable {ctx : DiffContext} {rid : ResourceId} {c d : VariantDraft} {draft new : ProductDraft}

theorem mem_presentEntries : d ∈ presentEntries new ↔ some d ∈ new.allVariants := by
  simp [presentEntries]

theorem present_of_wanted (h : d ∈ wanted new) : d ∈ presentEntries new :=
  mem_presentEntries.2 (mem_keyedEntries.1 h).1

/-- After a list of keys was met, those met again are the ones that were so before, and those that
    occur twice among the keys before and in the list. -/
theorem mem_foldl_meetKey {k : String} (ks : List String)
    (met : SortedSet String × SortedSet String) : k ∈ (ks.foldl ProductDraft.meetKey met).2 ↔
      k ∈ met.2 ∨ (k ∈ met.1 ∧ k ∈ ks) ∨ List.Duplicate k ks := by
  induction ks generalizing met with
  | nil => simp [List.not_duplicate_nil]
  | cons k' ks ih =>
    rw [List.foldl_cons, ih, List.duplicate_cons_iff, List.mem_cons, ProductDraft.meetKey]
    by_cases known : met.1.contains k' = true
    · have there : k' ∈ met.1 := SortedSet.contains_iff.1 known
      rw [if_pos known]
      simp only [SortedSet.mem_insert]
      grind
    · have new : ¬ k' ∈ met.1 := SortedSet.contains_iff.not.1 known
      rw [if_neg known]
      simp only [SortedSet.mem_insert]
      grind

/-- The repeated keys are those that occur at least twice. -/
theorem mem_repeatedVariantKeys {k : String} :
    k ∈ new.repeatedVariantKeys ↔ List.Duplicate k new.variantKeys := by
  rw [ProductDraft.repeatedVariantKeys, mem_foldl_meetKey]
  simp

theorem nodup_variantKeys (once : new.repeatedVariantKeys.toList = []) :
    new.variantKeys.Nodup := by
  refine List.nodup_iff_forall_not_duplicate.2 fun k again => ?_
  have listed : k ∈ new.repeatedVariantKeys.toList := mem_repeatedVariantKeys.2 again
  rw [once] at listed
  exact List.not_mem_nil listed

/-- A tidy draft without repeated keys can be recognised. -/
theorem Tidy.recognizable (tidy : Tidy new) (once : new.repeatedVariantKeys.toList = []) :
    Recognizable new := ⟨tidy, nodup_variantKeys once⟩

/-- The keys tell the entries apart. -/
theorem Recognizable.eq_of_key (h : Recognizable new) (hc : c ∈ presentEntries new)
    (hd : d ∈ presentEntries new) (hk : c.key = d.key) : c = d := by
  have hkeys : ((presentEntries new).filterMap (·.key)).Nodup := by
    rw [presentEntries, List.filterMap_filterMap]
    exact h.distinct
  exact List.inj_on_of_nodup_map (nodup_map_of_filterMap h.keyed hkeys) hc hd hk

/-- A variant that was stored for an entry reflects every entry that is equal to it. -/
theorem reflects_ofDraft (n : UInt32) (same : (c == d) = true) (hd : Unambiguous d) :
    Reflects (.ofDraft n c) d := by
  obtain ⟨key, sku, attributes, images, prices, assets⟩ := VariantDraft.beq_iff.1 same
  refine ⟨key, sku, agree_of_beq attributes, congrArg _ images, ?_, congrArg _ assets⟩
  show PricesServe c.prices d.prices
  rw [prices]
  exact hd.prices.serve

/-- The stored variants reflect the entries, in their order; null entries are left out. -/
theorem reflects_numbered : ∀ {n : UInt32} {es es' : List (Option VariantDraft)},
    (es == es') = true → (∀ d ∈ es'.filterMap id, Unambiguous d) →
      List.Forall₂ Reflects (Product.numbered n (es.filterMap id)) (es'.filterMap id)
  | _, [], [], _, _ => .nil
  | _, [], _ :: _, same, _ => by cases same
  | _, _ :: _, [], same, _ => by cases same
  | n, e :: es, e' :: es', same, h => by
    have same : (e == e' && es == es') = true := same
    rw [Bool.and_eq_true] at same
    obtain ⟨first, others⟩ := same
    cases e with
    | none =>
      cases e' with
      | none => exact @reflects_numbered n es es' others h
      | some d => cases first
    | some c =>
      cases e' with
      | none => cases first
      | some d =>
        have hd := h d (List.mem_cons_self ..)
        refine .cons (reflects_ofDraft n first hd) (reflects_numbered others ?_)
        exact fun d' hd' => h d' (List.mem_cons_of_mem d hd')

/-- The stored master reflects the one of the draft, if there is one; else it has no key. -/
theorem master_ofDraft (rid : ResourceId) (same : (draft == new) = true) (h : Recognizable new) :
    (new.masterVariant = none ∧ (Product.ofDraft rid draft).masterVariant.key = none) ∨
      ∃ m, new.masterVariant = some m ∧ Reflects (Product.ofDraft rid draft).masterVariant m := by
  obtain ⟨-, -, masters, -⟩ := ProductDraft.beq_iff.1 same
  cases hn : new.masterVariant with
  | none =>
    cases hd : draft.masterVariant with
    | none => exact .inl ⟨rfl, by rw [Product.ofDraft, hd]; rfl⟩
    | some c =>
      rw [hd, hn] at masters
      cases masters
  | some m =>
    cases hd : draft.masterVariant with
    | none =>
      rw [hd, hn] at masters
      cases masters
    | some c =>
      rw [hd, hn] at masters
      have hm : m ∈ presentEntries new :=
        mem_presentEntries.2 (by rw [ProductDraft.allVariants, hn]; exact List.mem_cons_self ..)
      refine .inr ⟨m, rfl, ?_⟩
      rw [Product.ofDraft, hd]
      exact reflects_ofDraft 1 masters (h.unambiguous m hm)

theorem variants_ofDraft (rid : ResourceId) (same : (draft == new) = true) (h : Recognizable new) :
    List.Forall₂ Reflects (Product.ofDraft rid draft).variants (new.variants.filterMap id) := by
  obtain ⟨-, -, -, others⟩ := ProductDraft.beq_iff.1 same
  refine reflects_numbered others fun d hd => h.unambiguous d (mem_presentEntries.2 ?_)
  exact List.mem_cons_of_mem _ (by simpa using hd)

/-- Every stored variant with a key reflects an entry. -/
theorem exists_entry_ofDraft (same : (draft == new) = true) (h : Recognizable new) {v : Variant}
    (hv : v ∈ (Product.ofDraft rid draft).allVariants) (hk : v.key ≠ none) :
    ∃ d ∈ presentEntries new, Reflects v d := by
  rcases List.mem_cons.1 hv with rfl | hv
  · rcases master_ofDraft rid same h with ⟨-, hnone⟩ | ⟨m, hm, hr⟩
    · exact absurd hnone hk
    · exact ⟨m, mem_presentEntries.2 (hm ▸ List.mem_cons_self ..), hr⟩
  · obtain ⟨d, hd, hr⟩ := exists_of_forall₂_left (variants_ofDraft rid same h) v hv
    exact ⟨d, mem_presentEntries.2 (List.mem_cons_of_mem _ (by simpa using hd)), hr⟩

/-- Every entry is reflected by a stored variant. -/
theorem exists_variant_ofDraft (same : (draft == new) = true) (h : Recognizable new)
    (hd : d ∈ presentEntries new) :
    ∃ v ∈ (Product.ofDraft rid draft).allVariants, Reflects v d := by
  rcases List.mem_cons.1 (mem_presentEntries.1 hd) with hm | hd
  · rcases master_ofDraft rid same h with ⟨hnone, -⟩ | ⟨m, hm', hr⟩
    · rw [hnone] at hm
      cases hm
    · rw [hm'] at hm
      cases hm
      exact ⟨_, List.mem_cons_self .., hr⟩
  · obtain ⟨v, hv, hr⟩ := exists_of_forall₂_left (variants_ofDraft rid same h).flip d
      (by simpa using hd)
    exact ⟨v, List.mem_cons_of_mem _ hv, hr⟩

/-- The variants of a product that was just created are in step with the draft. -/
theorem inStep_ofDraft (same : (draft == new) = true) (h : Recognizable new) :
    InStep (Product.ofDraft rid draft) new where
  kept v hv := by
    obtain ⟨d, hd, hr⟩ := exists_of_forall₂_left (variants_ofDraft rid same h) v hv
    have hd : d ∈ presentEntries new :=
      mem_presentEntries.2 (List.mem_cons_of_mem _ (by simpa using hd))
    obtain ⟨k, hk⟩ := Option.isSome_iff_exists.1 (h.keyed d hd)
    exact not_dropped_iff.2
      ⟨k, mem_variantKeys.2 ⟨some d, mem_presentEntries.1 hd, d, rfl, hk⟩, hr.key.trans hk⟩
  present d hd := by
    obtain ⟨v, hv, hr⟩ := exists_variant_ofDraft same h (present_of_wanted hd)
    exact ⟨v, hv, hr.key⟩
  reflects v hv d hd hk := by
    obtain ⟨k, hdk⟩ := exists_key_of_not_blank (mem_keyedEntries.1 hd).2
    obtain ⟨c, hc, hr⟩ := exists_entry_ofDraft same h hv (by simp [hk, hdk])
    -- no other entry has the key
    rw [← h.eq_of_key hc (present_of_wanted hd) (hr.key.symm.trans hk)]
    exact hr
  master m hm := by
    rcases master_ofDraft rid same h with ⟨hnone, -⟩ | ⟨m', hm', hr⟩
    · rw [hnone] at hm
      cases hm
    · rw [hm'] at hm
      cases hm
      exact hr.key

/-! ### Details -/

/-- Named categories cover themselves. -/
theorem covers_self {cs : List Reference} (h : ∀ c ∈ cs, c.named = true) : Covers cs cs :=
  have self : ∀ c ∈ cs, cs.any c.isEquivalent = true := fun c hc =>
    List.any_eq_true.2 ⟨c, hc, Reference.isEquivalent_self (h c hc)⟩
  ⟨self, self⟩

/-- The details that are stored for a draft are as it wants them. -/
theorem describes_ofDraft (same : draft.toProductDetails = new.toProductDetails)
    (h : Recognizable new) : Describes (Product.ofDraft rid draft) new := by
  have stored : (Product.ofDraft rid draft).toProductDetails = new.toProductDetails := same
  refine ⟨(congrArg ProductDetails.name stored :), (congrArg ProductDetails.slug stored :),
    (congrArg ProductDetails.description stored :), (congrArg ProductDetails.metaTitle stored :),
    (congrArg ProductDetails.metaDescription stored :),
    (congrArg ProductDetails.metaKeywords stored :),
    (congrArg ProductDetails.searchKeywords stored :), ?_, ?_, ?_, ?_⟩
  · rw [stored]
    exact Reference.areEquivalent_self h.taxCategory
  · intro s hs
    rw [stored, hs]
    exact Reference.isEquivalent_self (h.state s hs)
  · rw [stored]
    exact covers_self h.categories
  · intro i _
    rw [stored]

/-! ### The whole diff -/

/-- A product that was created for a draft equal to this one needs no actions. -/
theorem productPlan_actions_eq_nil (same : (draft == new) = true) (h : Recognizable new) :
    (productPlan ctx (Product.ofDraft rid draft) new).actions = [] := by
  obtain ⟨details, publish, -, -⟩ := ProductDraft.beq_iff.1 same
  have hchanges : changes ctx (Product.ofDraft rid draft) new = [] := by
    rw [changes, detailActions_eq_nil (describes_ofDraft details h),
      (inStep_ofDraft same h).variantListPlan_eq_nil
        fun d hd => h.unambiguous d (present_of_wanted hd)]
    rfl
  have hpublication : publication new.publish (draft.publish.getD false) false false = [] :=
    publication_eq_nil (by rw [publish]) fun _ => rfl
  rw [productPlan_actions, hchanges]
  simp [Product.ofDraft, hpublication, Filter.gate]

theorem entryProblem_eq_none {e : Option VariantDraft} :
    entryProblem e = none ↔ ∃ d, e = some d ∧ isBlank d.key = false := by
  cases e with
  | none => simp [entryProblem]
  | some d => cases hb : isBlank d.key <;> simp [entryProblem, hb]

/-- The plan for variants that are in step with the draft has no issues if and only if no entry is
    null or blank; the stored master is blank at most when that of the draft is. -/
theorem InStep.issues_eq_nil_iff {p : Product} (h : InStep p new) :
    (variantListPlan ctx p new).issues = [] ↔
      ∀ e ∈ new.allVariants, ∃ d, e = some d ∧ isBlank d.key = false := by
  have hentries : new.allVariants.filterMap entryProblem = [] ↔
      ∀ e ∈ new.allVariants, ∃ d, e = some d ∧ isBlank d.key = false := by
    rw [List.filterMap_eq_nil_iff]
    exact forall₂_congr fun e _ => entryProblem_eq_none
  rw [← hentries]
  by_cases hk : masterKeyProblems p new = []
  · have hpromotion : promotionProblems p new = [] := by
      rw [promotionProblems, h.masterActions_eq_ok hk]
    rw [variantListPlan_issues hk, hpromotion]
    simp [Filter.gate]
  · -- a blank master is a problem either way
    rw [variantListPlan_of_problems hk]
    simp only [List.map_eq_nil_iff, hk, false_iff]
    intro hnone
    obtain ⟨m, hm, hb⟩ := hentries.1 hnone new.masterVariant (List.mem_cons_self ..)
    refine hk (masterKeyProblems_eq_nil.2 ⟨?_, m, hm, hb⟩)
    rw [h.master m hm, hb]

/-- **What is stored for a draft is recognised.** The diff between a draft and the product that was
    created for it has no actions, whatever passes the filter and whichever attributes are the same
    for all variants, also if the draft has no master, null entries or blank keys. It has no issues
    if and only if the master is there and no entry is null or blank. -/
theorem productPlan_ofDraft (ctx : DiffContext) (rid : ResourceId) (new : ProductDraft)
    (h : Recognizable new) :
    (productPlan ctx (Product.ofDraft rid new) new).actions = [] ∧
      ((productPlan ctx (Product.ofDraft rid new) new).issues = [] ↔
        ∀ e ∈ new.allVariants, ∃ d, e = some d ∧ isBlank d.key = false) :=
  ⟨productPlan_actions_eq_nil BEq.rfl h, (inStep_ofDraft BEq.rfl h).issues_eq_nil_iff⟩

/-- A draft with a null entry, a blank key, repeated images, prices of several channels and assets
    without a key. -/
def untidyDraft : ProductDraft where
  toProductDetails := { ProductDetails.of "p" .empty .empty with
    categories := [.ofKey "tops", .ofIdAndKey "1" "tops"]
    categoryOrderHints := some (.ofList [("1", "0.5"), ("9", "0.1")])
    taxCategory := some (.ofKey "full")
    state := some (.ofId "s") }
  publish := some true
  masterVariant := some
    { VariantDraft.ofKey "a" with
      attributes := .ofList [("weight", .int 3)]
      images := [.of "i", .of "j", .of "i"] }
  variants := [none, some
    { VariantDraft.ofKey "b" with
      prices := [.of ⟨100, "EUR"⟩, (Price.of ⟨90, "EUR"⟩).withChannel (.ofKey "shop"),
        (Price.of ⟨80, "EUR"⟩).withChannel (.ofId "1")]
      assets := [.of "m" .empty, ⟨none, .empty, []⟩, ⟨none, .empty, []⟩] },
    some (.ofKey " ")]

theorem productPlan_ofDraft_untidy : Recognizable untidyDraft ∧
    (productPlan ⟨.exclude (.ofList [.images]), .ofList ["weight"]⟩
      (Product.ofDraft (.ofNat 7) untidyDraft) untidyDraft).actions = [] ∧
    (productPlan ⟨.exclude (.ofList [.images]), .ofList ["weight"]⟩
      (Product.ofDraft (.ofNat 7) untidyDraft) untidyDraft).issues ≠ [] := by
  have h : Recognizable untidyDraft := by decide
  obtain ⟨actions, issues⟩ := productPlan_ofDraft ⟨.exclude (.ofList [.images]), .ofList ["weight"]⟩
    (.ofNat 7) untidyDraft h
  refine ⟨h, actions, issues.not.2 ?_⟩
  decide

end Diff

end CatalogSync
