import CatalogSync.Proofs.Filtering
import CatalogSync.Proofs.Matched

/- Writes of attributes over all variants of a product. Every pair of a stored variant and its entry
   calls for one write under each name in which the two differ. An attribute of the variant's own is
   written just so; one that is the same for all variants is written for all of them, and of the
   pairs that call for the same value only the first writes it (`contribution`). Main statement:
   `variantListPlan_writes`. -/
namespace CatalogSync.Diff

open CatalogSync.Edit (filter_eq_singleton)

/-- A stored variant, and the entry with its key, which is not blank. -/
structure Paired (old : Product) (new : ProductDraft) (v : Variant) (d : VariantDraft) : Prop where
  stored : v ∈ old.allVariants
  wanted : d ∈ wanted new
  key : v.key = d.key

/-- Variant and entry differ under a name. To have a null there is not the same as to have nothing.
    -/
def Differ (n : String) (v : Variant) (d : VariantDraft) : Prop :=
  (v.attributes.get? n == d.attributes.get? n) = false

/-- What entries of a draft call for, with all repeats. -/
def called (ctx : DiffContext) (old : Product) (es : List (Option VariantDraft)) :
    List ProductAction :=
  es.flatMap (entryActions ctx (variantsByKey old))

/-- What a pair adds to the actions that the entries `es` call for: what it calls for itself, but for
    the product-wide actions that are there already. -/
def contribution (ctx : DiffContext) (old : Product) (es : List (Option VariantDraft))
    (v : Variant) (d : VariantDraft) : List ProductAction :=
  (variantActions ctx v d).filter fun a => !(isProductWide a && (called ctx old es).contains a)

/-- The action writes an attribute of one variant. -/
def writesOwn (id : UInt32) (n : String) : ProductAction → Bool
  | .setAttribute i m _ => i == id && m == n
  | _ => false

/-- How actions write the attributes of all variants. -/
structure ExactWrites (ctx : DiffContext) (old : Product) (new : ProductDraft)
    (actions : List ProductAction) : Prop where
  /-- An attribute of the variant's own is written once if the pair differs in it, with what the
      entry has, and it is not written otherwise. -/
  own : ∀ v d, Paired old new v d → ∀ n, ctx.isSameForAll n = false →
    actions.filter (writesOwn v.id n) =
      if v.attributes.get? n == d.attributes.get? n then []
      else [.setAttribute v.id n (d.attributes.get? n)]
  own_only : ∀ id n x, .setAttribute id n x ∈ actions →
    ctx.isSameForAll n = false ∧ ∃ v d, Paired old new v d ∧ v.id = id
  /-- An attribute that is the same for all variants is written once with each value that an entry of
      a pair that differs in it has. -/
  shared : ∀ v d, Paired old new v d → ∀ n, ctx.isSameForAll n = true → Differ n v d →
    ∃ y, (d.attributes.get? n == y) = true ∧
      actions.filter (· == .setAttributeInAllVariants n (d.attributes.get? n)) =
        [.setAttributeInAllVariants n y]
  shared_only : ∀ n x, .setAttributeInAllVariants n x ∈ actions → ctx.isSameForAll n = true ∧
    ∃ v d, Paired old new v d ∧ Differ n v d ∧ x = d.attributes.get? n
  /-- What a pair adds stands behind the removals and what the entries before it add. -/
  placed : ∀ es d fs v, new.allVariants = es ++ some d :: fs → Paired old new v d → ∃ after,
    actions = ctx.filter.gate .variants (removeVariantActions old new) ++
      newOnes [] (called ctx old es) ++ contribution ctx old es v d ++ after
  /-- The first pair that calls for a value writes it. -/
  first : ∀ es d fs v, new.allVariants = es ++ some d :: fs → Paired old new v d →
    ∀ n x, ctx.isSameForAll n = true →
      (.setAttributeInAllVariants n x ∈ contribution ctx old es v d ↔
        Differ n v d ∧ x = d.attributes.get? n ∧
          ∀ w c, some c ∈ es → Paired old new w c → Differ n w c →
            (x == c.attributes.get? n) = false)
  /-- A pair unsets attributes before it sets others. -/
  ordered : ∀ es v d, ∃ unsets sets,
    (contribution ctx old es v d).filter (·.group == .attributes) = unsets ++ sets ∧
      (∀ a ∈ unsets, ∃ n, written? n a = some none) ∧
      ∀ a ∈ sets, ∃ n j, written? n a = some (some j)

variable {ctx : DiffContext} {old : Product} {new : ProductDraft} {v w : Variant}
  {c d : VariantDraft} {a : ProductAction} {n : String} {x : Option Json}
  {es : List (Option VariantDraft)}

/-! ### One pair -/

/-- What a pair calls for in attributes is a write for each name in which it differs. -/
theorem mem_variantActions_attributes (hf : ctx.filter.passes .attributes = true)
    (hg : a.group = .attributes) : a ∈ variantActions ctx v d ↔
      ∃ n, Differ n v d ∧ a = writeAttribute ctx v.id n (d.attributes.get? n) := by
  have hpart : a ∈ variantActions ctx v d ↔ a ∈ attributeActions ctx v d :=
    ⟨fun h => mem_partActions h hg, fun h => mem_variantActions hf h⟩
  exact hpart.trans mem_attributeActions

theorem eq_writeAttribute_shared {id : UInt32} {m : String} {y : Option Json} :
    .setAttributeInAllVariants n x = writeAttribute ctx id m y ↔
      ctx.isSameForAll n = true ∧ n = m ∧ x = y := by
  unfold writeAttribute
  split
  · next hs =>
    rw [ProductAction.setAttributeInAllVariants.injEq]
    exact ⟨fun h => ⟨h.1 ▸ hs, h⟩, fun h => h.2⟩
  · next hs =>
    refine iff_of_false (by simp) ?_
    intro h
    exact hs (h.2.1 ▸ h.1)

theorem eq_writeAttribute_own {i id : UInt32} {m : String} {y : Option Json} :
    .setAttribute i n x = writeAttribute ctx id m y ↔
      ctx.isSameForAll n = false ∧ i = id ∧ n = m ∧ x = y := by
  unfold writeAttribute
  split
  · next hs =>
    refine iff_of_false (by simp) ?_
    intro h
    rw [h.2.2.1, hs] at h
    exact Bool.false_ne_true h.1.symm
  · next hs =>
    rw [ProductAction.setAttribute.injEq]
    exact ⟨fun h => ⟨h.2.1 ▸ Bool.eq_false_iff.2 hs, h⟩, fun h => h.2⟩

theorem mem_variantActions_shared (hf : ctx.filter.passes .attributes = true)
    (hs : ctx.isSameForAll n = true) : .setAttributeInAllVariants n x ∈ variantActions ctx v d ↔
      Differ n v d ∧ x = d.attributes.get? n := by
  rw [mem_variantActions_attributes hf rfl]
  constructor
  · intro h
    obtain ⟨m, hm, he⟩ := h
    obtain ⟨-, rfl, rfl⟩ := eq_writeAttribute_shared.1 he
    exact ⟨hm, rfl⟩
  · intro h
    exact ⟨n, h.1, eq_writeAttribute_shared.2 ⟨hs, rfl, h.2⟩⟩

theorem writesOwn_of_group {id : UInt32} (h : a.group ≠ .attributes) :
    writesOwn id n a = false := by
  cases a <;> first | rfl | exact absurd rfl h

/-- An attribute of its own is written once by a pair that differs in it. -/
theorem filter_writesOwn (hf : ctx.filter.passes .attributes = true)
    (hs : ctx.isSameForAll n = false) : (variantActions ctx v d).filter (writesOwn v.id n) =
      if v.attributes.get? n == d.attributes.get? n then []
      else [.setAttribute v.id n (d.attributes.get? n)] := by
  -- of the writes of attributes, the one for the name is looked at
  have hname : (changedNames v d).filter
      (writesOwn v.id n ∘ fun m => writeAttribute ctx v.id m (d.attributes.get? m)) =
        (changedNames v d).filter (· == n) := by
    apply List.filter_congr
    intro m _
    show writesOwn v.id n (writeAttribute ctx v.id m (d.attributes.get? m)) = (m == n)
    unfold writeAttribute
    split
    · next hm =>
      refine (beq_eq_false_iff_ne.2 ?_).symm
      intro he
      rw [he, hs] at hm
      exact Bool.false_ne_true hm
    · exact Bool.and_eq_right_iff_imp.2 fun _ => BEq.rfl
  rw [filter_variantActions fun a => writesOwn_of_group, Filter.gate, if_pos hf, partActions,
    attributeActions_eq, List.filter_map, hname]
  split
  · next he =>
    have hnone : (changedNames v d).filter (· == n) = [] := by
      apply List.filter_eq_nil_iff.2
      intro m hm hmn
      rw [eq_of_beq hmn] at hm
      exact Bool.false_ne_true ((mem_changedNames.1 hm).symm.trans he)
    rw [hnone]
    rfl
  · next he =>
    have hone : (changedNames v d).filter (· == n) = [n] := by
      refine filter_eq_singleton (f := id) ?_ (mem_changedNames.2 (Bool.eq_false_iff.2 he))
      rw [List.map_id]
      exact nodup_changedNames v d
    rw [hone, List.map_singleton, writeAttribute, if_neg (by simp [hs])]

theorem beq_writeAttribute {id : UInt32} {m : String} {y : Option Json} (hne : n ≠ m)
    (hw : isProductWide (writeAttribute ctx id n x) = true) :
    (writeAttribute ctx id n x == writeAttribute ctx id m y) = false := by
  unfold writeAttribute at hw ⊢
  split at hw
  · next hs =>
    rw [if_pos hs]
    split
    · rw [beq_productWide, beq_eq_false_iff_ne.2 hne, Bool.false_and]
    · rfl
  · cases hw

/-- A pair writes no attribute twice, so it repeats no product-wide action. -/
theorem pairwise_variantActions (ctx : DiffContext) (v : Variant) (d : VariantDraft) :
    (variantActions ctx v d).Pairwise fun a b => isProductWide b = true → (b == a) = false := by
  have hwrites : (attributeActions ctx v d).Pairwise fun a b =>
      isProductWide b = true → (b == a) = false := by
    rw [attributeActions_eq, List.pairwise_map]
    exact (nodup_changedNames v d).imp fun hne hw => beq_writeAttribute hne.symm hw
  have hwide : ((variantActions ctx v d).filter isProductWide).Pairwise fun a b =>
      isProductWide b = true → (b == a) = false := by
    have hgroup : ∀ a : ProductAction, a.group ≠ .attributes → isProductWide a = false := by
      intro a hg
      apply Bool.eq_false_iff.2
      intro hw
      obtain ⟨m, y, rfl⟩ := isProductWide_iff.1 hw
      exact hg rfl
    rw [filter_variantActions hgroup]
    refine hwrites.sublist (List.filter_sublist.trans ?_)
    unfold Filter.gate
    split
    · exact List.Sublist.refl _
    · exact List.nil_sublist _
  rw [List.pairwise_filter] at hwide
  refine hwide.imp ?_
  intro a b hab hb
  cases ha : isProductWide a with
  | true => exact hab ha hb hb
  | false =>
    apply Bool.eq_false_iff.2
    intro hba
    obtain ⟨m, y, rfl⟩ := isProductWide_iff.1 hb
    obtain ⟨y', rfl, -⟩ := eq_of_beq_productWide hba
    cases ha

/-- The writes of a pair, first those that unset an attribute and then those that set one. -/
theorem ordered_contribution (hf : ctx.filter.passes .attributes = true) (old : Product)
    (es : List (Option VariantDraft)) (v : Variant) (d : VariantDraft) : ∃ unsets sets,
    (contribution ctx old es v d).filter (·.group == .attributes) = unsets ++ sets ∧
      (∀ a ∈ unsets, ∃ n, written? n a = some none) ∧
      ∀ a ∈ sets, ∃ n j, written? n a = some (some j) := by
  have hparts : (contribution ctx old es v d).filter (·.group == .attributes) =
      ((changedNames v d).map fun n => writeAttribute ctx v.id n (d.attributes.get? n)).filter
        fun a => !(isProductWide a && (called ctx old es).contains a) := by
    rw [contribution, List.filter_comm, filter_group_variantActions, Filter.gate, if_pos hf,
      partActions, attributeActions_eq]
  rw [changedNames, List.map_append, List.filter_append] at hparts
  refine ⟨_, _, hparts, ?_, ?_⟩
  · intro a ha
    obtain ⟨m, hm, rfl⟩ := List.mem_map.1 (List.mem_filter.1 ha).1
    refine ⟨m, ?_⟩
    rw [written_writeAttribute, if_pos rfl, get?_of_mem_unsetNames hm]
  · intro a ha
    obtain ⟨m, hm, rfl⟩ := List.mem_map.1 (List.mem_filter.1 ha).1
    obtain ⟨j, hj, -⟩ := mem_setNames.1 hm
    refine ⟨m, j, ?_⟩
    rw [written_writeAttribute, if_pos rfl, hj]

/-! ### All pairs -/

theorem updates_eq_called (ctx : DiffContext) (old : Product) (new : ProductDraft) :
    updates ctx old new = called ctx old new.allVariants := rfl

theorem Paired.blank (h : Paired old new v d) : isBlank d.key = false :=
  (mem_keyedEntries.1 h.wanted).2

/-- What entries call for in attributes comes from a pair of one of them. -/
theorem mem_called (hf : ctx.filter.passes .attributes = true) (hg : a.group = .attributes)
    (hes : ∀ e ∈ es, e ∈ new.allVariants) (h : a ∈ called ctx old es) :
    ∃ v d n, some d ∈ es ∧ Paired old new v d ∧ Differ n v d ∧
      a = writeAttribute ctx v.id n (d.attributes.get? n) := by
  obtain ⟨e, he, h⟩ := List.mem_flatMap.1 h
  obtain ⟨d, rfl, hb, ⟨v, hv, hk, ha⟩ | ⟨-, rfl⟩⟩ := entryActions_cases h
  · obtain ⟨n, hn, rfl⟩ := (mem_variantActions_attributes hf hg).1 ha
    exact ⟨v, d, n, he, ⟨hv, mem_keyedEntries.2 ⟨hes _ he, hb⟩, hk⟩, hn, rfl⟩
  · cases hg

theorem mem_called_of_paired (h : Keyed old new) (hp : Paired old new v d) (hd : some d ∈ es)
    (ha : a ∈ variantActions ctx v d) : a ∈ called ctx old es := by
  refine List.mem_flatMap.2 ⟨some d, hd, ?_⟩
  rw [entryActions_of_matched h hp.stored hp.blank hp.key]
  exact ha

/-- A product-wide write is called for by entries if one of their pairs differs in the attribute and
    has an equal value. -/
theorem contains_called (hf : ctx.filter.passes .attributes = true) (h : Keyed old new)
    (hs : ctx.isSameForAll n = true) (hes : ∀ e ∈ es, e ∈ new.allVariants) :
    (called ctx old es).contains (.setAttributeInAllVariants n x) = true ↔
      ∃ w c, some c ∈ es ∧ Paired old new w c ∧ Differ n w c ∧
        (x == c.attributes.get? n) = true := by
  rw [List.contains_iff_exists_mem_beq]
  constructor
  · intro hc
    obtain ⟨b, hb, he⟩ := hc
    obtain ⟨y, rfl, hy⟩ := eq_of_beq_productWide he
    obtain ⟨w, c, m, hc, hp, hm, he⟩ := mem_called hf rfl hes hb
    obtain ⟨-, rfl, rfl⟩ := eq_writeAttribute_shared.1 he
    exact ⟨w, c, hc, hp, hm, hy⟩
  · intro hc
    obtain ⟨w, c, hc, hp, hd, hx⟩ := hc
    refine ⟨.setAttributeInAllVariants n (c.attributes.get? n),
      mem_called_of_paired h hp hc ((mem_variantActions_shared hf hs).2 ⟨hd, rfl⟩), ?_⟩
    rw [beq_productWide, hx, beq_self_eq_true n, Bool.true_and]

/-- Removals and promotions write no attributes. -/
theorem filter_variantListPlan (hk : masterKeyProblems old new = []) {p : ProductAction → Bool}
    (hp : ∀ a, a.group ≠ .attributes → p a = false) :
    (variantListPlan ctx old new).actions.filter p =
      (newOnes [] (updates ctx old new)).filter p := by
  have hnone {as : List ProductAction} (has : ∀ a ∈ as, a.group = .variants) :
      (ctx.filter.gate .variants as).filter p = [] := by
    apply List.filter_eq_nil_iff.2
    intro a ha
    rw [hp a (by rw [has a (mem_gate.1 ha).2]; decide)]
    exact Bool.false_ne_true
  rw [variantListPlan_actions hk, List.filter_append, List.filter_append,
    hnone fun a => group_removeVariantActions, hnone fun a => group_promotion, List.nil_append,
    List.append_nil]

/-- Every write of an attribute in the plan comes from a pair that differs in it. -/
theorem mem_variantListPlan_attributes (hk : masterKeyProblems old new = [])
    (hf : ctx.filter.passes .attributes = true) (hg : a.group = .attributes)
    (ha : a ∈ (variantListPlan ctx old new).actions) : ∃ v d n, Paired old new v d ∧
      Differ n v d ∧ a = writeAttribute ctx v.id n (d.attributes.get? n) := by
  have hmem : a ∈ (variantListPlan ctx old new).actions.filter (·.group == .attributes) :=
    List.mem_filter.2 ⟨ha, beq_iff_eq.2 hg⟩
  rw [filter_variantListPlan hk fun b => beq_eq_false_iff_ne.2] at hmem
  obtain ⟨v, d, n, -, hp, hd, he⟩ :=
    mem_called hf hg (fun _ he => he) (mem_of_mem_newOnes (List.mem_filter.1 hmem).1)
  exact ⟨v, d, n, hp, hd, he⟩

theorem filter_writesOwn_variantListPlan (h : Keyed old new)
    (hk : masterKeyProblems old new = []) (hf : ctx.filter.passes .attributes = true)
    (hp : Paired old new v d) (hs : ctx.isSameForAll n = false) :
    (variantListPlan ctx old new).actions.filter (writesOwn v.id n) =
      if v.attributes.get? n == d.attributes.get? n then []
      else [.setAttribute v.id n (d.attributes.get? n)] := by
  rw [filter_variantListPlan hk fun a => writesOwn_of_group, ← filter_writesOwn hf hs]
  refine filter_updates h hp.stored hp.wanted hp.key ?_ (fun c => rfl) ?_
  · intro a ha
    obtain ⟨m, y, rfl⟩ := isProductWide_iff.1 ha
    rfl
  · intro w hw hne c a ha
    -- what another variant calls for names that one
    cases hown : writesOwn v.id n a with
    | false => rfl
    | true =>
      cases a
      case setAttribute i m y =>
        have hi : i = v.id := eq_of_beq (Bool.and_eq_true_iff.1 hown).1
        have hiw : i = w.id := target_variantActions ha rfl
        exact absurd (h.eq_of_id hw hp.stored (hiw.symm.trans hi)) hne
      all_goals cases hown

theorem filter_shared_variantListPlan (h : Keyed old new) (hk : masterKeyProblems old new = [])
    (hf : ctx.filter.passes .attributes = true) (hp : Paired old new v d)
    (hs : ctx.isSameForAll n = true) (hd : Differ n v d) :
    ∃ y, (d.attributes.get? n == y) = true ∧ (variantListPlan ctx old new).actions.filter
      (· == .setAttributeInAllVariants n (d.attributes.get? n)) =
        [.setAttributeInAllVariants n y] := by
  have hgroup : ∀ a : ProductAction, a.group ≠ .attributes →
      (a == .setAttributeInAllVariants n (d.attributes.get? n)) = false := by
    intro a hg
    apply Bool.eq_false_iff.2
    intro he
    obtain ⟨m, y, rfl⟩ := isProductWide_iff.1 (isProductWide_of_beq rfl he)
    exact hg rfl
  have hmem : .setAttributeInAllVariants n (d.attributes.get? n) ∈ updates ctx old new :=
    mem_updates_of_matched h hp.stored hp.wanted hp.key
      ((mem_variantActions_shared hf hs).2 ⟨hd, rfl⟩)
  rw [filter_variantListPlan hk hgroup, filter_newOnes_productWide rfl]
  cases hfind : (updates ctx old new).find?
      (· == .setAttributeInAllVariants n (d.attributes.get? n)) with
  | none =>
    have hnot := List.find?_eq_none.1 hfind _ hmem
    rw [beq_productWide, BEq.rfl, BEq.rfl] at hnot
    exact absurd rfl hnot
  | some b =>
    have hb := List.find?_some hfind
    rw [← beq_comm_productWide rfl] at hb
    obtain ⟨y, rfl, hy⟩ := eq_of_beq_productWide hb
    exact ⟨y, hy, rfl⟩

/-- What a pair adds stands between what the entries before and behind it add. -/
theorem variantListPlan_split (h : Keyed old new) (hk : masterKeyProblems old new = [])
    {fs : List (Option VariantDraft)} (hsplit : new.allVariants = es ++ some d :: fs)
    (hp : Paired old new v d) : ∃ after, (variantListPlan ctx old new).actions =
      ctx.filter.gate .variants (removeVariantActions old new) ++
        newOnes [] (called ctx old es) ++ contribution ctx old es v d ++ after := by
  have hblock : newOnes (newOnes [] (called ctx old es)) (variantActions ctx v d) =
      contribution ctx old es v d := by
    rw [newOnes_eq_filter (pairwise_variantActions ctx v d)]
    apply List.filter_congr
    intro a _
    cases hw : isProductWide a with
    | false => rfl
    | true => rw [contains_newOnes hw]
  have hparts : called ctx old (es ++ some d :: fs) =
      called ctx old es ++ (variantActions ctx v d ++ called ctx old fs) := by
    rw [called, List.flatMap_append, List.flatMap_cons,
      entryActions_of_matched h hp.stored hp.blank hp.key]
    rfl
  rw [variantListPlan_actions hk, updates_eq_called, hsplit, hparts, newOnes_concat,
    newOnes_concat, List.nil_append, hblock]
  refine ⟨newOnes (newOnes [] (called ctx old es) ++ contribution ctx old es v d)
    (called ctx old fs) ++ ctx.filter.gate .variants (promotion old new), ?_⟩
  simp only [List.append_assoc]

/-- A pair writes a shared attribute if no pair before it has written an equal value. -/
theorem mem_contribution_shared (h : Keyed old new) (hf : ctx.filter.passes .attributes = true)
    (hs : ctx.isSameForAll n = true) (hes : ∀ e ∈ es, e ∈ new.allVariants) :
    .setAttributeInAllVariants n x ∈ contribution ctx old es v d ↔
      Differ n v d ∧ x = d.attributes.get? n ∧
        ∀ w c, some c ∈ es → Paired old new w c → Differ n w c →
          (x == c.attributes.get? n) = false := by
  have hnew : (!(isProductWide (.setAttributeInAllVariants n x) &&
      (called ctx old es).contains (.setAttributeInAllVariants n x))) = true ↔
      ∀ w c, some c ∈ es → Paired old new w c → Differ n w c →
        (x == c.attributes.get? n) = false := by
    rw [isProductWide, Bool.true_and, Bool.not_eq_true', ← Bool.not_eq_true,
      contains_called hf h hs hes]
    simp only [not_exists, not_and, Bool.not_eq_true]
  rw [contribution, List.mem_filter, mem_variantActions_shared hf hs, hnew, and_assoc]

/-- **Attributes are written exactly.** For every pair of a stored variant and its entry, an
    attribute in which the two differ is written once: on the variant, or for all variants if it is
    the same for all. In the latter case equal values are written once for all pairs, by the first
    that differs. Nothing else is written, and each pair unsets attributes before it sets others. -/
theorem variantListPlan_writes (ctx : DiffContext) (old : Product) (new : ProductDraft)
    (h : Keyed old new) (ho : isBlank old.masterVariant.key = false)
    (hn : isBlank (new.masterVariant.bind (·.key)) = false)
    (hf : ctx.filter.passes .attributes = true) :
    ExactWrites ctx old new (variantListPlan ctx old new).actions := by
  have hk : masterKeyProblems old new = [] := by
    unfold masterKeyProblems
    rw [ho, hn]
    rfl
  refine ⟨?_, ?_, ?_, ?_, ?_, ?_, ?_⟩
  · exact fun v d hp n hs => filter_writesOwn_variantListPlan h hk hf hp hs
  · intro id n x ha
    obtain ⟨v, d, m, hp, -, he⟩ := mem_variantListPlan_attributes hk hf rfl ha
    obtain ⟨hs, rfl, -, -⟩ := eq_writeAttribute_own.1 he
    exact ⟨hs, v, d, hp, rfl⟩
  · exact fun v d hp n hs hd => filter_shared_variantListPlan h hk hf hp hs hd
  · intro n x ha
    obtain ⟨v, d, m, hp, hd, he⟩ := mem_variantListPlan_attributes hk hf rfl ha
    obtain ⟨hs, rfl, hx⟩ := eq_writeAttribute_shared.1 he
    exact ⟨hs, v, d, hp, hd, hx⟩
  · exact fun es d fs v hsplit hp => variantListPlan_split h hk hsplit hp
  · intro es d fs v hsplit hp n x hs
    refine mem_contribution_shared h hf hs ?_
    intro e he
    rw [hsplit]
    exact List.mem_append_left _ he
  · exact fun es v d => ordered_contribution hf old es v d

/-- A product with three variants, one of which has a null for an attribute. -/
def branded : Product where
  toProductDetails := .of "p" .empty .empty
  id := .ofNat 0
  version := 1
  published := false
  hasStagedChanges := false
  masterVariant := .ofDraft 1
    (((VariantDraft.ofKey "a").withAttribute "brand" (.str "x")).withAttribute "size" (.int 1))
  variants := [
    .ofDraft 2
      (((VariantDraft.ofKey "b").withAttribute "brand" (.str "x")).withAttribute "note" .null),
    .ofDraft 3 ((VariantDraft.ofKey "c").withAttribute "brand" (.str "y"))]

/-- A draft in which two variants take over the brand of the third, and that one has none. -/
def rebranded : ProductDraft where
  toProductDetails := .of "p" .empty .empty
  publish := none
  masterVariant := some
    (((VariantDraft.ofKey "a").withAttribute "brand" (.str "y")).withAttribute "color" .null)
  variants := [some ((VariantDraft.ofKey "b").withAttribute "brand" (.str "y")), none,
    some (.ofKey "c")]

theorem variantListPlan_writes_rebranded :
    Keyed branded rebranded ∧ isBlank branded.masterVariant.key = false ∧
    isBlank (rebranded.masterVariant.bind (·.key)) = false ∧
    (⟨.all, .ofList ["brand"]⟩ : DiffContext).filter.passes .attributes = true ∧
    ExactWrites ⟨.all, .ofList ["brand"]⟩ branded rebranded
      (variantListPlan ⟨.all, .ofList ["brand"]⟩ branded rebranded).actions :=
  ⟨by decide, by decide, by decide, rfl,
    variantListPlan_writes _ _ _ (by decide) (by decide) (by decide) rfl⟩

/-- The brand is written once with the new value, and once to unset it. -/
example : (variantListPlan ⟨.all, .ofList ["brand"]⟩ branded rebranded).actions =
    [.setAttribute 1 "size" none, .setAttributeInAllVariants "brand" (some (.str "y")),
      .setAttribute 1 "color" (some .null), .setAttribute 2 "note" none,
      .setAttributeInAllVariants "brand" none] := rfl

end CatalogSync.Diff
