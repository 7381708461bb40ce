import CatalogSync.Diff.Product

/- Every builder of the diff yields actions of one group alone, so holding its actions back at a
   gate is the same as sorting them out of the finished list (`gate_eq_filter`). -/
namespace CatalogSync.Diff

/-- The action belongs to a group that passes. -/
def admits (f : Filter) (a : ProductAction) : Bool := f.passes a.group

@[simp] theorem gate_all {α : Type} (g : ActionGroup) (xs : List α) :
    Filter.all.gate g xs = xs := rfl

theorem gate_eq_self {α : Type} {f : Filter} (hf : ∀ g, f.passes g = true) (g : ActionGroup)
    (xs : List α) : f.gate g xs = xs := if_pos (hf g)

theorem gate_eq_filter (f : Filter) {g : ActionGroup} {xs : List ProductAction}
    (h : ∀ a ∈ xs, a.group = g) : f.gate g xs = xs.filter (admits f) := by
  unfold Filter.gate
  cases hp : f.passes g
  · symm
    apply List.filter_eq_nil_iff.2
    intro a ha
    rw [admits, h a ha, hp]
    exact Bool.false_ne_true
  · symm
    apply List.filter_eq_self.2
    intro a ha
    rw [admits, h a ha, hp]

theorem mem_gate {α : Type} {f : Filter} {g : ActionGroup} {xs : List α} {a : α} :
    a ∈ f.gate g xs ↔ f.passes g = true ∧ a ∈ xs := by
  unfold Filter.gate
  cases f.passes g <;> simp

theorem mem_whenChanged {α β : Type} [BEq α] {old new : α} {action b : β} :
    b ∈ whenChanged old new action ↔ (old == new) = false ∧ b = action := by
  unfold whenChanged
  cases old == new <;> simp

theorem group_whenChanged {α : Type} [BEq α] {old new : α} {a b : ProductAction}
    (h : a ∈ whenChanged old new b) : a.group = b.group := by
  rw [(mem_whenChanged.1 h).2]

/-! ### Groups of the actions on variants -/

/-- The groups of the actions on variants. -/
def variantGroups : List ActionGroup := [.variants, .sku, .attributes, .images, .prices, .assets]

variable {ctx : DiffContext} {v : Variant} {d : VariantDraft} {a : ProductAction}

theorem group_skuActions (h : a ∈ skuActions v d) : a.group = .sku := group_whenChanged h

theorem group_writeAttribute (id : UInt32) (name : String) (value : Option Json) :
    (writeAttribute ctx id name value).group = .attributes := by
  unfold writeAttribute
  split <;> rfl

theorem group_attributeActions (h : a ∈ attributeActions ctx v d) : a.group = .attributes := by
  rcases List.mem_append.1 h with h | h
  · obtain ⟨name, _, rfl⟩ := List.mem_map.1 h
    exact group_writeAttribute ..
  · obtain ⟨e, _, rfl⟩ := List.mem_map.1 h
    exact group_writeAttribute ..

theorem moveActions_mem {id : UInt32} : ∀ {targets current : List String} {position : Nat},
    a ∈ moveActions id position current targets →
      ∃ url n, url ∈ targets ∧ a = .moveImageToPosition id url n
  | [], _, _, h => by simp [moveActions] at h
  | url :: targets, current, position, h => by
    have later {c : List String} (h : a ∈ moveActions id (position + 1) c targets) :
        ∃ url' n, url' ∈ url :: targets ∧ a = .moveImageToPosition id url' n := by
      obtain ⟨url', n, hm, e⟩ := moveActions_mem h
      exact ⟨url', n, List.mem_cons_of_mem url hm, e⟩
    rw [moveActions] at h
    split at h
    · exact later h
    · split at h
      · rcases List.mem_cons.1 h with rfl | h
        · exact ⟨url, position, List.mem_cons_self .., rfl⟩
        · exact later h
      · exact later h

theorem labelActions_mem {id : UInt32} {old : List Image} {image : Image}
    (h : a ∈ labelActions id old image) : a = .setImageLabel id image.url image.label := by
  unfold labelActions at h
  split at h
  · exact (mem_whenChanged.1 h).2
  · exact absurd h List.not_mem_nil

theorem group_imageActions (h : a ∈ imageActions v d) : a.group = .images := by
  simp only [imageActions, List.mem_append] at h
  rcases h with ((h | h) | h) | h
  · obtain ⟨url, _, rfl⟩ := List.mem_map.1 h
    rfl
  · obtain ⟨image, _, rfl⟩ := List.mem_map.1 h
    rfl
  · obtain ⟨url, n, _, rfl⟩ := moveActions_mem h
    rfl
  · obtain ⟨image, _, h⟩ := List.mem_flatMap.1 h
    rw [labelActions_mem h]
    rfl

theorem dropPriceActions_mem {new : List Price} {p : Price} (h : a ∈ dropPriceActions new p) :
    ∃ id, p.id = some id ∧ a = .removePrice id := by
  unfold dropPriceActions at h
  split at h
  · exact absurd h List.not_mem_nil
  · obtain ⟨id, hid, rfl⟩ := Option.map_eq_some_iff.1 (Option.mem_toList.1 h)
    exact ⟨id, hid, rfl⟩

theorem placePriceActions_mem {id : UInt32} {old : List Price} {p : Price}
    (h : a ∈ placePriceActions id old p) :
    (∃ o ∈ old, ∃ priceId, o.id = some priceId ∧ a = .changePrice priceId p) ∨
      a = .addPrice id p := by
  unfold placePriceActions at h
  split at h
  · next o ho =>
    split at h
    · obtain ⟨priceId, hid, rfl⟩ := Option.map_eq_some_iff.1 (Option.mem_toList.1 h)
      exact Or.inl ⟨o, List.mem_of_find?_eq_some ho, priceId, hid, rfl⟩
    · exact absurd h List.not_mem_nil
  · exact Or.inr (List.mem_singleton.1 h)

theorem group_priceActions (h : a ∈ priceActions v d) : a.group = .prices := by
  rcases List.mem_append.1 h with h | h
  · obtain ⟨p, _, h⟩ := List.mem_flatMap.1 h
    obtain ⟨id, _, rfl⟩ := dropPriceActions_mem h
    rfl
  · obtain ⟨p, _, h⟩ := List.mem_flatMap.1 h
    rcases placePriceActions_mem h with ⟨_, _, id, _, rfl⟩ | rfl
    · rfl
    · rfl

theorem changeAssetActions_mem {id : UInt32} {key : String} {old new : Asset}
    (h : a ∈ changeAssetActions id key old new) :
    a = .changeAssetName id key new.name ∨ a = .setAssetSources id key new.sources := by
  rcases List.mem_append.1 h with h | h
  · exact Or.inl (mem_whenChanged.1 h).2
  · exact Or.inr (mem_whenChanged.1 h).2

/-- An asset of the draft is added if no stored one has its key, and changed otherwise. -/
theorem placeAssets_mem {id : UInt32} {old : List Asset} :
    ∀ {news : List (String × Asset)} {position : Nat} {current : List String},
      a ∈ (placeAssets id old position current news).1 →
        ∃ p ∈ news,
          (∃ e, old.find? (fun x => x.key == some p.1) = some e ∧
            (a = .changeAssetName id p.1 p.2.name ∨ a = .setAssetSources id p.1 p.2.sources)) ∨
          (old.find? (fun x => x.key == some p.1) = none ∧ ∃ n, a = .addAsset id p.2 n)
  | [], _, _, h => by simp [placeAssets] at h
  | (key, asset) :: rest, position, current, h => by
    rw [placeAssets] at h
    split at h
    · next e he =>
      rcases List.mem_append.1 h with h | h
      · exact ⟨_, List.mem_cons_self .., Or.inl ⟨e, he, changeAssetActions_mem h⟩⟩
      · obtain ⟨p, hp, hcase⟩ := placeAssets_mem h
        exact ⟨p, List.mem_cons_of_mem _ hp, hcase⟩
    · next hnone =>
      rcases List.mem_cons.1 h with rfl | h
      · exact ⟨_, List.mem_cons_self .., Or.inr ⟨hnone, position, rfl⟩⟩
      · obtain ⟨p, hp, hcase⟩ := placeAssets_mem h
        exact ⟨p, List.mem_cons_of_mem _ hp, hcase⟩

theorem group_assetActions (h : a ∈ assetActions v d) : a.group = .assets := by
  simp only [assetActions, List.mem_append] at h
  rcases h with (h | h) | h
  · obtain ⟨key, _, rfl⟩ := List.mem_map.1 h
    rfl
  · obtain ⟨p, -, ⟨e, -, rfl | rfl⟩ | ⟨-, n, rfl⟩⟩ := placeAssets_mem h
    · rfl
    · rfl
    · rfl
  · split at h
    · exact absurd h List.not_mem_nil
    · rw [List.mem_singleton.1 h]
      rfl

/-- No action on a matched variant is one of the variant list, of the details or a publication. -/
theorem group_variantActions (h : a ∈ variantActions ctx v d) :
    a.group ∈ [ActionGroup.sku, .attributes, .images, .prices, .assets] := by
  simp only [variantActions, List.mem_append, mem_gate] at h
  rcases h with (((h | h) | h) | h) | h
  · simp [group_skuActions h.2]
  · simp [group_attributeActions h.2]
  · simp [group_imageActions h.2]
  · simp [group_priceActions h.2]
  · simp [group_assetActions h.2]

/-- What the diff of a variant has in a group, if the group passes. -/
def partActions (ctx : DiffContext) (v : Variant) (d : VariantDraft) :
    ActionGroup → List ProductAction
  | .sku => skuActions v d
  | .attributes => attributeActions ctx v d
  | .images => imageActions v d
  | .prices => priceActions v d
  | .assets => assetActions v d
  | _ => []

theorem filter_gate (f : Filter) {g : ActionGroup} {xs : List ProductAction}
    (h : ∀ a ∈ xs, a.group = g) (g' : ActionGroup) :
    (f.gate g xs).filter (·.group == g') = if g = g' then f.gate g' xs else [] := by
  by_cases hg : g = g'
  · subst hg
    rw [if_pos rfl]
    apply List.filter_eq_self.2
    intro a ha
    exact beq_iff_eq.2 (h a (mem_gate.1 ha).2)
  · rw [if_neg hg]
    apply List.filter_eq_nil_iff.2
    intro a ha
    rw [h a (mem_gate.1 ha).2, beq_iff_eq]
    exact hg

/-- The actions on a matched variant, sorted by their groups. -/
theorem filter_group_variantActions (g : ActionGroup) :
    (variantActions ctx v d).filter (·.group == g) = ctx.filter.gate g (partActions ctx v d g) := by
  simp only [variantActions, List.filter_append]
  rw [filter_gate _ (fun _ => group_skuActions), filter_gate _ (fun _ => group_attributeActions),
    filter_gate _ (fun _ => group_imageActions), filter_gate _ (fun _ => group_priceActions),
    filter_gate _ (fun _ => group_assetActions)]
  cases g <;> simp [partActions, Filter.gate]

/-- A test that only actions of one group pass sees that part alone. -/
theorem filter_variantActions {g : ActionGroup} {p : ProductAction → Bool}
    (hp : ∀ a, a.group ≠ g → p a = false) : (variantActions ctx v d).filter p =
      (ctx.filter.gate g (partActions ctx v d g)).filter p := by
  rw [← filter_group_variantActions, List.filter_filter]
  apply List.filter_congr
  intro a _
  by_cases hg : a.group = g
  · simp [hg]
  · simp [hp a hg]

theorem mem_partActions (h : a ∈ variantActions ctx v d) {g : ActionGroup} (hg : a.group = g) :
    a ∈ partActions ctx v d g := by
  have hm : a ∈ (variantActions ctx v d).filter (·.group == g) :=
    List.mem_filter.2 ⟨h, beq_iff_eq.2 hg⟩
  rw [filter_group_variantActions] at hm
  exact (mem_gate.1 hm).2

/-- What passes the filter of a part is called for. -/
theorem mem_variantActions {g : ActionGroup} (hf : ctx.filter.passes g = true)
    (h : a ∈ partActions ctx v d g) : a ∈ variantActions ctx v d := by
  have hm : a ∈ (variantActions ctx v d).filter (·.group == g) := by
    rw [filter_group_variantActions]
    exact mem_gate.2 ⟨hf, h⟩
  exact (List.mem_filter.1 hm).1

theorem group_removeVariantActions {old : Product} {new : ProductDraft}
    (h : a ∈ removeVariantActions old new) : a.group = .variants := by
  obtain ⟨v, _, rfl⟩ := List.mem_map.1 h
  rfl

theorem group_masterActions {old : Product} {new : ProductDraft} {as : List ProductAction}
    (he : masterActions old new = .ok as) (h : a ∈ as) : a.group = .variants := by
  unfold masterActions at he
  split at he
  · cases he
  · split at he
    · cases he
    · split at he
      · cases he
        exact absurd h List.not_mem_nil
      · split at he
        · cases he
        · cases he
          rcases List.mem_cons.1 h with rfl | h
          · rfl
          · split at h
            · exact absurd h List.not_mem_nil
            · rw [List.mem_singleton.1 h]
              rfl

theorem group_entryActions {stored : SortedMap String Variant} {e : Option VariantDraft}
    (h : a ∈ entryActions ctx stored e) : a.group ∈ variantGroups := by
  cases e with
  | none => exact absurd h List.not_mem_nil
  | some d =>
    simp only [entryActions] at h
    split at h
    · exact absurd h List.not_mem_nil
    · split at h
      · exact List.mem_cons_of_mem _ (group_variantActions h)
      · rw [List.mem_singleton.1 (mem_gate.1 h).2]
        exact List.mem_cons_self ..

/-! ### Groups of the actions on details -/

/-- The groups of the actions on details. -/
def detailGroups : List ActionGroup :=
  [.name, .description, .slug, .searchKeywords, .metaTitle, .metaDescription, .metaKeywords,
   .taxCategory, .state, .categories, .categoryOrderHints]

variable {old : Product} {new : ProductDraft}

theorem group_taxCategoryActions (h : a ∈ taxCategoryActions old new) : a.group = .taxCategory := by
  unfold taxCategoryActions at h
  split at h
  · exact absurd h List.not_mem_nil
  · rw [List.mem_singleton.1 h]
    rfl

theorem group_stateActions (h : a ∈ stateActions old new) : a.group = .state := by
  unfold stateActions at h
  split at h
  · exact absurd h List.not_mem_nil
  · split at h
    · exact absurd h List.not_mem_nil
    · rw [List.mem_singleton.1 h]
      rfl

theorem group_categoryActions (h : a ∈ categoryActions old new) : a.group = .categories := by
  rcases List.mem_append.1 h with h | h
  · obtain ⟨c, _, rfl⟩ := List.mem_map.1 h
    rfl
  · obtain ⟨c, _, rfl⟩ := List.mem_map.1 h
    rfl

theorem group_orderHintActions (h : a ∈ orderHintActions old new) :
    a.group = .categoryOrderHints := by
  unfold orderHintActions at h
  simp only at h
  split at h
  · exact absurd h List.not_mem_nil
  · rcases List.mem_append.1 h with h | h
    · obtain ⟨id, _, rfl⟩ := List.mem_map.1 h
      rfl
    · obtain ⟨e, _, rfl⟩ := List.mem_map.1 h
      rfl

theorem group_detailActions {f : Filter} (h : a ∈ detailActions f old new) :
    a.group ∈ detailGroups := by
  have hof (g : ActionGroup) (hg : g ∈ detailGroups) (ha : a.group = g) : a.group ∈ detailGroups :=
    ha ▸ hg
  simp only [detailActions, List.mem_append, mem_gate, or_assoc] at h
  rcases h with h | h | h | h | h | h | h | h | h | h | h
  · exact hof .name (by decide) (group_whenChanged h.2)
  · exact hof .description (by decide) (group_whenChanged h.2)
  · exact hof .slug (by decide) (group_whenChanged h.2)
  · exact hof .searchKeywords (by decide) (group_whenChanged h.2)
  · exact hof .metaTitle (by decide) (group_whenChanged h.2)
  · exact hof .metaDescription (by decide) (group_whenChanged h.2)
  · exact hof .metaKeywords (by decide) (group_whenChanged h.2)
  · exact hof .taxCategory (by decide) (group_taxCategoryActions h.2)
  · exact hof .state (by decide) (group_stateActions h.2)
  · exact hof .categories (by decide) (group_categoryActions h.2)
  · exact hof .categoryOrderHints (by decide) (group_orderHintActions h.2)

theorem group_publication {desired : Option Bool} {current others staged : Bool}
    (h : a ∈ publication desired current others staged) : a.group = .publish := by
  unfold publication at h
  split at h
  · exact absurd h List.not_mem_nil
  · rw [List.mem_singleton.1 h]
    rfl
  · rw [List.mem_singleton.1 h]
    rfl
  · split at h
    · rw [List.mem_singleton.1 h]
      rfl
    · exact absurd h List.not_mem_nil

end CatalogSync.Diff
