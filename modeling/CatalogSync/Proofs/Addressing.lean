import CatalogSync.Edit.Variant
import CatalogSync.Proofs.Grouping

/- Which variants the actions on variants name. What the diff of a stored variant and its draft
   yields names that variant and no other; apart from product-wide attributes and from prices
   that are addressed by id, it names it always. -/
namespace CatalogSync.Diff

open CatalogSync.Edit (target?)

variable {ctx : DiffContext} {v : Variant} {d : VariantDraft} {a : ProductAction}

theorem target_skuActions (h : a ∈ skuActions v d) : target? a = some v.id := by
  rw [(mem_whenChanged.1 h).2]
  rfl

theorem target_writeAttribute {name : String} {value : Option Json} {id i : UInt32}
    (hi : target? (writeAttribute ctx id name value) = some i) : i = id := by
  unfold writeAttribute at hi
  split at hi
  · cases hi
  · exact (Option.some.inj hi).symm

theorem target_attributeActions (h : a ∈ attributeActions ctx v d) {i : UInt32}
    (hi : target? a = some i) : i = v.id := by
  rcases List.mem_append.1 h with h | h
  · obtain ⟨name, _, rfl⟩ := List.mem_map.1 h
    exact target_writeAttribute hi
  · obtain ⟨e, _, rfl⟩ := List.mem_map.1 h
    exact target_writeAttribute hi

theorem target_imageActions (h : a ∈ imageActions v d) : target? a = some v.id := by
  simp only [imageActions, List.mem_append] at h
  rcases h with ((h | h) | h) | h
  · obtain ⟨url, _, rfl⟩ := List.mem_map.1 h
    rfl
  · obtain ⟨image, _, rfl⟩ := List.mem_map.1 h
    rfl
  · obtain ⟨url, n, _, rfl⟩ := moveActions_mem h
    rfl
  · obtain ⟨image, _, h⟩ := List.mem_flatMap.1 h
    rw [labelActions_mem h]
    rfl

theorem target_priceActions (h : a ∈ priceActions v d) {i : UInt32}
    (hi : target? a = some i) : i = v.id := by
  rcases List.mem_append.1 h with h | h
  · obtain ⟨p, _, h⟩ := List.mem_flatMap.1 h
    obtain ⟨id, _, rfl⟩ := dropPriceActions_mem h
    cases hi
  · obtain ⟨p, _, h⟩ := List.mem_flatMap.1 h
    rcases placePriceActions_mem h with ⟨_, _, id, _, rfl⟩ | rfl
    · cases hi
    · exact (Option.some.inj hi).symm

theorem target_assetActions (h : a ∈ assetActions v d) : target? a = some v.id := by
  simp only [assetActions, List.mem_append] at h
  rcases h with (h | h) | h
  · obtain ⟨key, _, rfl⟩ := List.mem_map.1 h
    rfl
  · obtain ⟨p, -, ⟨e, -, rfl | rfl⟩ | ⟨-, n, rfl⟩⟩ := placeAssets_mem h
    · rfl
    · rfl
    · rfl
  · split at h
    · exact absurd h List.not_mem_nil
    · rw [List.mem_singleton.1 h]
      rfl

/-- The actions on one variant name no other. -/
theorem target_variantActions (h : a ∈ variantActions ctx v d) {i : UInt32}
    (hi : target? a = some i) : i = v.id := by
  simp only [variantActions, List.mem_append, mem_gate] at h
  rcases h with (((h | h) | h) | h) | h
  · exact Option.some.inj (hi.symm.trans (target_skuActions h.2))
  · exact target_attributeActions h.2 hi
  · exact Option.some.inj (hi.symm.trans (target_imageActions h.2))
  · exact target_priceActions h.2 hi
  · exact Option.some.inj (hi.symm.trans (target_assetActions h.2))

end CatalogSync.Diff
