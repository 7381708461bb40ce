import CatalogSync.Proofs.Nulls
import CatalogSync.Catalog.Channel
import CatalogSync.Catalog.Product
import CatalogSync.Sync.Config

/- The JSON forms of the data: drafts, products, channels and what they are made of, and the
   settings of a diff and of a sync. Every value is read back from its tree, so distinct values have
   distinct trees, and nulls stand only for absent variants and inside attribute values. Main
   statement: `data_faithful`. -/
namespace CatalogSync

open Json Json.Members

/-! ### Identifiers -/

namespace ResourceId

theorem length_hyphenate : ∀ {ns : List Nat} {cs : List Char},
    ns.foldr (· + ·) 0 ≤ cs.length → (hyphenate ns cs).length = cs.length + ns.length
  | [], _, _ => rfl
  | n :: ns, cs, h => by
    have h : n + ns.foldr (· + ·) 0 ≤ cs.length := h
    rw [hyphenate, List.length_append, List.length_cons, length_hyphenate (by simp; omega),
      List.length_take, List.length_drop, List.length_cons]
    omega

theorem dropHyphens?_hyphenate : ∀ {ns : List Nat} {cs : List Char},
    ns.foldr (· + ·) 0 ≤ cs.length → dropHyphens? ns (hyphenate ns cs) = some cs
  | [], _, _ => rfl
  | n :: ns, cs, h => by
    have h : n + ns.foldr (· + ·) 0 ≤ cs.length := h
    have hn : (cs.take n).length = n := by rw [List.length_take]; omega
    rw [hyphenate, dropHyphens?, List.drop_left' hn, List.take_left' hn]
    show (dropHyphens? ns (hyphenate ns (cs.drop n))).map (cs.take n ++ ·) = some cs
    rw [dropHyphens?_hyphenate (by simp; omega), Option.map_some, List.take_append_drop]

theorem mapM_hexDigit? : ∀ ds : List (Fin 16), (ds.map hexDigit).mapM hexDigit? = some ds
  | [] => rfl
  | d :: ds => by
    rw [List.map_cons, List.mapM_cons, hexDigit?_hexDigit, mapM_hexDigit? ds]
    rfl

theorem ofHex?_digits (x : ResourceId) : ofHex? (x.digits.map hexDigit) = some x := by
  rw [ofHex?, mapM_hexDigit?]
  exact dif_pos x.size

/-- A text that starts with a digit stands for itself. -/
theorem bare_of_digit (d : Fin 16) (cs : List Char) :
    bare (hexDigit d :: cs) = hexDigit d :: cs := by
  have hbrace : hexDigit d ≠ '\x7b' := by revert d; decide
  have hurn : (hexDigit d).toLower ≠ 'u' := by revert d; decide
  unfold bare
  rw [if_neg, if_neg]
  · intro h
    exact hurn (List.cons.inj h).1
  · intro h
    exact hbrace (Option.some.inj h.1)

theorem parse?_display (x : ResourceId) : parse? x.display = some x := by
  have hlength : (x.digits.map hexDigit).length = 32 := (List.length_map _).trans x.size
  have hsum : groupSizes.foldr (· + ·) 0 ≤ (x.digits.map hexDigit).length := by
    rw [hlength]
    decide
  have hbare : bare (hyphenate groupSizes (x.digits.map hexDigit)) =
      hyphenate groupSizes (x.digits.map hexDigit) := by
    cases hd : x.digits with
    | nil =>
      rw [hd] at hlength
      cases hlength
    | cons d ds => exact bare_of_digit d _
  unfold parse? display
  rw [String.toList_ofList, if_neg, hbare, dropHyphens?_hyphenate hsum]
  · exact ofHex?_digits x
  · rw [length_hyphenate hsum, hlength]
    decide

instance : LawfulJsonForm ResourceId := ⟨parse?_display⟩
instance : NullFreeForm ResourceId := ⟨fun _ _ h => by cases h⟩

end ResourceId

/-! ### Labels -/

instance : NullFreeForm ChannelRole := ⟨fun _ _ h => by cases h⟩

instance : NullFreeForm ActionGroup := ⟨fun _ _ h => by cases h⟩

instance : NullFreeForm AttributeConstraint := ⟨fun _ _ h => by cases h⟩

/-! ### Records without nulls -/

instance : LawfulJsonForm Reference := ⟨fun r => read?_record (by simp) fun ms look => by
  rw [optional_of_lookup (look "id"), optional_of_lookup (look "key")]
  rfl⟩

instance : NullFreeForm Reference := ⟨fun _ => nullFree_record (by simp)⟩

instance : LawfulJsonForm Money := ⟨fun m => read?_record (by simp) fun ms look => by
  rw [required_of_lookup (look "cent_amount"), required_of_lookup (look "currency")]
  rfl⟩

instance : NullFreeForm Money := ⟨fun _ => nullFree_record (by simp)⟩

instance : LawfulJsonForm Price := ⟨fun p => read?_record (by simp) fun ms look => by
  rw [optional_of_lookup (look "id"), optional_of_lookup (look "key"),
    required_of_lookup (look "value"), optional_of_lookup (look "country"),
    optional_of_lookup (look "channel"), optional_of_lookup (look "customer_group")]
  rfl⟩

instance : NullFreeForm Price := ⟨fun _ => nullFree_record (by simp)⟩

instance : LawfulJsonForm ImageDimensions := ⟨fun d => read?_record (by simp) fun ms look => by
  rw [required_of_lookup (look "w"), required_of_lookup (look "h")]
  rfl⟩

instance : NullFreeForm ImageDimensions := ⟨fun _ => nullFree_record (by simp)⟩

instance : LawfulJsonForm Image := ⟨fun i => read?_record (by simp) fun ms look => by
  rw [required_of_lookup (look "url"), optional_of_lookup (look "dimensions"),
    optional_of_lookup (look "label")]
  rfl⟩

instance : NullFreeForm Image := ⟨fun _ => nullFree_record (by simp)⟩

instance : LawfulJsonForm AssetSource := ⟨fun s => read?_record (by simp) fun ms look => by
  rw [required_of_lookup (look "uri"), optional_of_lookup (look "key")]
  rfl⟩

instance : NullFreeForm AssetSource := ⟨fun _ => nullFree_record (by simp)⟩

instance : LawfulJsonForm Asset := ⟨fun a => read?_record (by simp) fun ms look => by
  rw [optional_of_lookup (look "key"), required_of_lookup (look "name"),
    defaulted_of_lookup _ (look "sources")]
  rfl⟩

instance : NullFreeForm Asset := ⟨fun _ => nullFree_record (by simp)⟩

instance : LawfulJsonForm ChannelDraft := ⟨fun d => read?_record (by simp) fun ms look => by
  rw [optional_of_lookup (look "key"), optional_of_lookup (look "name"),
    optional_of_lookup (look "description"), defaulted_of_lookup _ (look "roles")]
  rfl⟩

instance : NullFreeForm ChannelDraft := ⟨fun _ => nullFree_record (by simp)⟩

instance : LawfulJsonForm Channel := ⟨fun c => read?_record (by simp) fun ms look => by
  rw [required_of_lookup (look "id"), required_of_lookup (look "version"),
    required_of_lookup (look "key"), optional_of_lookup (look "name"),
    optional_of_lookup (look "description"), defaulted_of_lookup _ (look "roles")]
  rfl⟩

instance : NullFreeForm Channel := ⟨fun _ => nullFree_record (by simp)⟩

/-! ### Settings -/

instance : LawfulJsonForm Filter := ⟨fun f => by
  cases f with
  | all => rfl
  | only groups => exact congrArg (Option.map Filter.only) (LawfulJsonForm.read?_write groups)
  | exclude groups =>
    exact congrArg (Option.map Filter.exclude) (LawfulJsonForm.read?_write groups)⟩

instance : NullFreeForm Filter := ⟨fun f => by
  cases f with
  | all => exact nullFree_obj (by simp)
  | only groups => exact nullFree_obj (by simp [NullFreeForm.nullFree])
  | exclude groups => exact nullFree_obj (by simp [NullFreeForm.nullFree])⟩

instance : LawfulJsonForm DiffContext := ⟨fun c => read?_record (by simp) fun ms look => by
  rw [defaulted_of_lookup _ (look "filter"), defaulted_of_lookup _ (look "same_for_all_attributes")]
  rfl⟩

instance : NullFreeForm DiffContext := ⟨fun _ => nullFree_record (by simp)⟩

instance : LawfulJsonForm Config := ⟨fun c => read?_record (by simp) fun ms look => by
  rw [defaulted_of_lookup _ (look "batch_size"), defaulted_of_lookup _ (look "sync_filter"),
    defaulted_of_lookup _ (look "attribute_metadata")]
  rfl⟩

instance : NullFreeForm Config := ⟨fun _ => nullFree_record (by simp)⟩

/-! ### Variants -/

namespace VariantDraft

/-- The content of a variant is read from any members that look up like its fields. -/
theorem ofMembers?_of_lookup {v : VariantDraft} {ms : Members}
    (look : ∀ name ∈ memberNames, ms.lookup name = (v.fields.lookup name).join) :
    ofMembers? ms = some v := by
  rw [ofMembers?, optional_of_lookup (look "key" (by decide)),
    optional_of_lookup (look "sku" (by decide)),
    defaulted_of_lookup _ (look "attributes" (by decide)),
    defaulted_of_lookup _ (look "images" (by decide)),
    defaulted_of_lookup _ (look "prices" (by decide)),
    defaulted_of_lookup _ (look "assets" (by decide))]
  rfl

instance : LawfulJsonForm VariantDraft := ⟨fun v => by
  refine read?_record ?_ fun ms look => ?_
  · rw [map_fst_fields]
    decide
  · exact ofMembers?_of_lookup fun name _ => look name⟩

/-- The paths to the nulls of a variant: each leads into an attribute and on to a null of its
    value. -/
def NullPlace (v : VariantDraft) (p : List Step) : Prop :=
  ∃ name value q, v.attributes.get? name = some value ∧
    p = .member "attributes" :: .member name :: q ∧ value.NullAt q

theorem nullAt_fields {v : VariantDraft} {p : List Step} :
    NullAt (record v.fields) p ↔ v.NullPlace p := by
  have hfield : NullAt (record v.fields) p ↔
      NullInField "attributes" (some (write v.attributes)) p := by
    simp [nullAt_record, fields]
  rw [hfield, nullInField_some]
  constructor
  · rintro ⟨q, rfl, hq⟩
    obtain ⟨name, value, r, hv, rfl, hr⟩ := nullAt_map.1 hq
    exact ⟨name, value, r, hv, rfl, hr⟩
  · rintro ⟨name, value, r, hv, rfl, hr⟩
    exact ⟨_, rfl, nullAt_map.2 ⟨name, value, r, hv, rfl, hr⟩⟩

end VariantDraft

instance : LawfulJsonForm Variant := ⟨fun v => by
  refine read?_record ?_ fun ms look => ?_
  · rw [List.map_cons, VariantDraft.map_fst_fields]
    show ("id" :: VariantDraft.memberNames).Nodup
    decide
  · have hcontent : VariantDraft.ofMembers? ms = some v.toVariantDraft := by
      apply VariantDraft.ofMembers?_of_lookup
      intro name hname
      have hid : (name == "id") = false := by
        revert name
        decide
      rw [look, List.lookup_cons, hid]
    rw [required_of_lookup (look "id"), hcontent]
    rfl⟩

theorem nullAt_variant {v : Variant} {p : List Step} :
    NullAt (write v) p ↔ v.toVariantDraft.NullPlace p := by
  show NullAt (record (("id", some (write v.id)) :: v.fields)) p ↔ _
  rw [← VariantDraft.nullAt_fields]
  simp [nullAt_record]

instance : SolidJsonForm VariantDraft := ⟨fun _ h => by cases h⟩

/-! ### Products -/

namespace ProductDetails

/-- The details of a product are read from any members that look up like their fields. -/
theorem ofMembers?_of_lookup {d : ProductDetails} {rest : List (String × Option Json)}
    {ms : Members} (look : ∀ name, ms.lookup name = ((d.fields ++ rest).lookup name).join) :
    ofMembers? ms = some d := by
  rw [ofMembers?, optional_of_lookup (look "key"), required_of_lookup (look "name"),
    required_of_lookup (look "slug"), optional_of_lookup (look "description"),
    optional_of_lookup (look "meta_title"), optional_of_lookup (look "meta_description"),
    optional_of_lookup (look "meta_keywords"), optional_of_lookup (look "search_keywords"),
    defaulted_of_lookup _ (look "categories"), optional_of_lookup (look "category_order_hints"),
    optional_of_lookup (look "tax_category"), optional_of_lookup (look "state")]
  rfl

end ProductDetails

instance : LawfulJsonForm ProductDraft := ⟨fun d => by
  refine read?_record (by simp [ProductDetails.fields]) fun ms look => ?_
  rw [ProductDetails.ofMembers?_of_lookup look, optional_of_lookup (look "publish"),
    optional_of_lookup (look "master_variant"), defaulted_of_lookup _ (look "variants")]
  rfl⟩

instance : LawfulJsonForm Product := ⟨fun p => by
  refine read?_record (by simp [ProductDetails.fields]) fun ms look => ?_
  rw [ProductDetails.ofMembers?_of_lookup look, required_of_lookup (look "id"),
    required_of_lookup (look "version"), defaulted_of_lookup _ (look "published"),
    defaulted_of_lookup _ (look "has_staged_changes"), required_of_lookup (look "master_variant"),
    defaulted_of_lookup _ (look "variants")]
  rfl⟩

/-- The paths to the nulls of a product draft: the null entries among its variants, and the nulls
    of its variants. -/
def ProductDraft.NullPlace (d : ProductDraft) (p : List Step) : Prop :=
  (∃ i, d.variants[i]? = some none ∧ p = [.member "variants", .element i]) ∨
  (∃ v q, d.masterVariant = some v ∧ p = .member "master_variant" :: q ∧ v.NullPlace q) ∨
  ∃ i v q, d.variants[i]? = some (some v) ∧ p = .member "variants" :: .element i :: q ∧
    v.NullPlace q

/-- The paths to the nulls of a stored product: those of its variants. -/
def Product.NullPlace (d : Product) (p : List Step) : Prop :=
  (∃ q, p = .member "master_variant" :: q ∧ d.masterVariant.NullPlace q) ∨
  ∃ i v q, d.variants[i]? = some v ∧ p = .member "variants" :: .element i :: q ∧ v.NullPlace q

theorem nullAt_productDraft {d : ProductDraft} {p : List Step} :
    NullAt (write d) p ↔ d.NullPlace p := by
  have hfields : NullAt (write d) p ↔
      NullInField "master_variant" (d.masterVariant.map write) p ∨
        NullInField "variants" (some (write d.variants)) p := by
    show NullAt (record (d.fields ++ _)) p ↔ _
    simp [nullAt_record, ProductDetails.fields]
  rw [hfields, nullInField_some]
  constructor
  · rintro (⟨j, q, hj, rfl, hq⟩ | ⟨q, rfl, hq⟩)
    · obtain ⟨v, hv, rfl⟩ := Option.map_eq_some_iff.1 hj
      exact Or.inr (Or.inl ⟨v, q, hv, rfl, VariantDraft.nullAt_fields.1 hq⟩)
    · obtain ⟨i, entry, r, hi, rfl, hr⟩ := nullAt_list.1 hq
      cases entry with
      | none => exact Or.inl ⟨i, hi, by rw [nullAt_null.1 hr]⟩
      | some v => exact Or.inr (Or.inr ⟨i, v, r, hi, rfl, VariantDraft.nullAt_fields.1 hr⟩)
  · rintro (⟨i, hi, rfl⟩ | ⟨v, q, hv, rfl, hq⟩ | ⟨i, v, q, hi, rfl, hq⟩)
    · exact Or.inr ⟨_, rfl, nullAt_list.2 ⟨i, none, [], hi, rfl, .here⟩⟩
    · exact Or.inl ⟨write v, q, by rw [hv]; rfl, rfl, VariantDraft.nullAt_fields.2 hq⟩
    · exact Or.inr ⟨_, rfl, nullAt_list.2 ⟨i, some v, q, hi, rfl, VariantDraft.nullAt_fields.2 hq⟩⟩

theorem nullAt_product {d : Product} {p : List Step} : NullAt (write d) p ↔ d.NullPlace p := by
  have hfields : NullAt (write d) p ↔
      NullInField "master_variant" (some (write d.masterVariant)) p ∨
        NullInField "variants" (some (write d.variants)) p := by
    show NullAt (record (d.fields ++ _)) p ↔ _
    simp [nullAt_record, ProductDetails.fields]
  rw [hfields, nullInField_some, nullInField_some]
  constructor
  · rintro (⟨q, rfl, hq⟩ | ⟨q, rfl, hq⟩)
    · exact Or.inl ⟨q, rfl, nullAt_variant.1 hq⟩
    · obtain ⟨i, v, r, hi, rfl, hr⟩ := nullAt_list.1 hq
      exact Or.inr ⟨i, v, r, hi, rfl, nullAt_variant.1 hr⟩
  · rintro (⟨q, rfl, hq⟩ | ⟨i, v, q, hi, rfl, hq⟩)
    · exact Or.inl ⟨q, rfl, nullAt_variant.2 hq⟩
    · exact Or.inr ⟨_, rfl, nullAt_list.2 ⟨i, v, q, hi, rfl, nullAt_variant.2 hq⟩⟩

/-! ### All data -/

/-- The form of a type tells its values apart: each is read back from its tree, so no two have the
    same one, and nulls stand in a tree at the given paths and nowhere else. -/
structure Faithful (α : Type) [JsonForm α] (nulls : α → List Step → Prop) : Prop where
  read_write : ∀ a : α, read? (write a) = some a
  injective : ∀ a b : α, write a = write b → a = b
  null_iff : ∀ (a : α) (p : List Step), NullAt (write a) p ↔ nulls a p

theorem faithful {α : Type} [JsonForm α] [LawfulJsonForm α] {nulls : α → List Step → Prop}
    (h : ∀ (a : α) (p : List Step), NullAt (write a) p ↔ nulls a p) : Faithful α nulls where
  read_write := LawfulJsonForm.read?_write
  injective a b hw := by
    have hread := congrArg (read? (α := α)) hw
    rw [LawfulJsonForm.read?_write, LawfulJsonForm.read?_write] at hread
    exact Option.some.inj hread
  null_iff := h

/-- The paths to the nulls of a value that is written without any. -/
def nowhere {α : Type} (_ : α) (_ : List Step) : Prop := False

theorem faithful_of_nullFree {α : Type} [JsonForm α] [LawfulJsonForm α] [NullFreeForm α] :
    Faithful α nowhere :=
  faithful fun a p => iff_of_false (NullFreeForm.nullFree a p) id

/-- Every value of the data model and of the settings is read back from its JSON form. A draft may
    have null entries among its variants, and the attributes of a variant may hold any values; apart
    from these no null is ever written. -/
theorem data_faithful :
    Faithful ProductDraft ProductDraft.NullPlace ∧
    Faithful Product Product.NullPlace ∧
    Faithful VariantDraft VariantDraft.NullPlace ∧
    Faithful Variant (fun v => v.toVariantDraft.NullPlace) ∧
    Faithful Price nowhere ∧ Faithful Image nowhere ∧ Faithful Asset nowhere ∧
    Faithful Reference nowhere ∧ Faithful LocalizedText nowhere ∧
    Faithful ChannelDraft nowhere ∧ Faithful Channel nowhere ∧
    Faithful Filter nowhere ∧ Faithful DiffContext nowhere ∧ Faithful Config nowhere := by
  refine ⟨?_, ?_, ?_, ?_, ?_, ?_, ?_, ?_, ?_, ?_, ?_, ?_, ?_, ?_⟩
  case refine_1 => exact faithful fun _ _ => nullAt_productDraft
  case refine_2 => exact faithful fun _ _ => nullAt_product
  case refine_3 => exact faithful fun _ _ => VariantDraft.nullAt_fields
  case refine_4 => exact faithful fun _ _ => nullAt_variant
  all_goals exact faithful_of_nullFree

end CatalogSync
