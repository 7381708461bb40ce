import CatalogSync.Diff.VariantList
import CatalogSync.Proofs.Replay

/- Attributes of a variant. An attribute may be written more than once, by the actions on the
   variant and by those on all variants, so what counts is that all that is written for a name is
   the value that the draft wants, and that something is written where that value is missing
   (`replay_attributes`). Values are compared as the diff compares them, and each name under which
   they differ is written once (`attributeActions_eq`, `nodup_changedNames`). -/
namespace CatalogSync.Diff

open CatalogSync.Edit (attributes replay)

/-- The maps hold equal values under every name, or none. -/
def Agree (m m' : SortedMap String Json) : Prop :=
  ∀ name, (m.get? name == m'.get? name) = true

/-- What an action writes for a name, if it writes something. -/
def written? (name : String) : ProductAction → Option (Option Json)
  | .setAttribute _ n value => if n = name then some value else none
  | .setAttributeInAllVariants n value => if n = name then some value else none
  | _ => none

/-! ### Replaying writes -/

theorem get?_writeAttribute (n name : String) (value : Option Json) (m : SortedMap String Json) :
    (Edit.writeAttribute n value m).get? name = if n = name then value else m.get? name := by
  cases value with
  | none => exact SortedMap.get?_erase m n name
  | some j => exact SortedMap.get?_insert m n name j

theorem get?_attributes (name : String) (a : ProductAction) (m : SortedMap String Json) :
    (attributes a m).get? name = (written? name a).getD (m.get? name) := by
  cases a
  case setAttribute id n value =>
    rw [attributes, get?_writeAttribute, written?]
    split <;> rfl
  case setAttributeInAllVariants n value =>
    rw [attributes, get?_writeAttribute, written?]
    split <;> rfl
  all_goals rfl

/-- If all that is written for a name is `value`, and it is written or there from the start, then
    it is there in the end. -/
theorem replay_attributes {name : String} {value : Option Json} {as : List ProductAction}
    {m : SortedMap String Json}
    (hw : ∀ a ∈ as, ∀ x, written? name a = some x → (x == value) = true)
    (hm : (m.get? name == value) = true ∨ ∃ a ∈ as, (written? name a).isSome = true) :
    ((replay attributes as m).get? name == value) = true :=
  @Edit.replay_written _ _ _ attributes (fun m => m.get? name) (written? name)
    (get?_attributes name) (fun x => (x == value) = true) as m hw hm

/-! ### The actions on attributes -/

variable {ctx : DiffContext} {v : Variant} {d : VariantDraft}

theorem written_writeAttribute (ctx : DiffContext) (id : UInt32) (n name : String)
    (value : Option Json) :
    written? name (writeAttribute ctx id n value) = if n = name then some value else none := by
  unfold writeAttribute
  split <;> rfl

/-- The names of a variant that the draft lacks. -/
def unsetNames (v : Variant) (d : VariantDraft) : List String :=
  v.attributes.keys.filter fun n => !d.attributes.contains n

/-- The names that the draft has with another value than the variant. -/
def setNames (v : Variant) (d : VariantDraft) : List String :=
  (d.attributes.entries.filter fun e => !(v.attributes.get? e.1 == some e.2)).map (·.1)

/-- The names under which variant and draft differ, those to be unset first. -/
def changedNames (v : Variant) (d : VariantDraft) : List String := unsetNames v d ++ setNames v d

theorem get?_of_mem_unsetNames {n : String} (h : n ∈ unsetNames v d) :
    d.attributes.get? n = none := by
  have hd : d.attributes.contains n = false := by simpa using (List.mem_filter.1 h).2
  exact Option.isNone_iff_eq_none.1 (Option.isSome_eq_false_iff.1 hd)

theorem mem_setNames {n : String} : n ∈ setNames v d ↔
    ∃ j, d.attributes.get? n = some j ∧ (v.attributes.get? n == some j) = false := by
  simp only [setNames, List.mem_map, List.mem_filter, Bool.not_eq_true', SortedMap.get?_eq_some]
  constructor
  · intro h
    obtain ⟨e, ⟨he, hd⟩, rfl⟩ := h
    exact ⟨e.2, he, hd⟩
  · intro h
    obtain ⟨j, he, hd⟩ := h
    exact ⟨(n, j), ⟨he, hd⟩, rfl⟩

theorem mem_changedNames {n : String} :
    n ∈ changedNames v d ↔ (v.attributes.get? n == d.attributes.get? n) = false := by
  rw [changedNames, List.mem_append, mem_setNames, unsetNames, List.mem_filter,
    SortedMap.mem_keys, SortedMap.contains]
  cases d.attributes.get? n with
  | none => cases v.attributes.get? n <;> simp
  | some j => simp

/-- Each name is there once, since a name that the draft lacks is not one that it sets. -/
theorem nodup_changedNames (v : Variant) (d : VariantDraft) : (changedNames v d).Nodup := by
  have hset : (setNames v d).Sublist d.attributes.keys := List.filter_sublist.map _
  refine List.nodup_append.2 ⟨(SortedMap.nodup_keys _).sublist List.filter_sublist,
    (SortedMap.nodup_keys _).sublist hset, ?_⟩
  intro n hn n' hn' he
  obtain ⟨j, hj, -⟩ := mem_setNames.1 hn'
  rw [← he, get?_of_mem_unsetNames hn] at hj
  cases hj

/-- Each of these names is written with what the draft has under it. -/
theorem attributeActions_eq (ctx : DiffContext) (v : Variant) (d : VariantDraft) :
    attributeActions ctx v d =
      (changedNames v d).map fun n => writeAttribute ctx v.id n (d.attributes.get? n) := by
  rw [changedNames, List.map_append, setNames, List.map_map, attributeActions]
  congr 1
  · apply List.map_congr_left
    intro n hn
    rw [get?_of_mem_unsetNames hn]
  · apply List.map_congr_left
    intro e he
    have he : d.attributes.get? e.1 = some e.2 := SortedMap.get?_eq_some.2 (List.mem_filter.1 he).1
    rw [Function.comp, he]

theorem mem_attributeActions {a : ProductAction} : a ∈ attributeActions ctx v d ↔
    ∃ n, (v.attributes.get? n == d.attributes.get? n) = false ∧
      a = writeAttribute ctx v.id n (d.attributes.get? n) := by
  rw [attributeActions_eq, List.mem_map]
  exact exists_congr fun n => and_congr mem_changedNames eq_comm

/-- What is written for a name is what the draft has under it. -/
theorem written_attributeActions {a : ProductAction} {name : String} {x : Option Json}
    (h : a ∈ attributeActions ctx v d) (hx : written? name a = some x) :
    x = d.attributes.get? name := by
  obtain ⟨n, -, rfl⟩ := mem_attributeActions.1 h
  rw [written_writeAttribute] at hx
  split at hx
  · next hname =>
    cases hx
    rw [hname]
  · cases hx

/-- A name under which variant and draft differ is written. -/
theorem exists_write {name : String}
    (h : (v.attributes.get? name == d.attributes.get? name) = false) :
    ∃ a ∈ attributeActions ctx v d, (written? name a).isSome = true := by
  refine ⟨_, mem_attributeActions.2 ⟨name, h, rfl⟩, ?_⟩
  rw [written_writeAttribute, if_pos rfl]
  rfl

/-- Attributes that agree with those of the draft call for no action. -/
theorem attributeActions_eq_nil (h : Agree v.attributes d.attributes) :
    attributeActions ctx v d = [] := by
  apply List.eq_nil_iff_forall_not_mem.2
  intro a ha
  obtain ⟨n, hn, -⟩ := mem_attributeActions.1 ha
  exact Bool.false_ne_true (hn.symm.trans (h n))

end CatalogSync.Diff
