import CatalogSync.Proofs.Details
import CatalogSync.Proofs.Filtering
import CatalogSync.Proofs.Pairing

/- Order hints of categories. A draft lists a category by its id, or by a key that an old category
   with an id answers to (`Lists`). Hints are written for listed categories alone: each hint that
   differs is written once, and a category that the product leaves gets none, since a draft that
   lists its id wants it. Main statement: `orderHintActions_follow`. -/
namespace CatalogSync.Diff

open CatalogSync.Edit (filter_eq_singleton atMostOne_of_nodup)

/-- A draft lists the category with an id: it names the id, or it has only a key, and of the old
    categories that are equivalent the first has the id. -/
inductive Lists (old new : List Reference) (id : String) : Prop
  | byId {category : Reference} (listed : category ∈ new) (named : category.id = some id)
  | byKey {category stored : Reference} {before after : List Reference} (listed : category ∈ new)
      (unnamed : category.id = none) (split : old = before ++ stored :: after)
      (first : ∀ c ∈ before, c.isEquivalent category = false)
      (same : stored.isEquivalent category = true) (named : stored.id = some id)

/-- The action writes the hint of a category. -/
def hintsAt (id : String) : ProductAction → Bool
  | .setCategoryOrderHint id' _ => id' == id
  | _ => false

variable {ctx : DiffContext} {old : Product} {new : ProductDraft} {id : String} {a : ProductAction}

/-! ### Membership -/

theorem memberId?_eq_some {stored : List Reference} {category : Reference} :
    memberId? stored category = some id ↔
      category.id = some id ∨ category.id = none ∧ ∃ c before after,
        stored = before ++ c :: after ∧ (∀ b ∈ before, b.isEquivalent category = false) ∧
          c.isEquivalent category = true ∧ c.id = some id := by
  unfold memberId?
  cases category.id with
  | some id' => simp
  | none =>
    simp only [Option.bind_eq_some_iff, List.find?_eq_some_iff_append, reduceCtorEq, false_or,
      true_and]
    constructor
    · intro h
      obtain ⟨c, ⟨hs, before, after, hsplit, hfirst⟩, hid⟩ := h
      exact ⟨c, before, after, hsplit, fun b hb => by simpa using hfirst b hb, hs, hid⟩
    · intro h
      obtain ⟨c, before, after, hsplit, hfirst, hs, hid⟩ := h
      exact ⟨c, ⟨hs, before, after, hsplit, fun b hb => by simpa using hfirst b hb⟩, hid⟩

theorem lists_iff : Lists old.categories new.categories id ↔ id ∈ memberIds old new := by
  rw [memberIds, List.mem_filterMap]
  constructor
  · intro h
    cases h with
    | byId hc hid => exact ⟨_, hc, memberId?_eq_some.2 (Or.inl hid)⟩
    | byKey hc hnone hsplit hfirst hs hid =>
      exact ⟨_, hc, memberId?_eq_some.2 (Or.inr ⟨hnone, _, _, _, hsplit, hfirst, hs, hid⟩)⟩
  · intro h
    obtain ⟨category, hc, hid⟩ := h
    rcases memberId?_eq_some.1 hid with hid | ⟨hnone, c, before, after, hsplit, hfirst, hs, hid⟩
    · exact .byId hc hid
    · exact .byKey hc hnone hsplit hfirst hs hid

/-! ### The hints that are written -/

/-- The ids whose hints are cleared, and then the hints that are set. -/
theorem hintWrites_parts (old : Product) (new : ProductDraft) :
    ∃ (cleared : List String) (changed : List (String × String)),
      hintWrites old new = cleared.map (·, none) ++ changed.map (fun e => (e.1, some e.2)) ∧
      cleared.Pairwise (· < ·) ∧ changed.Pairwise (fun e e' => e.1 < e'.1) := by
  unfold hintWrites
  simp only
  split
  · exact ⟨[], [], rfl, .nil, .nil⟩
  · refine ⟨_, _, rfl, ?_, (SortedMap.ascending _).filter _⟩
    exact (List.pairwise_map.2 (SortedMap.ascending _)).filter _

/-- No hint is written twice: those that are cleared are not among those of the draft. -/
theorem nodup_hintWrites (old : Product) (new : ProductDraft) :
    ((hintWrites old new).map (·.1)).Nodup := by
  obtain ⟨cleared, changed, hparts, hcleared, hchanged⟩ := hintWrites_parts old new
  have hdraft {e : String × Option String} (he : e ∈ hintWrites old new) :
      e.2 = hint? new.categoryOrderHints e.1 := (mem_hintWrites he).2.1
  rw [hparts] at hdraft ⊢
  have hids : (cleared.map (·, (none : Option String)) ++
      changed.map fun e => (e.1, some e.2)).map (·.1) = cleared ++ changed.map (·.1) := by
    rw [List.map_append, List.map_map, List.map_map]
    exact congrArg (· ++ _) (List.map_id cleared)
  rw [hids, List.nodup_append]
  refine ⟨hcleared.imp LinearKey.ne_of_lt, (List.pairwise_map.2 hchanged).imp LinearKey.ne_of_lt, ?_⟩
  intro id hid id' hid' he
  obtain ⟨e, hm, rfl⟩ := List.mem_map.1 hid'
  have hnone := hdraft (List.mem_append_left _ (List.mem_map.2 ⟨id, hid, rfl⟩))
  have hsome := hdraft (List.mem_append_right _ (List.mem_map.2 ⟨e, hm, rfl⟩))
  rw [he] at hnone
  rw [← hnone] at hsome
  cases hsome

theorem mem_orderHintActions {hint : Option String} :
    .setCategoryOrderHint id hint ∈ orderHintActions old new ↔ (id, hint) ∈ hintWrites old new := by
  rw [orderHintActions_eq, List.mem_map]
  constructor
  · intro h
    obtain ⟨e, he, h⟩ := h
    cases h
    exact he
  · exact fun h => ⟨_, h, rfl⟩

/-- A hint is written if the draft lists the category and has another hint than the product. -/
theorem hintWrite_iff : (∃ hint, (id, hint) ∈ hintWrites old new) ↔ id ∈ memberIds old new ∧
    hint? old.categoryOrderHints id ≠ hint? new.categoryOrderHints id := by
  constructor
  · intro h
    obtain ⟨hint, he⟩ := h
    obtain ⟨hid, hdraft, hne⟩ := mem_hintWrites he
    exact ⟨hid, hdraft ▸ hne⟩
  · intro h
    obtain ⟨e, he, rfl⟩ := exists_hintWrite h.1 h.2
    exact ⟨e.2, he⟩

/-- All that is written for a category is the hint of the draft. -/
theorem filter_hintsAt (h : ∃ hint, (id, hint) ∈ hintWrites old new) :
    (orderHintActions old new).filter (hintsAt id) =
      [.setCategoryOrderHint id (hint? new.categoryOrderHints id)] := by
  obtain ⟨hint, he⟩ := h
  have hone : (hintWrites old new).filter (fun e => e.1 == id) = [(id, hint)] :=
    filter_eq_singleton (nodup_hintWrites old new) he
  have hdraft : hint = hint? new.categoryOrderHints id := (mem_hintWrites he).2.1
  rw [orderHintActions_eq, List.filter_map]
  show ((hintWrites old new).filter fun e => e.1 == id).map _ = _
  rw [hone, hdraft]
  rfl

/-! ### Categories that the product leaves -/

/-- The filter that nothing but one group passes. -/
def onlyGroup (g : ActionGroup) : Filter := .only (.ofList [g])

/-- Apart from variants and publication, the actions of a group are those of its builder. -/
theorem mem_detailActions_of_plan {g : ActionGroup} (h : a ∈ (productPlan ctx old new).actions)
    (hg : a.group = g) (hv : g ∉ variantGroups) (hp : g ≠ .publish) :
    a ∈ detailActions (onlyGroup g) old new := by
  subst hg
  rw [productPlan_actions, changes, List.mem_append, List.mem_append, mem_gate] at h
  rcases h with (h | h) | h
  · rw [detailActions_filter] at h ⊢
    refine List.mem_filter.2 ⟨(List.mem_filter.1 h).1, ?_⟩
    show (SortedSet.ofList [a.group]).contains a.group = true
    rw [SortedSet.contains_iff, SortedSet.mem_ofList]
    exact List.mem_singleton_self a.group
  · exact absurd (group_variantListPlan h) hv
  · exact absurd (group_publication h.2) hp

theorem detailActions_categories (old : Product) (new : ProductDraft) :
    detailActions (onlyGroup .categories) old new = categoryActions old new :=
  List.append_nil (categoryActions old new)

theorem detailActions_categoryOrderHints (old : Product) (new : ProductDraft) :
    detailActions (onlyGroup .categoryOrderHints) old new = orderHintActions old new := rfl

/-- A category that is removed has no equivalent in the draft. -/
theorem mem_categoryActions_removed {category : Reference}
    (h : .removeFromCategory category ∈ categoryActions old new) :
    category ∈ old.categories ∧ ∀ c ∈ new.categories, category.isEquivalent c = false := by
  rcases List.mem_append.1 h with h | h
  · obtain ⟨c, hc, he⟩ := List.mem_map.1 h
    cases he
    obtain ⟨hm, hnone⟩ := mem_difference hc
    exact ⟨hm, fun c hc => Bool.eq_false_iff.2 (List.any_eq_false.1 hnone c hc)⟩
  · obtain ⟨c, -, he⟩ := List.mem_map.1 h
    cases he

/-- While ids tell the old categories apart, the draft does not list the id of one that is
    removed. -/
theorem not_lists_of_removed (hids : (old.categories.filterMap (·.id)).Nodup) {category : Reference}
    (h : .removeFromCategory category ∈ categoryActions old new) (hid : category.id = some id) :
    ¬ Lists old.categories new.categories id := by
  obtain ⟨hm, hnone⟩ := mem_categoryActions_removed h
  intro hlists
  cases hlists with
  | @byId c hc hcid =>
    have hs : category.isEquivalent c = true :=
      Reference.isEquivalent_iff.2 (Or.inl ⟨id, hid, hcid⟩)
    rw [hnone c hc] at hs
    cases hs
  | @byKey c stored before after hc _ hsplit _ hs hsid =>
    -- the old category that lends its id is the one that is removed
    have hstored : stored ∈ old.categories := by simp [hsplit]
    have he : category = stored := (atMostOne_of_nodup hids id).eq hm hstored
      (beq_iff_eq.2 hid) (beq_iff_eq.2 hsid)
    rw [← he, hnone c hc] at hs
    cases hs

/-- **Order hints follow the new membership.** A category has a hint action if and only if the draft
    lists its id and the hints of product and draft differ there; an absent map counts as empty.
    The action is the only one for the category and carries the hint of the draft, or none if the
    draft has none. Hints are cleared before others are set, each in ascending order of ids. While
    ids tell the old categories apart, no hint is written for a category that the same plan
    removes. -/
theorem orderHintActions_follow (old : Product) (new : ProductDraft) :
    (∀ id, (∃ hint, .setCategoryOrderHint id hint ∈ orderHintActions old new) ↔
      Lists old.categories new.categories id ∧
        hint? old.categoryOrderHints id ≠ hint? new.categoryOrderHints id) ∧
    (∀ id, (∃ hint, .setCategoryOrderHint id hint ∈ orderHintActions old new) →
      (orderHintActions old new).filter (hintsAt id) =
        [.setCategoryOrderHint id (hint? new.categoryOrderHints id)]) ∧
    (∃ (cleared : List String) (changed : List (String × String)),
      orderHintActions old new = cleared.map (.setCategoryOrderHint · none) ++
        changed.map (fun e => .setCategoryOrderHint e.1 (some e.2)) ∧
      cleared.Pairwise (· < ·) ∧ changed.Pairwise (fun e e' => e.1 < e'.1)) ∧
    ((old.categories.filterMap (·.id)).Nodup → ∀ ctx category id hint,
      .removeFromCategory category ∈ (productPlan ctx old new).actions → category.id = some id →
        .setCategoryOrderHint id hint ∉ (productPlan ctx old new).actions) := by
  have hwritten (id : String) :
      (∃ hint, .setCategoryOrderHint id hint ∈ orderHintActions old new) ↔
        ∃ hint, (id, hint) ∈ hintWrites old new := exists_congr fun _ => mem_orderHintActions
  refine ⟨?_, ?_, ?_, ?_⟩
  · intro id
    rw [hwritten, lists_iff]
    exact hintWrite_iff
  · exact fun id h => filter_hintsAt ((hwritten id).1 h)
  · obtain ⟨cleared, changed, hparts, hcleared, hchanged⟩ := hintWrites_parts old new
    refine ⟨cleared, changed, ?_, hcleared, hchanged⟩
    rw [orderHintActions_eq, hparts, List.map_append, List.map_map, List.map_map]
    rfl
  · intro hids ctx category id hint hremoved hid hhint
    have hhint : .setCategoryOrderHint id hint ∈ orderHintActions old new := by
      rw [← detailActions_categoryOrderHints]
      exact mem_detailActions_of_plan hhint rfl (by decide) (by decide)
    have hremoved : .removeFromCategory category ∈ categoryActions old new := by
      rw [← detailActions_categories]
      exact mem_detailActions_of_plan hremoved rfl (by decide) (by decide)
    have hlisted := lists_iff.2 (hintWrite_iff.1 ⟨hint, mem_orderHintActions.1 hhint⟩).1
    exact not_lists_of_removed hids hremoved hid hlisted

/-- A product in three categories, one of them known by id and key, with a hint for each. -/
def hintedProduct : Product where
  toProductDetails := { ProductDetails.of "p" .empty .empty with
    categories := [.ofIdAndKey "c1" "k1", .ofId "c2", .ofIdAndKey "c3" "k3"]
    categoryOrderHints := some (.ofList [("c1", "0.1"), ("c2", "0.2"), ("c3", "0.3")]) }
  id := .ofNat 0
  version := 1
  published := false
  hasStagedChanges := false
  masterVariant := .ofDraft 1 (.ofKey "a")
  variants := []

/-- A draft that keeps two of the categories by their keys, one without its hint, and leaves the
    third. -/
def hintedDraft : ProductDraft where
  toProductDetails := { ProductDetails.of "p" .empty .empty with
    categories := [.ofKey "k3", .ofKey "k1", .ofId "c4"]
    categoryOrderHints := some (.ofList [("c1", "0.5"), ("c2", "0.5"), ("c4", "0.4")]) }
  publish := none
  masterVariant := some (.ofKey "a")
  variants := []

theorem orderHintActions_follow_byKey :
    (hintedProduct.categories.filterMap (·.id)).Nodup ∧
    .removeFromCategory (.ofId "c2") ∈
      (productPlan .unrestricted hintedProduct hintedDraft).actions ∧
    .setCategoryOrderHint "c2" (some "0.5") ∉
      (productPlan .unrestricted hintedProduct hintedDraft).actions ∧
    (orderHintActions hintedProduct hintedDraft).filter (hintsAt "c3") =
      [.setCategoryOrderHint "c3" none] := by
  have distinct : (hintedProduct.categories.filterMap (·.id)).Nodup := by decide
  obtain ⟨-, once, -, apart⟩ := orderHintActions_follow hintedProduct hintedDraft
  have removed : .removeFromCategory (.ofId "c2") ∈
      (productPlan .unrestricted hintedProduct hintedDraft).actions := by
    rw [productPlan_actions]
    refine List.mem_append_left _ (List.mem_append_left _ ?_)
    refine List.mem_append_left _ (List.mem_append_right _ (mem_gate.2 ⟨rfl, ?_⟩))
    exact List.mem_append_left _ (List.mem_map.2 ⟨.ofId "c2", by decide, rfl⟩)
  have cleared : .setCategoryOrderHint "c3" none ∈ orderHintActions hintedProduct hintedDraft :=
    mem_orderHintActions.2 (by decide)
  exact ⟨distinct, removed, apart distinct _ _ _ _ removed rfl, once "c3" ⟨none, cleared⟩⟩

end CatalogSync.Diff
