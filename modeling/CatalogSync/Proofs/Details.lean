import CatalogSync.Diff.Product
import CatalogSync.Proofs.Differences
import CatalogSync.Proofs.References
import CatalogSync.Proofs.Replay
import Mathlib.Data.List.Find

/- Details of a product. The actions on the details come down to one record (`settled`): plain
   fields are those of the draft, references are kept if they are equivalent to those of the draft,
   and categories and order hints are changed by as much as is needed. Equivalence of references is
   not transitive, so what can be said of the categories rests on assumptions about them
   (`WellClassified`). Main statements: `replay_detailActions`, `settled_describes`,
   `detailActions_eq_nil`. -/
namespace CatalogSync.Diff

open CatalogSync.Edit

/-! ### Categories -/

/-- The categories are named, and stored ones that are equivalent are both wanted or both not. -/
structure WellClassified (old new : List Reference) : Prop where
  stored : ∀ c ∈ old, c.named = true
  wanted : ∀ d ∈ new, d.named = true
  coherent : ∀ c ∈ old, ∀ c' ∈ old, c.isEquivalent c' = true →
    new.any c.isEquivalent = true → new.any c'.isEquivalent = true

instance (old new : List Reference) : Decidable (WellClassified old new) :=
  decidable_of_iff (_ ∧ _ ∧ _) ⟨fun ⟨h, h', h''⟩ => ⟨h, h', h''⟩,
    fun h => ⟨h.stored, h.wanted, h.coherent⟩⟩

/-- What the actions on categories make of the old ones. -/
def settledCategories (old new : List Reference) : List Reference :=
  (old.filter fun c => !(difference Reference.isEquivalent old new).any c.isEquivalent) ++
    difference Reference.isEquivalent new old

/-- The categories on either side have equivalents on the other. -/
structure Covers (stored wanted : List Reference) : Prop where
  left : ∀ c ∈ stored, wanted.any c.isEquivalent = true
  right : ∀ d ∈ wanted, stored.any d.isEquivalent = true

section Categories

variable {old new : List Reference}

/-- An old category that the draft wants stays. -/
theorem mem_settledCategories_of_wanted (h : WellClassified old new) {c : Reference} (hc : c ∈ old)
    (hw : new.any c.isEquivalent = true) :
    (!(difference Reference.isEquivalent old new).any c.isEquivalent) = true := by
  rw [Bool.not_eq_true', Bool.eq_false_iff]
  intro hr
  obtain ⟨r, hr, hs⟩ := List.any_eq_true.1 hr
  obtain ⟨hrm, hrn⟩ := mem_difference hr
  rw [h.coherent c hc r hrm hs hw] at hrn
  cases hrn

theorem covers_settledCategories (h : WellClassified old new) :
    Covers (settledCategories old new) new := by
  refine ⟨?_, ?_⟩
  · intro c hc
    rcases List.mem_append.1 hc with hc | hc
    · obtain ⟨hco, hkept⟩ := List.mem_filter.1 hc
      by_contra hnot
      -- it would be among those to remove, or equivalent to one
      obtain ⟨r, hr, hs⟩ := exists_difference hco (Bool.eq_false_iff.2 hnot)
      have hself : c.isEquivalent r = true := by
        rcases hs with rfl | hs
        · exact Reference.isEquivalent_self (h.stored c hco)
        · exact hs
      rw [Bool.not_eq_true', Bool.eq_false_iff] at hkept
      exact hkept (List.any_eq_true.2 ⟨r, hr, hself⟩)
    · have hcn := (mem_difference hc).1
      exact List.any_eq_true.2 ⟨c, hcn, Reference.isEquivalent_self (h.wanted c hcn)⟩
  · intro d hd
    cases ho : old.any d.isEquivalent with
    | true =>
      -- its equivalent among the old ones is wanted, so it is kept
      obtain ⟨c, hc, hs⟩ := List.any_eq_true.1 ho
      have hw : new.any c.isEquivalent = true :=
        List.any_eq_true.2 ⟨d, hd, c.isEquivalent_comm d ▸ hs⟩
      have hkept := mem_settledCategories_of_wanted h hc hw
      exact List.any_eq_true.2 ⟨c, List.mem_append_left _ (List.mem_filter.2 ⟨hc, hkept⟩), hs⟩
    | false =>
      obtain ⟨a, ha, hs⟩ := exists_difference hd ho
      have hself : d.isEquivalent a = true := by
        rcases hs with rfl | hs
        · exact Reference.isEquivalent_self (h.wanted d hd)
        · exact hs
      exact List.any_eq_true.2 ⟨a, List.mem_append_right _ ha, hself⟩

/-- The draft refers to no category by an id that it does not have before the actions. -/
theorem memberId?_settledCategories (h : WellClassified old new) {d : Reference} (hd : d ∈ new)
    {id : String} (hid : memberId? (settledCategories old new) d = some id) :
    ∃ d' ∈ new, memberId? old d' = some id := by
  unfold memberId? at hid
  cases hdi : d.id with
  | some i =>
    rw [hdi] at hid
    exact ⟨d, hd, by rw [memberId?, hdi]; exact hid⟩
  | none =>
    rw [hdi] at hid
    obtain ⟨c, hf, hc⟩ := Option.bind_eq_some_iff.1 hid
    have hfirst : (old.filter fun c =>
          !(difference Reference.isEquivalent old new).any c.isEquivalent).find?
        (fun c => c.isEquivalent d) = old.find? fun c => c.isEquivalent d := by
      rw [List.find?_filter]
      apply List.find?_congr
      intro c hc
      cases hs : c.isEquivalent d with
      | false => simp
      | true =>
        rw [mem_settledCategories_of_wanted h hc (List.any_eq_true.2 ⟨d, hd, hs⟩)]
        simp
    rw [settledCategories, List.find?_append] at hf
    rw [hfirst, Option.or_eq_some_iff] at hf
    rcases hf with hf | ⟨-, hf⟩
    · exact ⟨d, hd, by rw [memberId?, hdi, hf]; exact hc⟩
    · have hcn := (mem_difference (List.mem_of_find?_eq_some hf)).1
      exact ⟨c, hcn, by rw [memberId?, hc]⟩

end Categories

/-! ### Order hints -/

variable {old : Product} {new : ProductDraft}

/-- The hints that are written: some cleared, some set. -/
def hintWrites (old : Product) (new : ProductDraft) : List (String × Option String) :=
  let members := memberIds old new
  let oldHints := old.categoryOrderHints.getD .empty
  let newHints := new.categoryOrderHints.getD .empty
  if oldHints = newHints then []
  else
    (oldHints.keys.filter fun id => !newHints.contains id && members.contains id).map (·, none) ++
      (newHints.entries.filter fun e =>
        members.contains e.1 && oldHints.get? e.1 != some e.2).map fun e => (e.1, some e.2)

theorem orderHintActions_eq : orderHintActions old new =
    (hintWrites old new).map fun e => .setCategoryOrderHint e.1 e.2 := by
  unfold orderHintActions hintWrites
  simp only
  split
  · rfl
  · rw [List.map_append, List.map_map, List.map_map]
    rfl

/-- The hint of a category among hints that may be absent as a whole. -/
def hint? (m : Option (SortedMap String String)) (id : String) : Option String :=
  (m.getD .empty).get? id

theorem hint?_orderHints (id k : String) (hint : Option String)
    (m : Option (SortedMap String String)) :
    hint? (orderHints id hint m) k = if id = k then hint else hint? m k := by
  unfold hint?
  cases hint with
  | some h => exact SortedMap.get?_insert (m.getD .empty) id k h
  | none =>
    cases m with
    | none => simp [orderHints]
    | some m => exact SortedMap.get?_erase m id k

/-- Every hint that is written is that of the draft, for a category that the draft lists, and it was
    another one before. -/
theorem mem_hintWrites {e : String × Option String} (h : e ∈ hintWrites old new) :
    e.1 ∈ memberIds old new ∧ e.2 = hint? new.categoryOrderHints e.1 ∧
      hint? old.categoryOrderHints e.1 ≠ e.2 := by
  unfold hintWrites at h
  simp only at h
  split at h
  · cases h
  · rcases List.mem_append.1 h with h | h
    · obtain ⟨id, hid, rfl⟩ := List.mem_map.1 h
      obtain ⟨hkey, hid⟩ := List.mem_filter.1 hid
      rw [Bool.and_eq_true, Bool.not_eq_true', List.contains_iff_mem] at hid
      refine ⟨hid.2, ?_, ?_⟩
      · exact (Option.isNone_iff_eq_none.1 (Option.isSome_eq_false_iff.1 hid.1)).symm
      · intro hnone
        have hnone : (old.categoryOrderHints.getD .empty).get? id = none := hnone
        have hkey := SortedMap.mem_keys.1 hkey
        rw [hnone] at hkey
        cases hkey
    · obtain ⟨e', he, rfl⟩ := List.mem_map.1 h
      obtain ⟨hm, he⟩ := List.mem_filter.1 he
      rw [Bool.and_eq_true, List.contains_iff_mem, bne_iff_ne] at he
      exact ⟨he.1, (SortedMap.get?_eq_some.2 hm).symm, he.2⟩

/-- A hint that differs from that of the draft, for a category that the draft lists, is written. -/
theorem exists_hintWrite {id : String} (hid : id ∈ memberIds old new)
    (hne : hint? old.categoryOrderHints id ≠ hint? new.categoryOrderHints id) :
    ∃ e ∈ hintWrites old new, e.1 = id := by
  have hdiff : old.categoryOrderHints.getD .empty ≠ new.categoryOrderHints.getD .empty := by
    intro h
    exact hne (by rw [hint?, hint?, h])
  unfold hintWrites
  simp only [if_neg hdiff]
  cases hn : hint? new.categoryOrderHints id with
  | none =>
    -- the draft has none, so there is an old one to clear
    obtain ⟨x, hx⟩ : ∃ x, hint? old.categoryOrderHints id = some x := by
      rw [hn] at hne
      exact Option.ne_none_iff_exists'.1 hne
    have hkey : id ∈ (old.categoryOrderHints.getD .empty).keys :=
      List.mem_map.2 ⟨(id, x), SortedMap.get?_eq_some.1 hx, rfl⟩
    have hnew : (new.categoryOrderHints.getD .empty).contains id = false := by
      rw [SortedMap.contains, show (new.categoryOrderHints.getD .empty).get? id = none from hn]
      rfl
    refine ⟨(id, none), List.mem_append_left _ (List.mem_map.2 ⟨id, ?_, rfl⟩), rfl⟩
    exact List.mem_filter.2 ⟨hkey, by simp [hnew, hid]⟩
  | some x =>
    have hmem : (id, x) ∈ (new.categoryOrderHints.getD .empty).entries :=
      SortedMap.get?_eq_some.1 hn
    refine ⟨(id, some x), List.mem_append_right _ (List.mem_map.2 ⟨(id, x), ?_, rfl⟩), rfl⟩
    refine List.mem_filter.2 ⟨hmem, ?_⟩
    rw [Bool.and_eq_true, List.contains_iff_mem, bne_iff_ne, ← hn]
    exact ⟨hid, hne⟩

/-- What the actions on order hints make of the old ones. -/
def settledHints (old : Product) (new : ProductDraft) : Option (SortedMap String String) :=
  replay (fun e => orderHints e.1 e.2) (hintWrites old new) old.categoryOrderHints

/-- The hints of the categories that the draft lists are those of the draft. -/
theorem hint?_settledHints {id : String} (hid : id ∈ memberIds old new) :
    hint? (settledHints old new) id = hint? new.categoryOrderHints id := by
  refine @replay_written _ _ _ (fun e : String × Option String => orderHints e.1 e.2)
    (fun m => hint? m id) (fun e => if e.1 = id then some e.2 else none) ?_
    (fun x => x = hint? new.categoryOrderHints id) (hintWrites old new) old.categoryOrderHints ?_ ?_
  · intro e m
    rw [hint?_orderHints]
    split <;> rfl
  · intro e he x hx
    split at hx
    · next h =>
      cases hx
      rw [(mem_hintWrites he).2.1, h]
    · cases hx
  · by_cases hsame : hint? old.categoryOrderHints id = hint? new.categoryOrderHints id
    · exact Or.inl hsame
    · obtain ⟨e, he, h⟩ := exists_hintWrite hid hsame
      exact Or.inr ⟨e, he, by rw [if_pos h]; rfl⟩

/-! ### All actions on details -/

/-- What the actions on the details make of the old ones. -/
def settled (old : Product) (new : ProductDraft) : ProductDetails where
  key := old.key
  name := new.name
  slug := new.slug
  description := new.description
  metaTitle := new.metaTitle
  metaDescription := new.metaDescription
  metaKeywords := new.metaKeywords
  searchKeywords := new.searchKeywords
  categories := settledCategories old.categories new.categories
  categoryOrderHints := settledHints old new
  taxCategory :=
    if Reference.areEquivalent old.taxCategory new.taxCategory then old.taxCategory
    else new.taxCategory
  state :=
    match new.state with
    | none => old.state
    | some s => if old.state.any (·.isEquivalent s) then old.state else some s

theorem replay_removeFromCategory (removed : List Reference) (d : ProductDetails) :
    replay details (removed.map .removeFromCategory) d =
      { d with categories := d.categories.filter fun c => !removed.any c.isEquivalent } := by
  induction removed generalizing d with
  | nil =>
    have hall : (d.categories.filter fun c => !([] : List Reference).any c.isEquivalent) =
        d.categories := List.filter_eq_self.2 fun _ _ => rfl
    rw [hall]
    rfl
  | cons r removed ih =>
    rw [List.map_cons, replay_cons, ih, details]
    simp only [List.filter_filter, List.any_cons, Bool.not_or, Bool.and_comm]

theorem replay_addToCategory (added : List Reference) (d : ProductDetails) :
    replay details (added.map .addToCategory) d =
      { d with categories := d.categories ++ added } := by
  induction added generalizing d with
  | nil =>
    rw [List.append_nil]
    rfl
  | cons a added ih =>
    rw [List.map_cons, replay_cons, ih, details]
    simp only [List.append_assoc, List.singleton_append]

theorem replay_categoryActions (d : ProductDetails) (h : d.categories = old.categories) :
    replay details (categoryActions old new) d =
      { d with categories := settledCategories old.categories new.categories } := by
  rw [categoryActions, replay_append, removeFromCategoryActions, replay_removeFromCategory,
    addToCategoryActions, replay_addToCategory, h]
  rfl

theorem replay_setCategoryOrderHint (es : List (String × Option String)) (d : ProductDetails) :
    replay details (es.map fun e => .setCategoryOrderHint e.1 e.2) d =
      { d with
        categoryOrderHints := replay (fun e => orderHints e.1 e.2) es d.categoryOrderHints } := by
  induction es generalizing d with
  | nil => rfl
  | cons e es ih =>
    rw [List.map_cons, replay_cons, ih, details]
    rfl

theorem replay_orderHintActions (d : ProductDetails)
    (h : d.categoryOrderHints = old.categoryOrderHints) :
    replay details (orderHintActions old new) d =
      { d with categoryOrderHints := settledHints old new } := by
  rw [orderHintActions_eq, replay_setCategoryOrderHint, h]
  rfl

theorem replay_taxCategoryActions (d : ProductDetails) (h : d.taxCategory = old.taxCategory) :
    replay details (taxCategoryActions old new) d =
      { d with taxCategory := (settled old new).taxCategory } := by
  unfold taxCategoryActions settled
  simp only
  split
  · rw [← h]
    rfl
  · rfl

theorem replay_stateActions (d : ProductDetails) (h : d.state = old.state) :
    replay details (stateActions old new) d = { d with state := (settled old new).state } := by
  unfold stateActions settled
  cases new.state with
  | none =>
    simp only [← h]
    rfl
  | some s =>
    simp only
    split
    · rw [← h]
      rfl
    · rfl

/-- If every group passes, the actions on the details lead to the settled ones. -/
theorem replay_detailActions {f : Filter} (hf : ∀ g, f.passes g = true) :
    replay details (detailActions f old new) old.toProductDetails = settled old new := by
  unfold detailActions
  simp only [gate_eq_self hf, replay_append]
  -- setting a plain field to what it is already changes nothing
  rw [replay_whenChanged (b := ProductAction.changeName new.name)
      fun h => by rw [← h]; rfl,
    replay_whenChanged (b := ProductAction.setDescription new.description)
      fun h => by rw [← h]; rfl,
    replay_whenChanged (b := ProductAction.changeSlug new.slug)
      fun h => by rw [← h]; rfl,
    replay_whenChanged (b := ProductAction.setSearchKeywords new.searchKeywords)
      fun h => by rw [← h]; rfl,
    replay_whenChanged (b := ProductAction.setMetaTitle new.metaTitle)
      fun h => by rw [← h]; rfl,
    replay_whenChanged (b := ProductAction.setMetaDescription new.metaDescription)
      fun h => by rw [← h]; rfl,
    replay_whenChanged (b := ProductAction.setMetaKeywords new.metaKeywords)
      fun h => by rw [← h]; rfl]
  rw [replay_taxCategoryActions, replay_stateActions, replay_categoryActions,
    replay_orderHintActions]
  · rfl
  all_goals rfl

/-! ### Details that match a draft -/

/-- The details of a product are as a draft wants them. References need only be equivalent, and
    order hints count for the categories that the draft lists. -/
structure Describes (p : Product) (new : ProductDraft) : Prop where
  name : p.name = new.name
  slug : p.slug = new.slug
  description : p.description = new.description
  metaTitle : p.metaTitle = new.metaTitle
  metaDescription : p.metaDescription = new.metaDescription
  metaKeywords : p.metaKeywords = new.metaKeywords
  searchKeywords : p.searchKeywords = new.searchKeywords
  taxCategory : Reference.areEquivalent p.taxCategory new.taxCategory = true
  state : ∀ s, new.state = some s → Reference.areEquivalent p.state (some s) = true
  categories : Covers p.categories new.categories
  hints : ∀ id ∈ memberIds p new, hint? p.categoryOrderHints id = hint? new.categoryOrderHints id

/-- A product with the settled details is as the draft wants it. -/
theorem settled_describes {p : Product} (hp : p.toProductDetails = settled old new)
    (hc : WellClassified old.categories new.categories)
    (ht : ∀ c ∈ new.taxCategory, c.named = true) (hs : ∀ s ∈ new.state, s.named = true) :
    Describes p new := by
  have hcategories : p.categories = settledCategories old.categories new.categories :=
    congrArg ProductDetails.categories hp
  refine ⟨(congrArg ProductDetails.name hp :), (congrArg ProductDetails.slug hp :),
    (congrArg ProductDetails.description hp :), (congrArg ProductDetails.metaTitle hp :),
    (congrArg ProductDetails.metaDescription hp :), (congrArg ProductDetails.metaKeywords hp :),
    (congrArg ProductDetails.searchKeywords hp :), ?_, ?_, ?_, ?_⟩
  · rw [congrArg ProductDetails.taxCategory hp]
    show Reference.areEquivalent (if _ then _ else _) _ = true
    split
    · assumption
    · exact Reference.areEquivalent_self ht
  · intro s hsome
    rw [congrArg ProductDetails.state hp]
    unfold settled
    simp only [hsome]
    cases ho : old.state with
    | none => exact Reference.isEquivalent_self (hs s hsome)
    | some c =>
      rw [Option.any_some]
      split
      · assumption
      · exact Reference.isEquivalent_self (hs s hsome)
  · rw [hcategories]
    exact covers_settledCategories hc
  · intro id hid
    rw [congrArg ProductDetails.categoryOrderHints hp]
    apply hint?_settledHints
    unfold memberIds at hid ⊢
    obtain ⟨d, hd, hid⟩ := List.mem_filterMap.1 hid
    rw [hcategories] at hid
    exact List.mem_filterMap.2 (memberId?_settledCategories hc hd hid)

/-- Details that are as the draft wants them call for no action. -/
theorem detailActions_eq_nil {p : Product} (h : Describes p new) (f : Filter) :
    detailActions f p new = [] := by
  have hcategories : categoryActions p new = [] := by
    rw [categoryActions, removeFromCategoryActions, addToCategoryActions,
      difference_eq_nil h.categories.left, difference_eq_nil h.categories.right]
    rfl
  have hhints : orderHintActions p new = [] := by
    rw [orderHintActions_eq, List.map_eq_nil_iff]
    apply List.eq_nil_iff_forall_not_mem.2
    intro e he
    obtain ⟨hid, hnew, hne⟩ := mem_hintWrites he
    exact hne ((h.hints e.1 hid).trans hnew.symm)
  have hstate : stateActions p new = [] := by
    unfold stateActions
    cases hs : new.state with
    | none => rfl
    | some s =>
      have hs := h.state s hs
      cases hp : p.state with
      | none =>
        rw [hp] at hs
        cases hs
      | some c =>
        rw [hp] at hs
        exact if_pos hs
  unfold detailActions
  simp only [hcategories, hhints, hstate, taxCategoryActions, h.name, h.slug, h.description,
    h.metaTitle, h.metaDescription, h.metaKeywords, h.searchKeywords, h.taxCategory, whenChanged,
    beq_self_eq_true, if_true, Filter.gate, ite_self, List.append_nil]

end CatalogSync.Diff
