import CatalogSync.Proofs.Collection
import CatalogSync.Proofs.Grouping

/- Diffing with a filter is filtering the diff. The builders consult the filter in some twenty
   places; `productPlan_filter` says that all of them together sort the actions of the unfiltered
   diff by their groups. What cannot be sorted afterwards is the publication, which looks at the
   list it ends, and the issue of a blank sku, which the change of the master raises. -/
namespace CatalogSync.Diff

variable {f : Filter} {s : SortedSet String} {old : Product} {new : ProductDraft}

theorem variantActions_filter (v : Variant) (d : VariantDraft) :
    variantActions ⟨f, s⟩ v d = (variantActions ⟨.all, s⟩ v d).filter (admits f) := by
  have ha : attributeActions ⟨f, s⟩ v d = attributeActions ⟨.all, s⟩ v d := rfl
  simp only [variantActions, gate_all, List.filter_append, ha]
  rw [gate_eq_filter f (fun _ => group_skuActions),
    gate_eq_filter f (fun _ => group_attributeActions),
    gate_eq_filter f (fun _ => group_imageActions),
    gate_eq_filter f (fun _ => group_priceActions), gate_eq_filter f (fun _ => group_assetActions)]

theorem entryActions_filter (stored : SortedMap String Variant) (e : Option VariantDraft) :
    entryActions ⟨f, s⟩ stored e = (entryActions ⟨.all, s⟩ stored e).filter (admits f) := by
  cases e with
  | none => rfl
  | some d =>
    simp only [entryActions]
    split
    · rfl
    · split
      · exact variantActions_filter ..
      · exact gate_eq_filter f fun a h => by rw [List.mem_singleton.1 h]; rfl

theorem updates_filter :
    updates ⟨f, s⟩ old new = (updates ⟨.all, s⟩ old new).filter (admits f) := by
  unfold updates
  induction new.allVariants with
  | nil => rfl
  | cons e es ih =>
    rw [List.flatMap_cons, List.flatMap_cons, List.filter_append, ih, entryActions_filter]

/-- Equal product-wide actions are in one group. -/
theorem admits_congr {a b : ProductAction} (hw : isProductWide a = true) (h : (a == b) = true) :
    admits f a = admits f b := by
  obtain ⟨name, value, rfl⟩ := isProductWide_iff.1 hw
  obtain ⟨value', rfl, _⟩ := eq_of_beq_productWide h
  rfl

theorem group_promotion {a : ProductAction} (h : a ∈ promotion old new) : a.group = .variants := by
  unfold promotion at h
  split at h
  · next he => exact group_masterActions he h
  · exact absurd h List.not_mem_nil

theorem variantListPlan_actions_filter :
    (variantListPlan ⟨f, s⟩ old new).actions =
      (variantListPlan ⟨.all, s⟩ old new).actions.filter (admits f) := by
  by_cases h : masterKeyProblems old new = []
  · rw [variantListPlan_actions h, variantListPlan_actions h, List.filter_append,
      List.filter_append, filter_newOnes_comm (fun _ _ => admits_congr), updates_filter,
      gate_eq_filter f (fun _ => group_removeVariantActions),
      gate_eq_filter f (fun _ => group_promotion)]
    rfl
  · rw [variantListPlan_of_problems h, variantListPlan_of_problems h]
    rfl

theorem detailActions_filter :
    detailActions f old new = (detailActions .all old new).filter (admits f) := by
  have hf {α : Type} [BEq α] {x y : α} {b : ProductAction} :
      ∀ a ∈ whenChanged x y b, a.group = b.group := by
    intro a ha
    rw [(mem_whenChanged.1 ha).2]
  simp only [detailActions, gate_all, List.filter_append]
  rw [gate_eq_filter f (g := .name) hf, gate_eq_filter f (g := .description) hf,
    gate_eq_filter f (g := .slug) hf, gate_eq_filter f (g := .searchKeywords) hf,
    gate_eq_filter f (g := .metaTitle) hf, gate_eq_filter f (g := .metaDescription) hf,
    gate_eq_filter f (g := .metaKeywords) hf, gate_eq_filter f (fun _ => group_taxCategoryActions),
    gate_eq_filter f (fun _ => group_stateActions),
    gate_eq_filter f (fun _ => group_categoryActions),
    gate_eq_filter f (fun _ => group_orderHintActions)]

/-! ### Publication -/

/-- The action publishes or unpublishes the product. -/
def isPublication : ProductAction → Bool
  | .publish => true
  | .unpublish => true
  | _ => false

theorem isPublication_iff {a : ProductAction} : isPublication a = true ↔ a.group = .publish := by
  cases a <;> simp [isPublication, ProductAction.group]

theorem group_variantListPlan {ctx : DiffContext} {a : ProductAction}
    (h : a ∈ (variantListPlan ctx old new).actions) : a.group ∈ variantGroups := by
  by_cases hm : masterKeyProblems old new = []
  · rw [variantListPlan_actions hm, List.mem_append, List.mem_append, mem_gate, mem_gate] at h
    rcases h with (h | h) | h
    · rw [group_removeVariantActions h.2]
      exact List.mem_cons_self ..
    · obtain ⟨e, _, he⟩ := List.mem_flatMap.1 (mem_of_mem_newOnes h)
      exact group_entryActions he
    · rw [group_promotion h.2]
      exact List.mem_cons_self ..
  · rw [variantListPlan_of_problems hm] at h
    exact absurd h List.not_mem_nil

theorem not_publication_of_group {gs : List ActionGroup} (hp : .publish ∉ gs) {a : ProductAction}
    (h : a.group ∈ gs) : isPublication a = false := by
  apply Bool.eq_false_iff.2
  rw [ne_eq, isPublication_iff]
  exact fun hg => hp (hg ▸ h)

theorem publication_length (desired : Option Bool) (current others staged : Bool) :
    (publication desired current others staged).length ≤ 1 := by
  unfold publication
  split
  · simp
  · simp
  · simp
  · split <;> simp

/-- The table of publication, read by its outcome. -/
theorem publish_mem_publication {desired : Option Bool} {current others staged : Bool} :
    .publish ∈ publication desired current others staged ↔
      desired = some true ∧ (current = false ∨ others = true ∨ staged = true) := by
  rcases desired with _ | _ | _ <;> cases current <;> cases others <;> cases staged <;>
    simp [publication]

theorem unpublish_mem_publication {desired : Option Bool} {current others staged : Bool} :
    .unpublish ∈ publication desired current others staged ↔
      desired ≠ some true ∧ current = true := by
  rcases desired with _ | _ | _ <;> cases current <;> cases others <;> cases staged <;>
    simp [publication]

/-! ### The whole diff -/

/-- The actions of a diff apart from the publication. -/
def changes (ctx : DiffContext) (old : Product) (new : ProductDraft) : List ProductAction :=
  detailActions ctx.filter old new ++ (variantListPlan ctx old new).actions

theorem changes_filter :
    changes ⟨f, s⟩ old new = (changes ⟨.all, s⟩ old new).filter (admits f) := by
  rw [changes, changes, List.filter_append, detailActions_filter, variantListPlan_actions_filter]

theorem changes_not_publication {ctx : DiffContext} {a : ProductAction}
    (h : a ∈ changes ctx old new) : isPublication a = false := by
  rcases List.mem_append.1 h with h | h
  · exact not_publication_of_group (by decide) (group_detailActions h)
  · exact not_publication_of_group (by decide) (group_variantListPlan h)

theorem productPlan_actions (ctx : DiffContext) :
    (productPlan ctx old new).actions = changes ctx old new ++
      ctx.filter.gate .publish (publication new.publish old.published
        (!(changes ctx old new).isEmpty) old.hasStagedChanges) := rfl

theorem filter_not_publication :
    (productPlan ⟨f, s⟩ old new).actions.filter (!isPublication ·) = changes ⟨f, s⟩ old new := by
  rw [productPlan_actions, List.filter_append]
  have hc : (changes ⟨f, s⟩ old new).filter (!isPublication ·) = changes ⟨f, s⟩ old new := by
    apply List.filter_eq_self.2
    intro a ha
    rw [changes_not_publication ha]
    rfl
  rw [hc]
  apply List.append_right_eq_self.2
  apply List.filter_eq_nil_iff.2
  intro a ha
  simp [isPublication_iff.2 (group_publication (mem_gate.1 ha).2)]

/-- A refused promotion can only mean a blank sku once the master keys are not blank. -/
theorem promotionProblems_of_keys (h : masterKeyProblems old new = []) {p : VariantProblem}
    (hp : p ∈ promotionProblems old new) : p = .blankNewMasterSku := by
  obtain ⟨ho, m, hm, hk⟩ := masterKeyProblems_eq_nil.1 h
  unfold promotionProblems at hp
  rw [masterActions_eq ho hm hk] at hp
  split at hp
  · exact absurd hp List.not_mem_nil
  · next problem he =>
    rw [List.mem_singleton.1 hp]
    split at he
    · cases he
    · split at he
      · cases he
        rfl
      · cases he

theorem entryProblem_ne_blankSku {e : Option VariantDraft} {p : VariantProblem}
    (h : entryProblem e = some p) : p ≠ .blankNewMasterSku := by
  unfold entryProblem at h
  split at h
  · cases h
    simp
  · split at h
    · cases h
      simp
    · cases h

theorem masterKeyProblems_ne_blankSku {p : VariantProblem} (h : p ∈ masterKeyProblems old new) :
    p ≠ .blankNewMasterSku := by
  rcases List.mem_append.1 h with h | h
  · split at h
    · rw [List.mem_singleton.1 h]
      simp
    · exact absurd h List.not_mem_nil
  · split at h
    · rw [List.mem_singleton.1 h]
      simp
    · exact absurd h List.not_mem_nil

theorem variantListPlan_issues_filter :
    (variantListPlan ⟨f, s⟩ old new).issues =
      if f.passes .variants then (variantListPlan ⟨.all, s⟩ old new).issues
      else (variantListPlan ⟨.all, s⟩ old new).issues.filter (·.problem ≠ .blankNewMasterSku) := by
  by_cases hm : masterKeyProblems old new = []
  · rw [variantListPlan_issues hm, variantListPlan_issues hm, gate_all]
    unfold Filter.gate
    split
    · rfl
    · rw [List.filter_map, List.append_nil, List.filter_append]
      have hskip : (new.allVariants.filterMap entryProblem).filter
          ((fun i : Issue => decide (i.problem ≠ .blankNewMasterSku)) ∘
            (⟨new.key.getD "", ·⟩)) = new.allVariants.filterMap entryProblem := by
        apply List.filter_eq_self.2
        intro p hp
        obtain ⟨e, _, he⟩ := List.mem_filterMap.1 hp
        simpa using entryProblem_ne_blankSku he
      have hsku : (promotionProblems old new).filter
          ((fun i : Issue => decide (i.problem ≠ .blankNewMasterSku)) ∘
            (⟨new.key.getD "", ·⟩)) = [] := by
        apply List.filter_eq_nil_iff.2
        intro p hp
        simp [promotionProblems_of_keys hm hp]
      rw [hskip, hsku, List.append_nil]
  · rw [variantListPlan_of_problems hm, variantListPlan_of_problems hm]
    split
    · rfl
    · symm
      apply List.filter_eq_self.2
      intro i hi
      obtain ⟨p, hp, rfl⟩ := List.mem_map.1 hi
      simpa using masterKeyProblems_ne_blankSku hp

/-- **Filtering the diff is filtering its result.** Apart from the publication, a filtered diff
    has the actions of the unfiltered one whose groups pass, in the same order. A publication
    stands alone at the end; its group has to pass, and the table is read with the flag of the
    draft, the flags of the product and whether the filtered list holds any action. The issues
    are those of the unfiltered diff, but a blank sku of the new master is one only if variants
    pass. -/
theorem productPlan_filter (f : Filter) (sameForAll : SortedSet String) (old : Product)
    (new : ProductDraft) :
    let full := productPlan ⟨.all, sameForAll⟩ old new
    let part := productPlan ⟨f, sameForAll⟩ old new
    let passing := (full.actions.filter (!isPublication ·)).filter (admits f)
    part.actions.filter (!isPublication ·) = passing ∧
    (∃ tail, part.actions = passing ++ tail ∧ tail.length ≤ 1 ∧
      ∀ a ∈ tail, isPublication a = true) ∧
    (.publish ∈ part.actions ↔ f.passes .publish = true ∧ new.publish = some true ∧
      (old.published = false ∨ passing ≠ [] ∨ old.hasStagedChanges = true)) ∧
    (.unpublish ∈ part.actions ↔ f.passes .publish = true ∧ new.publish ≠ some true ∧
      old.published = true) ∧
    part.issues = if f.passes .variants then full.issues
      else full.issues.filter (·.problem ≠ .blankNewMasterSku) := by
  intro full part passing
  have hpassing : passing = changes ⟨f, sameForAll⟩ old new := by
    rw [changes_filter]
    exact congrArg (List.filter (admits f)) filter_not_publication
  have hpart : part.actions = passing ++ f.gate .publish (publication new.publish old.published
      (!passing.isEmpty) old.hasStagedChanges) := by
    rw [hpassing]
    exact productPlan_actions ⟨f, sameForAll⟩
  have hbody : ∀ a ∈ passing, isPublication a = false := by
    rw [hpassing]
    exact fun a => changes_not_publication
  have hmem {a : ProductAction} (ha : isPublication a = true) : a ∈ part.actions ↔
      f.passes .publish = true ∧
        a ∈ publication new.publish old.published (!passing.isEmpty) old.hasStagedChanges := by
    rw [hpart, List.mem_append, or_iff_right fun h => by simp [hbody a h] at ha, mem_gate]
  refine ⟨?_, ⟨_, hpart, ?_, ?_⟩, ?_, ?_, variantListPlan_issues_filter⟩
  · rw [hpassing]
    exact filter_not_publication
  · unfold Filter.gate
    split
    · exact publication_length ..
    · simp
  · intro a ha
    exact isPublication_iff.2 (group_publication (mem_gate.1 ha).2)
  · rw [hmem rfl, publish_mem_publication]
    simp
  · rw [hmem rfl, unpublish_mem_publication]

end CatalogSync.Diff
