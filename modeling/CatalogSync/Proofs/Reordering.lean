import CatalogSync.Proofs.AttributeWrites
import CatalogSync.Proofs.Recognition

/- Variants in another order. The stored variants are looked up by key, and what an entry calls for
   depends on the look-up alone, so the order matters only for where actions stand (`arranged`), and
   for which of several entries carries a product-wide action that they have in common (`share`).
   Main statement: `productPlan_reordered`. -/
namespace CatalogSync

deriving instance ReflBEq for ProductAction

namespace Diff

open CatalogSync.Edit (OneToOne oneToOne_self oneToOne_of_perm indexBy_perm)

/-! ### The plan by its parts -/

/-- What an entry adds to the actions that the entries `before` call for: what it calls for itself,
    but for the product-wide actions that are there already. -/
def share (ctx : DiffContext) (old : Product) (before : List (Option VariantDraft))
    (e : Option VariantDraft) : List ProductAction :=
  (entryActions ctx (variantsByKey old) e).filter fun a =>
    !(isProductWide a && (called ctx old before).contains a)

/-- What entries add one after another, behind the entries `before`. -/
def shares (ctx : DiffContext) (old : Product) :
    List (Option VariantDraft) → List (Option VariantDraft) → List ProductAction
  | _, [] => []
  | before, e :: es => share ctx old before e ++ shares ctx old (before ++ [e]) es

/-- The actions on variants with the old variants `vs` and the entries `es`, in these orders, beside
    the master variants. All but the two orders is read off a product and a draft. -/
def arrangedVariants (ctx : DiffContext) (old : Product) (new : ProductDraft) (vs : List Variant)
    (es : List (Option VariantDraft)) : List ProductAction :=
  if masterKeyProblems old new = [] then
    ctx.filter.gate .variants ((vs.filter (Dropped new ·)).map fun v => .removeVariant v.id) ++
      shares ctx old [] (new.masterVariant :: es) ++
      ctx.filter.gate .variants (promotion old new)
  else []

/-- The actions of a whole diff with the old variants `vs` and the entries `es`. -/
def arranged (ctx : DiffContext) (old : Product) (new : ProductDraft) (vs : List Variant)
    (es : List (Option VariantDraft)) : List ProductAction :=
  detailActions ctx.filter old new ++ arrangedVariants ctx old new vs es ++
    ctx.filter.gate .publish (publication new.publish old.published
      (!(changes ctx old new).isEmpty) old.hasStagedChanges)

variable {ctx : DiffContext} {old : Product} {new : ProductDraft} {vs : List Variant}
  {es : List (Option VariantDraft)}

/-! ### Collecting in another order -/

/-- The actions are the same, or they are product-wide and equal. -/
def Twin (a b : ProductAction) : Prop := a = b ∨ isProductWide a = true ∧ (a == b) = true

theorem Twin.refl (a : ProductAction) : Twin a a := Or.inl rfl

theorem Twin.beq {a b : ProductAction} (h : Twin a b) : (a == b) = true := by
  rcases h with rfl | h
  · exact BEq.rfl
  · exact h.2

theorem Twin.trans (a b c : ProductAction) (h : Twin a b) (h' : Twin b c) : Twin a c := by
  rcases h with rfl | ⟨hw, he⟩
  · exact h'
  · rcases h' with rfl | ⟨-, he'⟩
    · exact Or.inr ⟨hw, he⟩
    · exact Or.inr ⟨hw, by rw [beq_congr_productWide hw he, he']⟩

/-- What is appended depends on the product-wide actions that are collected, and on nothing else. -/
theorem newOnes_congr : ∀ (as : List ProductAction) {c c' : List ProductAction},
    (∀ a, isProductWide a = true → c.contains a = c'.contains a) → newOnes c as = newOnes c' as
  | [], _, _, _ => rfl
  | a :: as, c, c', h => by
    have hskip : (isProductWide a && c.contains a) = (isProductWide a && c'.contains a) := by
      cases hw : isProductWide a with
      | false => rfl
      | true => rw [h a hw]
    have hnext : ∀ b, isProductWide b = true → (c ++ [a]).contains b = (c' ++ [a]).contains b := by
      intro b hb
      rw [List.contains_append, List.contains_append, h b hb]
    rw [newOnes, newOnes, hskip, newOnes_congr as h, newOnes_congr as hnext]

/-- Two actions in a row may change places. -/
theorem oneToOne_newOnes_swap (a b : ProductAction) (as c : List ProductAction) :
    OneToOne Twin (newOnes c (a :: b :: as)) (newOnes c (b :: a :: as)) := by
  by_cases hab : isProductWide a = true ∧ (a == b) = true
  · -- the one that comes second is left out
    obtain ⟨ha, he⟩ := hab
    have hb : isProductWide b = true := isProductWide_of_beq ha (beq_comm_productWide ha ▸ he)
    have hc : c.contains a = c.contains b := by
      rw [Bool.eq_iff_iff, List.contains_iff_exists_mem_beq, List.contains_iff_exists_mem_beq]
      simp only [beq_congr_productWide ha he]
    have hrest : newOnes (c ++ [a]) as = newOnes (c ++ [b]) as := by
      apply newOnes_congr
      intro x hx
      have hsingle : (x == a) = (x == b) := by
        rw [beq_comm_productWide hx, beq_comm_productWide hx, beq_congr_productWide ha he]
      simp only [List.contains_append, List.contains_cons, List.contains_nil, hsingle]
    cases hca : c.contains a with
    | true =>
      simp only [newOnes, ha, hb, ← hc, hca, Bool.and_self, if_true]
      exact oneToOne_self fun x _ => .refl x
    | false =>
      have hba : (b == a) = true := beq_comm_productWide ha ▸ he
      simp only [newOnes, ha, hb, ← hc, hca, Bool.and_false, Bool.false_eq_true, if_false,
        List.contains_append, List.contains_cons, he, hba, Bool.true_or, Bool.or_true,
        Bool.and_self, if_true, hrest]
      exact .cons (Or.inr ⟨ha, he⟩) (oneToOne_self fun x _ => .refl x)
  · -- whether one is left out does not depend on the other
    have hskip {x y : ProductAction} (hxy : ¬ (isProductWide x = true ∧ (x == y) = true)) :
        (isProductWide x && (c ++ [y]).contains x) = (isProductWide x && c.contains x) := by
      cases hx : isProductWide x with
      | false => rfl
      | true =>
        have hne : (x == y) = false := Bool.eq_false_iff.2 fun he => hxy ⟨hx, he⟩
        simp only [List.contains_append, List.contains_cons, List.contains_nil, hne, Bool.or_false]
    have hba : ¬ (isProductWide b = true ∧ (b == a) = true) := by
      rintro ⟨hb, he⟩
      have he' : (a == b) = true := beq_comm_productWide hb ▸ he
      exact hab ⟨isProductWide_of_beq hb he', he'⟩
    have hrest : newOnes (c ++ [a] ++ [b]) as = newOnes (c ++ [b] ++ [a]) as := by
      apply newOnes_congr
      intro x _
      simp only [List.contains_append, Bool.or_assoc, Bool.or_comm ([a].contains x)]
    simp only [newOnes, hskip hab, hskip hba]
    cases isProductWide a && c.contains a <;> cases isProductWide b && c.contains b
    · simp only [Bool.false_eq_true, if_false, hrest]
      exact oneToOne_of_perm Twin.refl (.swap ..)
    · simp only [Bool.false_eq_true, if_false, if_true]
      exact oneToOne_self fun x _ => .refl x
    · simp only [Bool.false_eq_true, if_false, if_true]
      exact oneToOne_self fun x _ => .refl x
    · simp only [if_true]
      exact oneToOne_self fun x _ => .refl x

theorem oneToOne_newOnes {as bs : List ProductAction} (h : as.Perm bs) :
    ∀ c, OneToOne Twin (newOnes c as) (newOnes c bs) := by
  induction h with
  | nil => exact fun c => oneToOne_self fun x _ => .refl x
  | cons a _ ih =>
    intro c
    rw [newOnes, newOnes]
    split
    · exact ih c
    · exact .cons (.refl a) (ih (c ++ [a]))
  | swap a b as => exact fun c => oneToOne_newOnes_swap b a as c
  | trans _ _ ih ih' => exact fun c => (ih c).trans Twin.trans (ih' c)

/-! ### The share of an entry -/

/-- No entry repeats a product-wide action of its own. -/
theorem pairwise_entryActions (ctx : DiffContext) (stored : SortedMap String Variant)
    (e : Option VariantDraft) : (entryActions ctx stored e).Pairwise
      fun a b => isProductWide b = true → (b == a) = false := by
  cases e with
  | none => exact .nil
  | some d =>
    simp only [entryActions]
    split
    · exact .nil
    · split
      · exact pairwise_variantActions ctx _ d
      · unfold Filter.gate
        split
        · exact List.pairwise_singleton ..
        · exact .nil

theorem newOnes_entryActions (before : List (Option VariantDraft)) (e : Option VariantDraft) :
    newOnes (newOnes [] (called ctx old before)) (entryActions ctx (variantsByKey old) e) =
      share ctx old before e := by
  rw [newOnes_eq_filter (pairwise_entryActions ctx _ e)]
  apply List.filter_congr
  intro a _
  cases hw : isProductWide a with
  | false => rfl
  | true => rw [contains_newOnes hw]

/-- What is collected for entries is their shares, one behind the other. -/
theorem newOnes_called_append (es before : List (Option VariantDraft)) :
    newOnes [] (called ctx old (before ++ es)) =
      newOnes [] (called ctx old before) ++ shares ctx old before es := by
  induction es generalizing before with
  | nil => rw [shares, List.append_nil, List.append_nil]
  | cons e es ih =>
    have hone : called ctx old (before ++ [e]) =
        called ctx old before ++ entryActions ctx (variantsByKey old) e := by
      rw [called, List.flatMap_append, List.flatMap_singleton]
      rfl
    rw [List.append_cons, ih, hone, newOnes_concat, List.nil_append,
      newOnes_entryActions, List.append_assoc]
    rfl

theorem newOnes_called (ctx : DiffContext) (old : Product) (es : List (Option VariantDraft)) :
    newOnes [] (called ctx old es) = shares ctx old [] es :=
  newOnes_called_append es []

/-! ### Variants in another order -/

theorem allVariants_perm (hvs : vs.Perm old.variants) :
    ({ old with variants := vs } : Product).allVariants.Perm old.allVariants := hvs.cons _

theorem entries_perm (hes : es.Perm new.variants) :
    ({ new with variants := es } : ProductDraft).allVariants.Perm new.allVariants := hes.cons _

/-- While keys tell the stored variants apart, the look-up by key does not depend on their order. -/
theorem variantsByKey_perm (hkeys : (old.allVariants.filterMap (·.key)).Nodup)
    (hvs : vs.Perm old.variants) :
    variantsByKey { old with variants := vs } = variantsByKey old :=
  indexBy_perm hkeys (allVariants_perm hvs)

theorem dropped_perm (hes : es.Perm new.variants) (v : Variant) :
    Dropped { new with variants := es } v ↔ Dropped new v :=
  or_congr_right (forall_congr' fun _ => imp_congr_left (entries_perm hes).mem_iff)

theorem removeVariantActions_perm (hes : es.Perm new.variants) :
    removeVariantActions { old with variants := vs } { new with variants := es } =
      (vs.filter (Dropped new ·)).map fun v => .removeVariant v.id := by
  rw [removeVariantActions_eq]
  simp only [dropped_perm hes]

theorem masterActions_perm (hes : es.Perm new.variants) :
    masterActions { old with variants := vs } { new with variants := es } =
      masterActions old new := by
  simp only [masterActions, hes.any_eq]

theorem updates_perm (hkeys : (old.allVariants.filterMap (·.key)).Nodup)
    (hvs : vs.Perm old.variants) :
    updates ctx { old with variants := vs } { new with variants := es } =
      called ctx old (new.masterVariant :: es) := by
  rw [updates_eq_called, called, variantsByKey_perm hkeys hvs]
  rfl

theorem variantListPlan_perm (hkeys : (old.allVariants.filterMap (·.key)).Nodup)
    (hvs : vs.Perm old.variants) (hes : es.Perm new.variants) :
    (variantListPlan ctx { old with variants := vs } { new with variants := es }).actions =
      arrangedVariants ctx old new vs es := by
  have hsame : masterKeyProblems { old with variants := vs } { new with variants := es } =
      masterKeyProblems old new := rfl
  unfold arrangedVariants
  by_cases hk : masterKeyProblems old new = []
  · rw [if_pos hk, variantListPlan_actions (hsame.trans hk), removeVariantActions_perm hes,
      updates_perm hkeys hvs, newOnes_called, promotion, masterActions_perm hes]
    rfl
  · rw [if_neg hk, variantListPlan_of_problems (hsame ▸ hk)]

theorem variantListPlan_arranged (ctx : DiffContext) (old : Product) (new : ProductDraft) :
    (variantListPlan ctx old new).actions =
      arrangedVariants ctx old new old.variants new.variants := by
  unfold arrangedVariants
  by_cases hk : masterKeyProblems old new = []
  · rw [if_pos hk, variantListPlan_actions hk, removeVariantActions_eq, updates_eq_called,
      newOnes_called]
    rfl
  · rw [if_neg hk, variantListPlan_of_problems hk]

theorem issues_perm (hes : es.Perm new.variants) :
    (variantListPlan ctx { old with variants := vs } { new with variants := es }).issues.Perm
      (variantListPlan ctx old new).issues := by
  have hsame : masterKeyProblems { old with variants := vs } { new with variants := es } =
      masterKeyProblems old new := rfl
  by_cases hk : masterKeyProblems old new = []
  · rw [variantListPlan_issues (hsame.trans hk), variantListPlan_issues hk, promotionProblems,
      masterActions_perm hes]
    exact (((entries_perm hes).filterMap _).append_right _).map _
  · rw [variantListPlan_of_problems (hsame ▸ hk), variantListPlan_of_problems hk]
    exact .refl _

theorem twin_arrangedVariants (ctx : DiffContext) (hvs : vs.Perm old.variants)
    (hes : es.Perm new.variants) : OneToOne Twin (arrangedVariants ctx old new vs es)
      (arrangedVariants ctx old new old.variants new.variants) := by
  unfold arrangedVariants
  split
  · have hremoved : (ctx.filter.gate .variants
        ((vs.filter (Dropped new ·)).map fun v => ProductAction.removeVariant v.id)).Perm
        (ctx.filter.gate .variants
          ((old.variants.filter (Dropped new ·)).map fun v => .removeVariant v.id)) := by
      unfold Filter.gate
      split
      · exact (hvs.filter _).map _
      · exact .refl _
    rw [← newOnes_called, ← newOnes_called]
    refine (oneToOne_of_perm Twin.refl hremoved).append ?_ |>.append
      (oneToOne_self fun a _ => .refl a)
    exact oneToOne_newOnes ((hes.cons _).flatMap_right _) []
  · exact oneToOne_self fun a _ => .refl a

theorem changes_perm (hkeys : (old.allVariants.filterMap (·.key)).Nodup)
    (hvs : vs.Perm old.variants) (hes : es.Perm new.variants) :
    changes ctx { old with variants := vs } { new with variants := es } =
      detailActions ctx.filter old new ++ arrangedVariants ctx old new vs es := by
  rw [changes, variantListPlan_perm hkeys hvs hes]
  rfl

theorem twin_changes (hkeys : (old.allVariants.filterMap (·.key)).Nodup)
    (hvs : vs.Perm old.variants) (hes : es.Perm new.variants) :
    OneToOne Twin (changes ctx { old with variants := vs } { new with variants := es })
      (changes ctx old new) := by
  rw [changes_perm hkeys hvs hes, changes, variantListPlan_arranged]
  exact (oneToOne_self fun a _ => .refl a).append (twin_arrangedVariants ctx hvs hes)

/-- Whether anything changes, and so the publication, does not depend on the order of variants. -/
theorem productPlan_perm (hkeys : (old.allVariants.filterMap (·.key)).Nodup)
    (hvs : vs.Perm old.variants) (hes : es.Perm new.variants) :
    (productPlan ctx { old with variants := vs } { new with variants := es }).actions =
      arranged ctx old new vs es := by
  rw [productPlan_actions, (twin_changes hkeys hvs hes).isEmpty_eq,
    changes_perm hkeys hvs hes]
  rfl

theorem productPlan_arranged (ctx : DiffContext) (old : Product) (new : ProductDraft) :
    (productPlan ctx old new).actions = arranged ctx old new old.variants new.variants := by
  rw [arranged, ← variantListPlan_arranged]
  rfl

/-- **The order of variants does not matter.** While keys tell the stored variants apart, a diff
    with the variants of the product and of the draft in any other order has the same actions and the
    same issues, up to their order. Both lists of actions are arranged alike: details, the change of
    the master and the publication are the same and in the same places; removals follow the order of
    the stored variants; and the entries add their shares in the order in which the draft has them.
    The share of an entry holds what the entry calls for, in the same order, and leaves out nothing
    but product-wide actions that entries before it call for. -/
theorem productPlan_reordered (ctx : DiffContext) (old : Product) (new : ProductDraft)
    (vs : List Variant) (es : List (Option VariantDraft))
    (hkeys : (old.allVariants.filterMap (·.key)).Nodup) (hvs : vs.Perm old.variants)
    (hes : es.Perm new.variants) :
    let plan := productPlan ctx old new
    let plan' := productPlan ctx { old with variants := vs } { new with variants := es }
    OneToOne (fun a b => (a == b) = true) plan'.actions plan.actions ∧
    plan'.issues.Perm plan.issues ∧
    plan.actions = arranged ctx old new old.variants new.variants ∧
    plan'.actions = arranged ctx old new vs es ∧
    ∀ before e, (share ctx old before e).Sublist (entryActions ctx (variantsByKey old) e) ∧
      ∀ a ∈ entryActions ctx (variantsByKey old) e,
        (a ∉ share ctx old before e ↔ isProductWide a = true ∧
          (called ctx old before).contains a = true) := by
  refine ⟨?_, issues_perm hes, productPlan_arranged ctx old new, productPlan_perm hkeys hvs hes,
    ?_⟩
  · rw [productPlan_actions, productPlan_actions, (twin_changes hkeys hvs hes).isEmpty_eq]
    exact ((twin_changes hkeys hvs hes).append (oneToOne_self fun a _ => .refl a)).mono
      fun _ _ => Twin.beq
  · intro before e
    refine ⟨List.filter_sublist, ?_⟩
    intro a ha
    simp only [share, List.mem_filter, ha, true_and, Bool.not_eq_true', Bool.not_eq_false,
      Bool.and_eq_true]

/-- A draft in which two variants take over a brand, which the first of them writes for both. -/
def cobranded : ProductDraft where
  toProductDetails := .of "p" .empty .empty
  publish := none
  masterVariant := some
    (((VariantDraft.ofKey "a").withAttribute "brand" (.str "x")).withAttribute "size" (.int 1))
  variants := [
    some ((((VariantDraft.ofKey "b").withSku "s").withAttribute "brand" (.str "z")).withAttribute
      "note" .null),
    some (((VariantDraft.ofKey "c").withSku "t").withAttribute "brand" (.str "z"))]

theorem productPlan_reordered_cobranded :
    (branded.allVariants.filterMap (·.key)).Nodup ∧
    branded.variants.reverse.Perm branded.variants ∧
    cobranded.variants.reverse.Perm cobranded.variants ∧
    OneToOne (fun a b => (a == b) = true)
      (productPlan ⟨.all, .ofList ["brand"]⟩
        { branded with variants := branded.variants.reverse }
        { cobranded with variants := cobranded.variants.reverse }).actions
      (productPlan ⟨.all, .ofList ["brand"]⟩ branded cobranded).actions := by
  have hkeys : (branded.allVariants.filterMap (·.key)).Nodup := by decide
  exact ⟨hkeys, List.reverse_perm _, List.reverse_perm _,
    (productPlan_reordered _ _ _ _ _ hkeys (List.reverse_perm _) (List.reverse_perm _)).1⟩

/-- Whichever of the two comes first writes the brand. -/
example :
    (productPlan ⟨.all, .ofList ["brand"]⟩ branded cobranded).actions =
      [.setSku 2 (some "s"), .setAttributeInAllVariants "brand" (some (.str "z")),
        .setSku 3 (some "t")] ∧
    (productPlan ⟨.all, .ofList ["brand"]⟩ branded
        { cobranded with variants := cobranded.variants.reverse }).actions =
      [.setSku 3 (some "t"), .setAttributeInAllVariants "brand" (some (.str "z")),
        .setSku 2 (some "s")] :=
  ⟨rfl, rfl⟩

end Diff
end CatalogSync
