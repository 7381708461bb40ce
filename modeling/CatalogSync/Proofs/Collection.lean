import CatalogSync.Proofs.Grouping

/- How the actions on variants are collected. A list of collected actions only grows, and what it
   gains from further actions is those actions without the product-wide ones that are repeats
   (`foldl_collect`). So every part of the list that holds no product-wide action is there in full
   (`filter_newOnes`), and a product-wide action that was left out has an equal one
   (`exists_newOnes`), the first of all that are equal (`filter_newOnes_productWide`). -/
namespace CatalogSync.Diff

/-- The actions that are appended to a collected list: all but the product-wide ones that are
    there already, or were appended before. -/
def newOnes (collected : List ProductAction) : List ProductAction → List ProductAction
  | [] => []
  | a :: as =>
    if isProductWide a && collected.contains a then newOnes collected as
    else a :: newOnes (collected ++ [a]) as

theorem foldl_collect : ∀ (as collected : List ProductAction),
    as.foldl collect collected = collected ++ newOnes collected as
  | [], collected => by simp [newOnes]
  | a :: as, collected => by
    rw [List.foldl_cons, collect, newOnes]
    split
    · exact foldl_collect as collected
    · rw [foldl_collect as (collected ++ [a]), List.append_assoc, List.singleton_append]

theorem mem_of_mem_newOnes {a : ProductAction} : ∀ {as collected : List ProductAction},
    a ∈ newOnes collected as → a ∈ as
  | [], _, h => by simp [newOnes] at h
  | b :: as, collected, h => by
    rw [newOnes] at h
    split at h
    · exact List.mem_cons_of_mem b (mem_of_mem_newOnes h)
    · rcases List.mem_cons.1 h with rfl | h
      · exact List.mem_cons_self ..
      · exact List.mem_cons_of_mem b (mem_of_mem_newOnes h)

/-- Where a test admits no product-wide action, nothing is left out. -/
theorem filter_newOnes {p : ProductAction → Bool} (hp : ∀ a, isProductWide a = true → p a = false) :
    ∀ (as collected : List ProductAction), (newOnes collected as).filter p = as.filter p
  | [], _ => rfl
  | a :: as, collected => by
    rw [newOnes]
    split
    · next h =>
      have hw : isProductWide a = true := (Bool.and_eq_true_iff.1 h).1
      rw [filter_newOnes hp as, List.filter_cons_of_neg (by simp [hp a hw])]
    · cases ha : p a
      · rw [List.filter_cons_of_neg (by simp [ha]), List.filter_cons_of_neg (by simp [ha]),
          filter_newOnes hp as]
      · rw [List.filter_cons_of_pos ha, List.filter_cons_of_pos ha, filter_newOnes hp as]

/-- What is read off actions that are not product-wide is read off all of them. -/
theorem filterMap_newOnes {β : Type} {g : ProductAction → Option β}
    (hg : ∀ a, isProductWide a = true → g a = none) :
    ∀ (as collected : List ProductAction), (newOnes collected as).filterMap g = as.filterMap g
  | [], _ => rfl
  | a :: as, collected => by
    rw [newOnes]
    split
    · next h =>
      have hw : isProductWide a = true := (Bool.and_eq_true_iff.1 h).1
      rw [filterMap_newOnes hg as, List.filterMap_cons, hg a hw]
    · rw [List.filterMap_cons, List.filterMap_cons, filterMap_newOnes hg as]

/-- Every action is appended, or an equal product-wide one stands in the list instead. -/
theorem exists_newOnes {a : ProductAction} : ∀ {as collected : List ProductAction}, a ∈ as →
    a ∈ newOnes collected as ∨
      isProductWide a = true ∧ ∃ b ∈ collected ++ newOnes collected as, (a == b) = true
  | [], _, h => absurd h List.not_mem_nil
  | b :: as, collected, h => by
    rw [newOnes]
    split
    · next hb =>
      obtain ⟨hw, hc⟩ := Bool.and_eq_true_iff.1 hb
      rcases List.mem_cons.1 h with rfl | h
      · obtain ⟨c, hc, he⟩ := List.contains_iff_exists_mem_beq.1 hc
        exact Or.inr ⟨hw, c, List.mem_append_left _ hc, he⟩
      · exact exists_newOnes h
    · rcases List.mem_cons.1 h with rfl | h
      · exact Or.inl (List.mem_cons_self ..)
      · rcases @exists_newOnes a as (collected ++ [b]) h with h | ⟨hw, c, hc, he⟩
        · exact Or.inl (List.mem_cons_of_mem b h)
        · exact Or.inr ⟨hw, c, by simpa using hc, he⟩

/-- A test that equal product-wide actions pass together may come before the collecting. -/
theorem filter_newOnes_comm {p : ProductAction → Bool}
    (hp : ∀ a b, isProductWide a = true → (a == b) = true → p a = p b) :
    ∀ (as collected : List ProductAction),
      (newOnes collected as).filter p = newOnes (collected.filter p) (as.filter p)
  | [], _ => rfl
  | a :: as, collected => by
    have ih := filter_newOnes_comm hp as
    cases ha : p a
    · rw [List.filter_cons_of_neg (by simp [ha]), newOnes]
      split
      · exact ih collected
      · rw [List.filter_cons_of_neg (by simp [ha]), ih, List.filter_append]
        simp [ha]
    · have hc : (isProductWide a && (collected.filter p).contains a) =
          (isProductWide a && collected.contains a) := by
        cases hw : isProductWide a
        · rfl
        · rw [Bool.true_and, Bool.true_and, Bool.eq_iff_iff, List.contains_iff_exists_mem_beq,
            List.contains_iff_exists_mem_beq]
          constructor
          · intro h
            obtain ⟨b, hb, he⟩ := h
            exact ⟨b, (List.mem_filter.1 hb).1, he⟩
          · intro h
            obtain ⟨b, hb, he⟩ := h
            exact ⟨b, List.mem_filter.2 ⟨hb, by rw [← hp a b hw he, ha]⟩, he⟩
      rw [List.filter_cons_of_pos ha, newOnes, newOnes, hc]
      split
      · exact ih collected
      · rw [List.filter_cons_of_pos ha, ih, List.filter_append]
        simp [ha]

/-! ### Equal product-wide actions -/

/-- What equals a product-wide action writes the same attribute, and an equal value. -/
theorem eq_of_beq_productWide {name : String} {value : Option Json} {b : ProductAction}
    (h : (ProductAction.setAttributeInAllVariants name value == b) = true) :
    ∃ value', b = .setAttributeInAllVariants name value' ∧ (value == value') = true := by
  cases b
  case setAttributeInAllVariants name' value' =>
    have h : (name == name' && value == value') = true := h
    obtain ⟨hn, hv⟩ := Bool.and_eq_true_iff.1 h
    exact ⟨value', by rw [beq_iff_eq.1 hn], hv⟩
  all_goals exact absurd h Bool.false_ne_true

theorem isProductWide_iff {a : ProductAction} :
    isProductWide a = true ↔ ∃ name value, a = .setAttributeInAllVariants name value := by
  constructor
  · intro h
    cases a
    case setAttributeInAllVariants name value => exact ⟨name, value, rfl⟩
    all_goals exact absurd h Bool.false_ne_true
  · intro h
    obtain ⟨name, value, rfl⟩ := h
    rfl

instance : EquivBEq (Option Json) where
  rfl := BEq.rfl
  symm {x y} h := match x, y, h with
    | none, none, _ => rfl
    | some _, some _, h => BEq.symm (α := Json) h
  trans {x y z} h h' := match x, y, z, h, h' with
    | none, none, none, _, _ => rfl
    | some _, some _, some _, h, h' => BEq.trans (α := Json) h h'

theorem beq_productWide {name name' : String} {value value' : Option Json} :
    (ProductAction.setAttributeInAllVariants name value ==
      .setAttributeInAllVariants name' value') = (name == name' && value == value') := rfl

theorem beq_comm_productWide {a b : ProductAction} (ha : isProductWide a = true) :
    (a == b) = (b == a) := by
  obtain ⟨name, value, rfl⟩ := isProductWide_iff.1 ha
  cases b
  case setAttributeInAllVariants =>
    rw [beq_productWide, beq_productWide, BEq.comm, BEq.comm (a := value)]
  all_goals rfl

theorem isProductWide_of_beq {a b : ProductAction} (ha : isProductWide a = true)
    (hba : (b == a) = true) : isProductWide b = true := by
  obtain ⟨name, value, rfl⟩ := isProductWide_iff.1 ha
  cases b
  case setAttributeInAllVariants => rfl
  all_goals cases hba

/-- Equality with a product-wide action carries over to what equals it. -/
theorem beq_congr_productWide {a b c : ProductAction} (ha : isProductWide a = true)
    (hab : (a == b) = true) : (a == c) = (b == c) := by
  obtain ⟨name, value, rfl⟩ := isProductWide_iff.1 ha
  obtain ⟨value', rfl, hv⟩ := eq_of_beq_productWide hab
  cases c
  case setAttributeInAllVariants =>
    rw [beq_productWide, beq_productWide, BEq.congr_left hv]
  all_goals rfl

/-- Collected actions that are not product-wide do not matter for what is appended. -/
theorem newOnes_append {c : List ProductAction} (hc : ∀ b ∈ c, isProductWide b = false) :
    ∀ (as collected : List ProductAction), newOnes (c ++ collected) as = newOnes collected as
  | [], _ => rfl
  | a :: as, collected => by
    have hcont : (isProductWide a && (c ++ collected).contains a) =
        (isProductWide a && collected.contains a) := by
      cases hw : isProductWide a
      · rfl
      · obtain ⟨name, value, rfl⟩ := isProductWide_iff.1 hw
        have hn : c.contains (.setAttributeInAllVariants name value) = false := by
          apply Bool.eq_false_iff.2
          intro h
          obtain ⟨b, hb, he⟩ := List.contains_iff_exists_mem_beq.1 h
          obtain ⟨value', rfl, _⟩ := eq_of_beq_productWide he
          exact absurd (hc _ hb) (by simp [isProductWide])
        simp [hn]
    rw [newOnes, newOnes, hcont, newOnes_append hc as collected, List.append_assoc,
      newOnes_append hc as (collected ++ [a])]

/-! ### One list behind another -/

theorem newOnes_concat (as bs collected : List ProductAction) :
    newOnes collected (as ++ bs) =
      newOnes collected as ++ newOnes (collected ++ newOnes collected as) bs := by
  have h := foldl_collect (as ++ bs) collected
  rw [List.foldl_append, foldl_collect, foldl_collect, List.append_assoc] at h
  exact (List.append_cancel_left h).symm

/-- A product-wide action is collected if and only if it occurs at all. -/
theorem contains_newOnes {a : ProductAction} (ha : isProductWide a = true)
    (as : List ProductAction) : (newOnes [] as).contains a = as.contains a := by
  rw [Bool.eq_iff_iff, List.contains_iff_exists_mem_beq, List.contains_iff_exists_mem_beq]
  constructor
  · intro h
    obtain ⟨b, hb, hab⟩ := h
    exact ⟨b, mem_of_mem_newOnes hb, hab⟩
  · intro h
    obtain ⟨b, hb, hab⟩ := h
    rcases @exists_newOnes b as [] hb with hin | ⟨-, c, hc, hbc⟩
    · exact ⟨b, hin, hab⟩
    · exact ⟨c, hc, (beq_congr_productWide ha hab).trans hbc⟩

/-- Of a list without repeats of its own, those product-wide actions are left out that are collected
    already. -/
theorem newOnes_eq_filter {as : List ProductAction}
    (h : as.Pairwise fun a b => isProductWide b = true → (b == a) = false)
    (collected : List ProductAction) :
    newOnes collected as = as.filter fun a => !(isProductWide a && collected.contains a) := by
  induction as generalizing collected with
  | nil => rfl
  | cons a as ih =>
    obtain ⟨ha, has⟩ := List.pairwise_cons.1 h
    cases hc : isProductWide a && collected.contains a with
    | true => rw [newOnes, if_pos hc, List.filter_cons_of_neg (by simp [hc]), ih has]
    | false =>
      rw [newOnes, if_neg (by simp [hc]), List.filter_cons_of_pos (by simp [hc]), ih has]
      congr 1
      apply List.filter_congr
      intro b hb
      -- what is appended on the way equals none of those behind it
      cases hw : isProductWide b with
      | false => rfl
      | true => simp [ha b hb hw]

theorem newOnes_eq_nil {as collected : List ProductAction}
    (h : ∀ a ∈ as, isProductWide a = true ∧ collected.contains a = true) :
    newOnes collected as = [] := by
  induction as with
  | nil => rfl
  | cons a as ih =>
    obtain ⟨hw, hc⟩ := h a (List.mem_cons_self ..)
    rw [newOnes, hw, hc]
    exact ih fun b hb => h b (List.mem_cons_of_mem a hb)

/-- Of all actions that equal a product-wide one, the first is collected. -/
theorem filter_newOnes_productWide {a : ProductAction} (ha : isProductWide a = true)
    (as : List ProductAction) :
    (newOnes [] as).filter (· == a) = (as.find? (· == a)).toList := by
  have hp : ∀ b c, isProductWide b = true → (b == c) = true → (b == a) = (c == a) :=
    fun b c hb hbc => beq_congr_productWide hb hbc
  rw [filter_newOnes_comm hp, ← List.head?_filter]
  cases hf : as.filter (· == a) with
  | nil => rfl
  | cons b bs =>
    have hequal : ∀ c ∈ b :: bs, isProductWide c = true ∧ (c == a) = true := by
      intro c hc
      rw [← hf] at hc
      obtain ⟨-, hca⟩ := List.mem_filter.1 hc
      exact ⟨isProductWide_of_beq ha hca, hca⟩
    obtain ⟨hb, hba⟩ := hequal b (List.mem_cons_self ..)
    have hrest : newOnes [b] bs = [] := by
      apply newOnes_eq_nil
      intro c hc
      obtain ⟨hw, hca⟩ := hequal c (List.mem_cons_of_mem b hc)
      refine ⟨hw, List.contains_iff_exists_mem_beq.2 ⟨b, List.mem_singleton_self b, ?_⟩⟩
      rw [beq_congr_productWide hw hca, beq_comm_productWide ha, hba]
    rw [List.filter_nil, newOnes, List.contains_nil, Bool.and_false, if_neg Bool.false_ne_true,
      List.nil_append, hrest]
    rfl

/-! ### The parts of the plan -/

/-- The change of the master variant, without actions if it is refused. -/
def promotion (old : Product) (new : ProductDraft) : List ProductAction :=
  match masterActions old new with
  | .ok actions => actions
  | .error _ => []

/-- Why the change of the master variant is refused, if it is. -/
def promotionProblems (old : Product) (new : ProductDraft) : List VariantProblem :=
  match masterActions old new with
  | .ok _ => []
  | .error problem => [problem]

/-- What the entries of the draft call for, before repeats are left out. -/
def updates (ctx : DiffContext) (old : Product) (new : ProductDraft) : List ProductAction :=
  new.allVariants.flatMap (entryActions ctx (variantsByKey old))

theorem isProductWide_removeVariantActions {old : Product} {new : ProductDraft} {a : ProductAction}
    (h : a ∈ removeVariantActions old new) : isProductWide a = false := by
  obtain ⟨v, _, rfl⟩ := List.mem_map.1 h
  rfl

theorem masterKeyProblems_eq_nil {old : Product} {new : ProductDraft} :
    masterKeyProblems old new = [] ↔ isBlank old.masterVariant.key = false ∧
      ∃ m, new.masterVariant = some m ∧ isBlank m.key = false := by
  unfold masterKeyProblems
  cases isBlank old.masterVariant.key
  · cases new.masterVariant with
    | none => simp
    | some m => cases hm : isBlank m.key <;> simp [hm]
  · simp

/-- While no master key is blank, the only thing that can stand in the way of a promotion is a
    blank sku. -/
theorem masterActions_eq {old : Product} {new : ProductDraft} {m : VariantDraft}
    (ho : isBlank old.masterVariant.key = false) (hm : new.masterVariant = some m)
    (hk : isBlank m.key = false) :
    masterActions old new =
      if old.masterVariant.key = m.key then .ok []
      else if isBlank m.sku then .error .blankNewMasterSku
      else .ok (.changeMasterVariant (m.sku.getD "") ::
        if new.variants.any (·.any (·.key == old.masterVariant.key)) then []
        else [.removeVariant old.masterVariant.id]) := by
  have hfilter : (some m).filter (fun m => !isBlank m.key) = some m := by simp [hk]
  unfold masterActions
  rw [hm, hfilter]
  simp only [ho, Bool.false_eq_true, if_false]
  split
  · rfl
  · cases hs : m.sku with
    | none => simp
    | some sku => cases hb : isBlankText sku <;> simp [Option.filter, hb]

/-- Removals, then what the entries call for without repeats, then the change of the master. -/
theorem variantListPlan_actions {ctx : DiffContext} {old : Product} {new : ProductDraft}
    (h : masterKeyProblems old new = []) :
    (variantListPlan ctx old new).actions =
      ctx.filter.gate .variants (removeVariantActions old new) ++
        newOnes [] (updates ctx old new) ++ ctx.filter.gate .variants (promotion old new) := by
  have hc : ∀ b ∈ ctx.filter.gate .variants (removeVariantActions old new),
      isProductWide b = false := by
    intro b hb
    exact isProductWide_removeVariantActions (mem_gate.1 hb).2
  have hn := newOnes_append hc (updates ctx old new) []
  rw [List.append_nil] at hn
  rw [← hn]
  unfold variantListPlan promotion
  simp only [h, foldl_collect]
  cases hp : ctx.filter.passes .variants <;> cases masterActions old new <;>
    simp [Filter.gate, hp, updates]

theorem variantListPlan_issues {ctx : DiffContext} {old : Product} {new : ProductDraft}
    (h : masterKeyProblems old new = []) :
    (variantListPlan ctx old new).issues =
      (new.allVariants.filterMap entryProblem ++
        ctx.filter.gate .variants (promotionProblems old new)).map (⟨new.key.getD "", ·⟩) := by
  unfold variantListPlan promotionProblems
  simp only [h]
  cases hp : ctx.filter.passes .variants <;> cases masterActions old new <;>
    simp [Filter.gate, hp]

/-- Blank master keys call the variant diff off. -/
theorem variantListPlan_of_problems {ctx : DiffContext} {old : Product} {new : ProductDraft}
    (h : masterKeyProblems old new ≠ []) :
    variantListPlan ctx old new =
      ⟨[], (masterKeyProblems old new).map (⟨new.key.getD "", ·⟩)⟩ := by
  unfold variantListPlan
  split
  · next h' => exact absurd h' h
  · rfl

end CatalogSync.Diff
