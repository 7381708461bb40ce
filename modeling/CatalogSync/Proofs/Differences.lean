import CatalogSync.Diff.Category
import Mathlib.Data.Fin.VecNotation
import Mathlib.Data.List.Induction

/- Differences of lists under any relation. The elements of a difference are chosen from the front:
   one is chosen if it is the same neither as an element of the other list nor as one chosen before
   it (`Selects`). This leaves no choice (`Selects.unique`), although the relation need not be
   reflexive, symmetric or transitive, and so which one of several elements stands for the others
   depends on their order. Main statement: `difference_selects`. -/
namespace CatalogSync.Diff

/-- The elements of a list at the chosen positions, in order. -/
def picked {α : Type} (xs : List α) (chosen : Fin xs.length → Bool) : List α :=
  ((List.finRange xs.length).filter chosen).map fun i => xs[i]

/-- An element of `left` is chosen if and only if it is the same neither as an element of `right`
    nor as an element before it that is chosen. -/
def Selects {α : Type} (same : α → α → Bool) (left right : List α)
    (chosen : Fin left.length → Bool) : Prop :=
  ∀ i, chosen i = true ↔ (∀ b ∈ right, same left[i] b = false) ∧
    ∀ j < i, chosen j = true → same left[i] left[j] = false

instance {α : Type} (same : α → α → Bool) (left right : List α) (chosen : Fin left.length → Bool) :
    Decidable (Selects same left right chosen) :=
  inferInstanceAs (Decidable (∀ _, _))

variable {α : Type} {same : α → α → Bool} {left right : List α} {a : α}
  {chosen chosen' : Fin left.length → Bool}

/-! ### What is chosen -/

/-- There is one way to choose: what is chosen before a position settles what happens there. -/
theorem Selects.unique (h : Selects same left right chosen)
    (h' : Selects same left right chosen') : chosen = chosen' := by
  funext i
  induction i using WellFoundedLT.induction with
  | ind i ih =>
    rw [Bool.eq_iff_iff, h i, h' i]
    constructor
    · intro hi
      exact ⟨hi.1, fun j hj hc => hi.2 j hj (ih j hj ▸ hc)⟩
    · intro hi
      exact ⟨hi.1, fun j hj hc => hi.2 j hj (ih j hj ▸ hc)⟩

theorem picked_cons (a : α) (xs : List α) (b : Bool) (chosen : Fin xs.length → Bool) :
    picked (a :: xs) (Fin.cons b chosen) = (if b then [a] else []) ++ picked xs chosen := by
  have hrest : ((List.finRange xs.length).map Fin.succ).filter (Fin.cons b chosen) =
      ((List.finRange xs.length).filter chosen).map Fin.succ := by
    rw [List.filter_map]
    rfl
  show ((List.finRange (xs.length + 1)).filter (Fin.cons b chosen)).map _ = _
  rw [List.finRange_succ, List.filter_cons, hrest]
  cases b with
  | true => simp [picked]
  | false => simp [picked]

/-- The first element is chosen if nothing speaks against it, and then it counts against the others
    like an element of `right`. -/
theorem Selects.cons {b : Bool} (hb : b = true ↔ ∀ c ∈ right, same a c = false)
    (h : Selects same left (if b then right ++ [a] else right) chosen) :
    Selects same (a :: left) right (Fin.cons b chosen) := by
  intro i
  cases i using Fin.cases with
  | zero =>
    rw [Fin.cons_zero, hb]
    exact ⟨fun hr => ⟨hr, fun j hj => absurd hj (Fin.not_lt_zero j)⟩, fun hr => hr.1⟩
  | succ i =>
    have hsucc : (∀ j < i.succ, (Fin.cons b chosen : Fin (left.length + 1) → Bool) j = true →
          same left[i] (a :: left)[j] = false) ↔
        (b = true → same left[i] a = false) ∧
          ∀ j < i, chosen j = true → same left[i] left[j] = false := by
      constructor
      · intro hj
        exact ⟨hj 0 (Fin.succ_pos i), fun j hlt => hj j.succ (Fin.succ_lt_succ_iff.2 hlt)⟩
      · intro hj j
        cases j using Fin.cases with
        | zero => exact fun _ => hj.1
        | succ j => exact fun hlt => hj.2 j (Fin.succ_lt_succ_iff.1 hlt)
    show chosen i = true ↔ (∀ c ∈ right, same left[i] c = false) ∧
      ∀ j < i.succ, (Fin.cons b chosen : Fin (left.length + 1) → Bool) j = true →
        same left[i] (a :: left)[j] = false
    rw [hsucc, h i]
    cases b with
    | true => simp [or_imp, forall_and, and_assoc]
    | false => simp

/-- What is taken counts like the elements of `right`. -/
theorem exists_selection (same : α → α → Bool) (right left taken : List α) :
    ∃ chosen : Fin left.length → Bool, Selects same left (right ++ taken) chosen ∧
      differenceFrom same right taken left = picked left chosen := by
  induction left generalizing taken with
  | nil => exact ⟨fun i => i.elim0, fun i => i.elim0, rfl⟩
  | cons a left ih =>
    have hfree : (right.any (same a) || taken.any (same a)) = false ↔
        ∀ c ∈ right ++ taken, same a c = false := by
      simp [or_imp, forall_and]
    cases hb : right.any (same a) || taken.any (same a) with
    | true =>
      obtain ⟨chosen, hchosen, hpicked⟩ := ih taken
      refine ⟨Fin.cons false chosen, Selects.cons ?_ hchosen, ?_⟩
      · rw [← hfree, hb]
        simp
      · rw [differenceFrom, if_pos hb, hpicked, picked_cons]
        rfl
    | false =>
      obtain ⟨chosen, hchosen, hpicked⟩ := ih (taken ++ [a])
      rw [← List.append_assoc] at hchosen
      refine ⟨Fin.cons true chosen, Selects.cons ?_ hchosen, ?_⟩
      · rw [← hfree, hb]
        simp
      · rw [differenceFrom, if_neg (by simp [hb]), hpicked, picked_cons]
        rfl

/-- A difference is what is chosen. -/
theorem difference_eq_picked (h : Selects same left right chosen) :
    difference same left right = picked left chosen := by
  obtain ⟨chosen', h', hpicked⟩ := exists_selection same right left []
  rw [List.append_nil] at h'
  rw [difference, hpicked, h.unique h']

theorem exists_selects (same : α → α → Bool) (left right : List α) :
    ∃ chosen, Selects same left right chosen := by
  obtain ⟨chosen, h, -⟩ := exists_selection same right left []
  exact ⟨chosen, List.append_nil right ▸ h⟩

/-! ### What only one side has -/

/-- With a further element at the end, the difference has that element too, if it is the same
    neither as an element of `right` nor as one that the difference has. -/
theorem difference_append_singleton (same : α → α → Bool) (left right : List α) (a : α) :
    difference same (left ++ [a]) right = difference same left right ++
      if right.any (same a) || (difference same left right).any (same a) then [] else [a] := by
  have hfrom : ∀ taken, differenceFrom same right taken (left ++ [a]) =
      differenceFrom same right taken left ++
        if right.any (same a) || (taken ++ differenceFrom same right taken left).any (same a)
        then [] else [a] := by
    induction left with
    | nil =>
      intro taken
      simp [differenceFrom]
    | cons b left ih =>
      intro taken
      rw [List.cons_append, differenceFrom, differenceFrom]
      split
      · exact ih taken
      · rw [ih (taken ++ [b])]
        simp
  exact hfrom []

theorem mem_difference (h : a ∈ difference same left right) :
    a ∈ left ∧ right.any (same a) = false := by
  induction left using List.reverseRecOn with
  | nil => exact absurd h List.not_mem_nil
  | append_singleton left b ih =>
    rw [difference_append_singleton] at h
    rcases List.mem_append.1 h with h | h
    · exact (ih h).imp_left (List.mem_append_left [b])
    · split at h
      · exact absurd h List.not_mem_nil
      · next hb =>
        obtain rfl := List.mem_singleton.1 h
        rw [Bool.or_eq_true, not_or] at hb
        exact ⟨List.mem_append_right left h, Bool.eq_false_iff.2 hb.1⟩

/-- What has no counterpart is taken, or it is the same as something taken. -/
theorem exists_difference (ha : a ∈ left) (hr : right.any (same a) = false) :
    ∃ c ∈ difference same left right, a = c ∨ same a c = true := by
  induction left using List.reverseRecOn with
  | nil => exact absurd ha List.not_mem_nil
  | append_singleton left b ih =>
    rw [difference_append_singleton]
    rcases List.mem_append.1 ha with ha | ha
    · obtain ⟨c, hc, hs⟩ := ih ha
      exact ⟨c, List.mem_append_left _ hc, hs⟩
    · obtain rfl := List.mem_singleton.1 ha
      split
      · next hb =>
        rw [hr, Bool.false_or, List.any_eq_true] at hb
        obtain ⟨c, hc, hs⟩ := hb
        exact ⟨c, List.mem_append_left _ hc, Or.inr hs⟩
      · exact ⟨a, List.mem_append_right _ ha, Or.inl rfl⟩

theorem difference_eq_nil (h : ∀ a ∈ left, right.any (same a) = true) :
    difference same left right = [] := by
  apply List.eq_nil_iff_forall_not_mem.2
  intro a ha
  obtain ⟨hm, hr⟩ := mem_difference ha
  rw [h a hm] at hr
  cases hr

theorem difference_sublist (same : α → α → Bool) (left right : List α) :
    (difference same left right).Sublist left := by
  induction left using List.reverseRecOn with
  | nil => exact List.Sublist.slnil
  | append_singleton left a ih =>
    rw [difference_append_singleton]
    refine ih.append ?_
    split
    · exact List.nil_sublist _
    · exact List.Sublist.refl _

/-- An element of a difference is not the same as one before it. -/
theorem pairwise_difference (same : α → α → Bool) (left right : List α) :
    (difference same left right).Pairwise fun a b => same b a = false := by
  induction left using List.reverseRecOn with
  | nil => exact List.Pairwise.nil
  | append_singleton left a ih =>
    rw [difference_append_singleton]
    split
    · rw [List.append_nil]
      exact ih
    · next hfree =>
      rw [Bool.or_eq_true, not_or, Bool.not_eq_true, Bool.not_eq_true] at hfree
      refine List.pairwise_append.2 ⟨ih, List.pairwise_singleton .., ?_⟩
      intro c hc b hb
      rw [List.mem_singleton.1 hb]
      exact Bool.eq_false_iff.2 (List.any_eq_false.1 hfree.2 c hc)

/-- Without repeats, and with nothing to leave out for, a list is its own difference. -/
theorem difference_eq_self {xs : List α} (h : xs.Pairwise fun a b => same b a = false) :
    difference same xs [] = xs := by
  induction xs using List.reverseRecOn with
  | nil => rfl
  | append_singleton xs a ih =>
    obtain ⟨hxs, -, ha⟩ := List.pairwise_append.1 h
    have hfree : xs.any (same a) = false :=
      List.any_eq_false.2 fun b hb => by simp [ha b hb a (List.mem_singleton_self a)]
    rw [difference_append_singleton, ih hxs, hfree]
    rfl

/-! ### Categories -/

/-- The references that only the left side has, one for all that are equivalent to it. -/
structure OnlyIn (left right only : List Reference) : Prop where
  sublist : only.Sublist left
  apart : only.Pairwise fun c d => c.isEquivalent d = false
  absent : ∀ c ∈ left, (∃ d ∈ right, c.isEquivalent d = true) → c ∉ only
  covered : ∀ c ∈ left, (∀ d ∈ right, c.isEquivalent d = false) →
    c ∈ only ∨ ∃ r ∈ only, c.isEquivalent r = true

theorem onlyIn_difference (left right : List Reference) :
    OnlyIn left right (difference Reference.isEquivalent left right) where
  sublist := difference_sublist ..
  apart := (pairwise_difference ..).imp fun {c d} h => Reference.isEquivalent_comm c d ▸ h
  absent c _ hd hc := by
    obtain ⟨d, hd, hs⟩ := hd
    exact List.any_eq_false.1 (mem_difference hc).2 d hd hs
  covered c hc hnone := by
    have hr : right.any c.isEquivalent = false :=
      List.any_eq_false.2 fun d hd => by simp [hnone d hd]
    obtain ⟨r, hr, rfl | hs⟩ := exists_difference hc hr
    · exact Or.inl hr
    · exact Or.inr ⟨r, hr, hs⟩

/-- All changes of the categories of a product, as those of an unordered collection. -/
def membershipActions (old : Product) (new : ProductDraft) : List ProductAction :=
  setActions Reference.isEquivalent .removeFromCategory .addToCategory old.categories new.categories

/-- The removals are what comes of the old side, and the additions what comes of the new one. -/
theorem filter_membershipActions (old : Product) (new : ProductDraft) :
    (membershipActions old new).filter (·.verb = .removeFromCategory) =
        removeFromCategoryActions old new ∧
      (membershipActions old new).filter (·.verb = .addToCategory) =
        addToCategoryActions old new := by
  have hremovals : ∀ a ∈ removeFromCategoryActions old new, a.verb = .removeFromCategory := by
    intro a ha
    obtain ⟨c, -, rfl⟩ := List.mem_map.1 ha
    rfl
  have hadditions : ∀ a ∈ addToCategoryActions old new, a.verb = .addToCategory := by
    intro a ha
    obtain ⟨c, -, rfl⟩ := List.mem_map.1 ha
    rfl
  have hparts : membershipActions old new =
      removeFromCategoryActions old new ++ addToCategoryActions old new := rfl
  rw [hparts, List.filter_append, List.filter_append]
  constructor
  · rw [List.filter_eq_self.2 fun a ha => by simp [hremovals a ha],
      List.filter_eq_nil_iff.2 fun a ha => by simp [hadditions a ha], List.append_nil]
  · rw [List.filter_eq_nil_iff.2 fun a ha => by simp [hremovals a ha],
      List.filter_eq_self.2 fun a ha => by simp [hadditions a ha], List.nil_append]

/-- **A difference is chosen from the front, under any relation.** Of a list, an element is returned
    if and only if it is the same neither as an element of the other list nor as one that is
    returned before it; no other choice of positions has this property. So it is with the
    categories of a product: those that are removed and those that are added are each pairwise
    inequivalent and in their order, none has an equivalent on the other side, and whatever has none
    there is among them or equivalent to one of them. The removals precede the additions, and both
    together are the changes of the categories as an unordered collection. -/
theorem difference_selects :
    (∀ (α : Type) (same : α → α → Bool) (left right : List α),
      ∃ chosen, Selects same left right chosen ∧
        (∀ chosen', Selects same left right chosen' → chosen' = chosen) ∧
        difference same left right = picked left chosen) ∧
    ∀ (old : Product) (new : ProductDraft), ∃ removed added,
      OnlyIn old.categories new.categories removed ∧ OnlyIn new.categories old.categories added ∧
      membershipActions old new =
        removed.map .removeFromCategory ++ added.map .addToCategory ∧
      removeFromCategoryActions old new =
        (membershipActions old new).filter (·.verb = .removeFromCategory) ∧
      addToCategoryActions old new =
        (membershipActions old new).filter (·.verb = .addToCategory) ∧
      removeFromCategoryActions old new ++ addToCategoryActions old new =
        membershipActions old new := by
  constructor
  · intro α same left right
    obtain ⟨chosen, h⟩ := exists_selects same left right
    exact ⟨chosen, h, fun chosen' h' => h'.unique h, difference_eq_picked h⟩
  · intro old new
    obtain ⟨hremovals, hadditions⟩ := filter_membershipActions old new
    exact ⟨_, _, onlyIn_difference .., onlyIn_difference .., rfl, hremovals.symm,
      hadditions.symm, rfl⟩

/-- References by id, by both and by key: those beside each other are equivalent, the ends are
    not. -/
abbrev chainedReferences : List Reference := [.ofId "i", .ofIdAndKey "i" "k", .ofKey "k"]

theorem difference_selects_chained :
    Selects Reference.isEquivalent chainedReferences [] ![true, false, true] ∧
    difference Reference.isEquivalent chainedReferences [] = [.ofId "i", .ofKey "k"] ∧
    Selects (fun m n : Nat => m ≤ n) [3, 1, 4, 2] [1] ![true, false, true, false] ∧
    difference (fun m n : Nat => m ≤ n) [3, 1, 4, 2] [1] = [3, 4] := by
  have chained : Selects Reference.isEquivalent chainedReferences [] ![true, false, true] := by
    decide
  have below : Selects (fun m n : Nat => m ≤ n) [3, 1, 4, 2] [1] ![true, false, true, false] := by
    decide
  obtain ⟨chosen, -, unique, picks⟩ :=
    difference_selects.1 Reference Reference.isEquivalent chainedReferences []
  obtain ⟨chosen', -, unique', picks'⟩ :=
    difference_selects.1 Nat (fun m n => m ≤ n) [3, 1, 4, 2] [1]
  refine ⟨chained, ?_, below, ?_⟩
  · rw [picks, ← unique _ chained]
    rfl
  · rw [picks', ← unique' _ below]
    rfl

end CatalogSync.Diff
