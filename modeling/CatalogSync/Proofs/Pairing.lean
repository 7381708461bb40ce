import CatalogSync.Edit.Sequence
import CatalogSync.Sorted.Map
import Mathlib.Data.List.Forall2
import Mathlib.Data.List.Nodup
import Mathlib.Data.List.Pairwise
import Mathlib.Data.List.Perm.Basic

/- Lists whose elements are told apart by keys. A key singles out at most one element, so taking
   out or changing the first match is the same as doing it to all (`eraseP_eq_filter`,
   `changeFirst_eq_map`); an index by key finds this element, in whatever order the list is
   (`get?_indexBy_eq_some`, `indexBy_perm`); and two lists that match by their keys correspond one
   to one (`oneToOne_of_keys`). -/
namespace CatalogSync.Edit

variable {α β : Type}

/-! ### One element of a list -/

/-- At most one element of the list passes the test. -/
def AtMostOne (p : α → Bool) (xs : List α) : Prop :=
  xs.Pairwise fun a b => ¬ (p a = true ∧ p b = true)

instance (p : α → Bool) (xs : List α) : Decidable (AtMostOne p xs) :=
  inferInstanceAs (Decidable (xs.Pairwise _))

theorem atMostOne_cons {p : α → Bool} {x : α} {xs : List α} (h : AtMostOne p (x :: xs)) :
    (p x = true → ∀ y ∈ xs, p y = false) ∧ AtMostOne p xs := by
  obtain ⟨hx, hxs⟩ := List.pairwise_cons.1 h
  refine ⟨?_, hxs⟩
  intro hp y hy
  exact Bool.eq_false_iff.2 fun hpy => hx y hy ⟨hp, hpy⟩

theorem AtMostOne.eq {p : α → Bool} {xs : List α} (h : AtMostOne p xs) {a b : α} (ha : a ∈ xs)
    (hb : b ∈ xs) (hpa : p a = true) (hpb : p b = true) : a = b := by
  by_contra hne
  have : Std.Symm fun a b : α => ¬ (p a = true ∧ p b = true) := ⟨fun _ _ h h' => h h'.symm⟩
  exact List.Pairwise.forall h ha hb hne ⟨hpa, hpb⟩

theorem AtMostOne.perm {p : α → Bool} {xs ys : List α} (h : AtMostOne p xs) (hp : xs.Perm ys) :
    AtMostOne p ys :=
  (hp.pairwise_iff fun hxy hyx => hxy hyx.symm).1 h

/-- Where values tell the elements apart, one element has the value of a given one. -/
theorem filter_eq_singleton {κ : Type} [BEq κ] [LawfulBEq κ] {f : α → κ} {xs : List α} {x : α}
    (h : (xs.map f).Nodup) (hx : x ∈ xs) : xs.filter (fun y => f y == f x) = [x] := by
  obtain ⟨before, after, rfl⟩ := List.append_of_mem hx
  rw [List.map_append, List.map_cons, List.nodup_middle, List.nodup_cons, List.mem_append] at h
  have hnone : ∀ ys : List α, f x ∉ ys.map f → ys.filter (fun y => f y == f x) = [] := by
    intro ys hys
    apply List.filter_eq_nil_iff.2
    intro y hy he
    exact hys (List.mem_map.2 ⟨y, hy, eq_of_beq he⟩)
  rw [List.filter_append, List.filter_cons_of_pos (by simp), hnone before fun hm => h.1 (Or.inl hm),
    hnone after fun hm => h.1 (Or.inr hm)]
  rfl

theorem eraseP_eq_filter {p : α → Bool} {xs : List α} (h : AtMostOne p xs) :
    xs.eraseP p = xs.filter fun a => !p a := by
  induction xs with
  | nil => rfl
  | cons x xs ih =>
    obtain ⟨hx, hxs⟩ := atMostOne_cons h
    cases hp : p x with
    | true =>
      rw [List.eraseP_cons_of_pos hp, List.filter_cons_of_neg (by simp [hp])]
      symm
      apply List.filter_eq_self.2
      intro y hy
      rw [hx hp y hy]
      rfl
    | false =>
      rw [List.eraseP_cons_of_neg (by simp [hp]), List.filter_cons_of_pos (by simp [hp]),
        ih hxs]

theorem changeFirst_eq_map {p : α → Bool} {f : α → α} {xs : List α} (h : AtMostOne p xs) :
    changeFirst p f xs = xs.map fun a => if p a then f a else a := by
  induction xs with
  | nil => rfl
  | cons x xs ih =>
    obtain ⟨hx, hxs⟩ := atMostOne_cons h
    rw [changeFirst, List.map_cons]
    cases hp : p x with
    | true =>
      have rest : ∀ y ∈ xs, (if p y then f y else y) = y := by
        intro y hy
        simp [hx hp y hy]
      rw [if_pos rfl, if_pos rfl, List.map_congr_left rest, List.map_id']
    | false => simp [ih hxs]

theorem changeFirst_of_none {p : α → Bool} {f : α → α} {xs : List α}
    (h : ∀ x ∈ xs, p x = false) : changeFirst p f xs = xs := by
  induction xs with
  | nil => rfl
  | cons x xs ih =>
    rw [changeFirst, if_neg (by simp [h x (List.mem_cons_self ..)]),
      ih fun y hy => h y (List.mem_cons_of_mem x hy)]

/-- A match is changed where it stands, whatever comes behind it. -/
theorem changeFirst_append_of_exists {p : α → Bool} (f : α → α) {xs : List α}
    (h : ∃ x ∈ xs, p x = true) (ys : List α) :
    changeFirst p f (xs ++ ys) = changeFirst p f xs ++ ys := by
  induction xs with
  | nil =>
    obtain ⟨x, hx, -⟩ := h
    cases hx
  | cons x xs ih =>
    rw [List.cons_append, changeFirst, changeFirst]
    cases hx : p x with
    | true => rfl
    | false =>
      have hrest : ∃ y ∈ xs, p y = true := by simpa [hx] using h
      exact congrArg (x :: ·) (ih hrest)

theorem map_changeFirst {p : α → Bool} {f : α → α} {g : α → β} (h : ∀ x, g (f x) = g x) :
    ∀ xs : List α, (changeFirst p f xs).map g = xs.map g
  | [] => rfl
  | x :: xs => by
    rw [changeFirst]
    split
    · rw [List.map_cons, h, List.map_cons]
    · rw [List.map_cons, map_changeFirst h xs, List.map_cons]

theorem mem_changeFirst {p : α → Bool} {f : α → α} {y : α} : ∀ {xs : List α},
    y ∈ changeFirst p f xs → y ∈ xs ∨ ∃ x ∈ xs, y = f x
  | [], h => absurd h List.not_mem_nil
  | x :: xs, h => by
    rw [changeFirst] at h
    split at h
    · rcases List.mem_cons.1 h with rfl | h
      · exact Or.inr ⟨x, List.mem_cons_self .., rfl⟩
      · exact Or.inl (List.mem_cons_of_mem x h)
    · rcases List.mem_cons.1 h with rfl | h
      · exact Or.inl (List.mem_cons_self ..)
      · rcases mem_changeFirst h with h | ⟨z, hz, he⟩
        · exact Or.inl (List.mem_cons_of_mem x h)
        · exact Or.inr ⟨z, List.mem_cons_of_mem x hz, he⟩

/-- Changing the one match of a list. -/
theorem changeFirst_perm {p : α → Bool} (f : α → α) {x : α} {xs ys : List α}
    (hp : xs.Perm (x :: ys)) (hx : p x = true) (hy : ∀ y ∈ ys, p y = false) :
    (changeFirst p f xs).Perm (f x :: ys) := by
  have hone : AtMostOne p (x :: ys) := by
    refine List.pairwise_cons.2 ⟨?_, ?_⟩
    · intro y hm hxy
      have h := hxy.2
      rw [hy y hm] at h
      cases h
    · refine List.pairwise_of_forall_mem_list ?_
      intro y hm z _ hyz
      have h := hyz.1
      rw [hy y hm] at h
      cases h
  have hrest : ∀ y ∈ ys, (if p y then f y else y) = y := by
    intro y hm
    simp [hy y hm]
  calc (changeFirst p f xs).Perm (xs.map fun a => if p a then f a else a) := by
        rw [changeFirst_eq_map (hone.perm hp.symm)]
    List.Perm _ ((x :: ys).map fun a => if p a then f a else a) := hp.map _
    List.Perm _ (f x :: ys) := by
        rw [List.map_cons, if_pos hx, List.map_congr_left hrest, List.map_id']

/-- Keys that tell the elements of a list apart single out at most one. -/
theorem atMostOne_of_nodup {κ : Type} [BEq κ] [LawfulBEq κ] {key : α → Option κ} {xs : List α}
    (h : (xs.filterMap key).Nodup) (k : κ) : AtMostOne (fun a => key a == some k) xs := by
  induction xs with
  | nil => exact .nil
  | cons x xs ih =>
    cases hx : key x with
    | none =>
      rw [List.filterMap_cons_none hx] at h
      refine List.pairwise_cons.2 ⟨?_, ih h⟩
      intro y _ hxy
      have hk : key x = some k := eq_of_beq hxy.1
      rw [hx] at hk
      cases hk
    | some k' =>
      rw [List.filterMap_cons_some hx] at h
      obtain ⟨hk', h⟩ := List.nodup_cons.1 h
      refine List.pairwise_cons.2 ⟨?_, ih h⟩
      intro y hy hxy
      have hk : key x = some k := eq_of_beq hxy.1
      rw [hx] at hk
      cases hk
      exact hk' (List.mem_filterMap.2 ⟨y, hy, eq_of_beq hxy.2⟩)

section Index

variable {κ : Type} [LT κ] [DecidableEq κ] [DecidableLT κ] [LinearKey κ] {key : α → Option κ}
  {xs ys : List α}

/-- In an index by keys that tell the elements apart, a key leads to the element that has it. -/
theorem get?_indexBy_eq_some (h : (xs.filterMap key).Nodup) {k : κ} {x : α} :
    (SortedMap.indexBy key xs).get? k = some x ↔ x ∈ xs ∧ key x = some k := by
  rw [SortedMap.get?_indexBy]
  have hfound {y : α} (hf : xs.reverse.find? (fun y => key y = some k) = some y) :
      y ∈ xs ∧ key y = some k :=
    ⟨List.mem_reverse.1 (List.mem_of_find?_eq_some hf), by simpa using List.find?_some hf⟩
  refine ⟨hfound, ?_⟩
  rintro ⟨hx, hk⟩
  cases hf : xs.reverse.find? fun y => key y = some k with
  | none => exact absurd hk (by simpa using List.find?_eq_none.1 hf x (List.mem_reverse.2 hx))
  | some y =>
    obtain ⟨hy, hyk⟩ := hfound hf
    rw [(atMostOne_of_nodup h k).eq hy hx (beq_iff_eq.2 hyk) (beq_iff_eq.2 hk)]

/-- Such an index does not depend on the order of the elements. -/
theorem indexBy_perm (h : (xs.filterMap key).Nodup) (hp : ys.Perm xs) :
    SortedMap.indexBy key ys = SortedMap.indexBy key xs := by
  have hys : (ys.filterMap key).Nodup := (hp.filterMap key).nodup_iff.2 h
  refine SortedMap.ext fun k => Option.ext fun x => ?_
  rw [get?_indexBy_eq_some hys, get?_indexBy_eq_some h, hp.mem_iff]

end Index

/-- Elements that all have a key are told apart by it. -/
theorem nodup_map_of_filterMap {κ : Type} {key : α → Option κ} {xs : List α}
    (hk : ∀ x ∈ xs, (key x).isSome = true) (h : (xs.filterMap key).Nodup) : (xs.map key).Nodup := by
  have hsome : xs.map key = (xs.filterMap key).map some := by
    induction xs with
    | nil => rfl
    | cons x xs ih =>
      obtain ⟨k, hx⟩ := Option.isSome_iff_exists.1 (hk x (List.mem_cons_self ..))
      rw [List.filterMap_cons_some hx] at h ⊢
      rw [List.map_cons, List.map_cons, hx,
        ih (fun y hy => hk y (List.mem_cons_of_mem x hy)) (List.nodup_cons.1 h).2]
  rw [hsome]
  exact h.map fun _ _ he => Option.some.inj he

/-- Elements that have different keys, or none, are told apart by the keys that they have. -/
theorem nodup_filterMap_of_map {κ : Type} {key : α → Option κ} {xs : List α}
    (h : (xs.map key).Nodup) : (xs.filterMap key).Nodup := by
  have hkeys : xs.filterMap key = (xs.map key).filterMap id := by
    rw [List.filterMap_map]
    rfl
  rw [hkeys]
  exact h.filterMap fun a b k ha hb => ha.trans hb.symm

/-- Taking elements out one key at a time leaves those without any of the keys. -/
theorem replay_eraseP {κ : Type} [BEq κ] [LawfulBEq κ] {key : α → Option κ} {ks : List κ}
    {xs : List α} (h : (xs.filterMap key).Nodup) :
    replay (fun k xs => xs.eraseP fun a => key a == some k) ks xs =
      xs.filter fun a => !(key a).any ks.contains := by
  induction ks generalizing xs with
  | nil =>
    symm
    apply List.filter_eq_self.2
    intro a _
    cases key a <;> rfl
  | cons k ks ih =>
    -- the keys are still distinct once the elements with the first one are gone
    have rest : ((xs.filter fun a => !(key a == some k)).filterMap key).Nodup :=
      h.sublist (List.filter_sublist.filterMap key)
    rw [replay_cons, eraseP_eq_filter (atMostOne_of_nodup h k), ih rest,
      List.filter_filter]
    apply List.filter_congr
    intro a _
    cases key a with
    | none => rfl
    | some k' => simp [Bool.and_comm]

/-- A key that the draft lacks is dropped, and no other. -/
theorem not_contains_dropped {κ : Type} [BEq κ] [LawfulBEq κ] {keys new : List κ} {k : κ}
    (hk : k ∈ keys) : (!(keys.filter fun k => !new.contains k).contains k) = new.contains k := by
  rw [Bool.eq_iff_iff]
  simp [hk]

/-! ### One to one -/

/-- In some order, the elements of the one list are related to those of the other. -/
def OneToOne (R : α → β → Prop) (xs : List α) (ys : List β) : Prop :=
  ∃ us : List α, us.Perm xs ∧ List.Forall₂ R us ys

theorem exists_of_forall₂_left {R : α → β → Prop} : ∀ {us : List α} {ys : List β},
    List.Forall₂ R us ys → ∀ x ∈ us, ∃ y ∈ ys, R x y
  | _, _, .nil, _, hx => absurd hx List.not_mem_nil
  | _, _, .cons (b := y) h hs, x, hx => by
    rcases List.mem_cons.1 hx with rfl | hx
    · exact ⟨y, List.mem_cons_self .., h⟩
    · obtain ⟨z, hz, hr⟩ := exists_of_forall₂_left hs x hx
      exact ⟨z, List.mem_cons_of_mem y hz, hr⟩

theorem forall₂_mono {R S : α → β → Prop} {xs : List α} {ys : List β} (h : List.Forall₂ R xs ys)
    (hi : ∀ x ∈ xs, ∀ y ∈ ys, R x y → S x y) : List.Forall₂ S xs ys := by
  induction h with
  | nil => exact .nil
  | @cons x y xs ys hxy _ ih =>
    refine .cons (hi x (List.mem_cons_self ..) y (List.mem_cons_self ..) hxy) (ih ?_)
    exact fun z hz w hw => hi z (List.mem_cons_of_mem x hz) w (List.mem_cons_of_mem y hw)

theorem forall₂_trans {R : α → α → Prop} (hr : ∀ x y z, R x y → R y z → R x z) :
    ∀ {xs ys zs : List α}, List.Forall₂ R xs ys → List.Forall₂ R ys zs → List.Forall₂ R xs zs
  | _, _, _, .nil, .nil => .nil
  | _, _, _, .cons h hs, .cons h' hs' => .cons (hr _ _ _ h h') (forall₂_trans hr hs hs')

theorem map_eq_of_forall₂ {κ : Type} {R : α → β → Prop} {f : α → κ} {g : β → κ}
    (hkey : ∀ x y, R x y → f x = g y) {xs : List α} {ys : List β} (h : List.Forall₂ R xs ys) :
    xs.map f = ys.map g := by
  have heq : List.Forall₂ Eq (xs.map f) (ys.map g) := List.rel_map (fun x y => hkey x y) h
  rwa [List.forall₂_eq_eq_eq] at heq

theorem OneToOne.left {R : α → β → Prop} {xs : List α} {ys : List β} (h : OneToOne R xs ys) :
    ∀ x ∈ xs, ∃ y ∈ ys, R x y := by
  obtain ⟨us, hp, hs⟩ := h
  intro x hx
  exact exists_of_forall₂_left hs x (hp.mem_iff.2 hx)

theorem OneToOne.right {R : α → β → Prop} {xs : List α} {ys : List β} (h : OneToOne R xs ys) :
    ∀ y ∈ ys, ∃ x ∈ xs, R x y := by
  obtain ⟨us, hp, hs⟩ := h
  intro y hy
  obtain ⟨x, hx, hr⟩ := exists_of_forall₂_left hs.flip y hy
  exact ⟨x, hp.mem_iff.1 hx, hr⟩

theorem oneToOne_self {R : α → α → Prop} {xs : List α} (h : ∀ x ∈ xs, R x x) : OneToOne R xs xs :=
  ⟨xs, .refl _, List.forall₂_same.2 h⟩

theorem OneToOne.mono {R S : α → β → Prop} {xs : List α} {ys : List β} (h : OneToOne R xs ys)
    (hi : ∀ x y, R x y → S x y) : OneToOne S xs ys := by
  obtain ⟨us, hp, hs⟩ := h
  exact ⟨us, hp, hs.imp hi⟩

theorem OneToOne.cons {R : α → β → Prop} {x : α} {y : β} {xs : List α} {ys : List β} (hr : R x y)
    (h : OneToOne R xs ys) : OneToOne R (x :: xs) (y :: ys) := by
  obtain ⟨us, hp, hs⟩ := h
  exact ⟨x :: us, hp.cons x, .cons hr hs⟩

theorem OneToOne.append {R : α → β → Prop} {xs xs' : List α} {ys ys' : List β}
    (h : OneToOne R xs ys) (h' : OneToOne R xs' ys') : OneToOne R (xs ++ xs') (ys ++ ys') := by
  obtain ⟨us, hp, hs⟩ := h
  obtain ⟨us', hp', hs'⟩ := h'
  exact ⟨us ++ us', hp.append hp', List.rel_append hs hs'⟩

theorem OneToOne.trans {R : α → α → Prop} (hr : ∀ x y z, R x y → R y z → R x z)
    {xs ys zs : List α} (h : OneToOne R xs ys) (h' : OneToOne R ys zs) : OneToOne R xs zs := by
  obtain ⟨us, hp, hs⟩ := h
  obtain ⟨vs, hq, ht⟩ := h'
  -- what is related to `ys` is brought into the order of `vs`
  obtain ⟨ws, hpw, hsw⟩ := List.perm_comp_forall₂ hq hs.flip
  exact ⟨ws, hsw.trans hp, forall₂_trans hr hpw.flip ht⟩

theorem oneToOne_of_perm {R : α → α → Prop} (hr : ∀ x, R x x) {xs ys : List α} (h : xs.Perm ys) :
    OneToOne R xs ys :=
  ⟨ys, h.symm, List.forall₂_same.2 fun x _ => hr x⟩

theorem OneToOne.isEmpty_eq {R : α → β → Prop} {xs : List α} {ys : List β}
    (h : OneToOne R xs ys) : xs.isEmpty = ys.isEmpty := by
  obtain ⟨us, hp, hs⟩ := h
  rw [← hp.isEmpty_eq]
  cases hs <;> rfl

/-- Elements that are related have the same key, so distinct keys make the relation one to one. -/
theorem oneToOne_of_keys {κ : Type} {R : α → β → Prop} {f : α → κ} {g : β → κ}
    (hkey : ∀ x y, R x y → f x = g y) {ys : List β} {xs : List α} (hf : (xs.map f).Nodup)
    (hg : (ys.map g).Nodup) (hl : ∀ x ∈ xs, ∃ y ∈ ys, R x y) (hr : ∀ y ∈ ys, ∃ x ∈ xs, R x y) :
    OneToOne R xs ys := by
  -- take the first of `ys` and its partner out; no other element has their key
  induction ys generalizing xs with
  | nil =>
    have hnil : xs = [] := List.eq_nil_iff_forall_not_mem.2 fun x hx => by
      obtain ⟨y, hy, -⟩ := hl x hx
      cases hy
    rw [hnil]
    exact ⟨[], .refl _, .nil⟩
  | cons y ys ih =>
    obtain ⟨hgy, hg⟩ := List.nodup_cons.1 hg
    obtain ⟨x, hx, hxy⟩ := hr y (List.mem_cons_self ..)
    obtain ⟨as, bs, rfl⟩ := List.append_of_mem hx
    have hmid : (as ++ x :: bs).Perm (x :: (as ++ bs)) := List.perm_middle
    have hf' := (hmid.map f).nodup_iff.1 hf
    obtain ⟨hfx, hf'⟩ := List.nodup_cons.1 hf'
    obtain ⟨us, hp, hs⟩ := @ih (as ++ bs) hf' hg
      (by
        intro z hz
        obtain ⟨y', hy', hzy⟩ := hl z (hmid.mem_iff.2 (List.mem_cons_of_mem x hz))
        rcases List.mem_cons.1 hy' with rfl | hy'
        · exact absurd (List.mem_map.2 ⟨z, hz, (hkey z _ hzy).trans (hkey x _ hxy).symm⟩) hfx
        · exact ⟨y', hy', hzy⟩)
      (by
        intro y' hy'
        obtain ⟨z, hz, hzy⟩ := hr y' (List.mem_cons_of_mem y hy')
        rcases List.mem_cons.1 (hmid.mem_iff.1 hz) with rfl | hz
        · exact absurd (List.mem_map.2 ⟨y', hy', (hkey z _ hzy).symm.trans (hkey z _ hxy)⟩) hgy
        · exact ⟨z, hz, hzy⟩)
    exact ⟨x :: us, (hp.cons x).trans hmid.symm, .cons hxy hs⟩

end CatalogSync.Edit
