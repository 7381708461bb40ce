import CatalogSync.Proofs.References
import CatalogSync.Proofs.Replay

/- Prices of a variant. Equivalence of scopes is not transitive, so what counts as the same price
   is settled by assumptions on both lists (`Priced`): scopes pair each price with at most one on
   the other side. Then the removals leave the partners of the draft prices, and each draft price
   turns its partner into what serves it (`served`), or is appended. Main statements:
   `replay_priceActions`, `priceActions_eq_nil`. -/
namespace CatalogSync.Diff

open CatalogSync.Edit

/-- A stored price is as a price of the draft wants it. -/
def Serves (stored wanted : Price) : Prop :=
  stored.sameScope wanted = true ∧ stored.value = wanted.value ∧ stored.key = wanted.key

/-- The stored prices are paired with those of the draft, one to one, and each is as its partner
    wants it; no scope of a stored price is that of a second price of the draft. -/
structure PricesServe (stored wanted : List Price) : Prop where
  pairing : OneToOne Serves stored wanted
  separate : ∀ o ∈ stored, AtMostOne (fun p => o.sameScope p) wanted

/-- The prices of a draft hold in scopes of their own, and the references of a scope are named. -/
structure WellPriced (wanted : List Price) : Prop where
  channels : ∀ p ∈ wanted, ∀ c ∈ p.channel, c.named = true
  groups : ∀ p ∈ wanted, ∀ g ∈ p.customerGroup, g.named = true
  apart : wanted.Pairwise fun p q => ¬ p.sameScope q = true

instance (wanted : List Price) : Decidable (WellPriced wanted) :=
  decidable_of_iff (_ ∧ _ ∧ _) ⟨fun ⟨h, h', h''⟩ => ⟨h, h', h''⟩,
    fun h => ⟨h.channels, h.groups, h.apart⟩⟩

/-- The stored prices can be addressed by id, and they can be paired with those of the draft by
    scope. -/
structure Priced (stored wanted : List Price) : Prop where
  identified : ∀ o ∈ stored, o.id.isSome = true
  distinct : (stored.filterMap (·.id)).Nodup
  left : ∀ p ∈ wanted, AtMostOne (fun o => o.sameScope p) stored
  right : ∀ o ∈ stored, AtMostOne (fun p => o.sameScope p) wanted

variable {old new : List Price}

theorem WellPriced.self (h : WellPriced new) {p : Price} (hp : p ∈ new) : p.sameScope p = true :=
  Price.sameScope_self (h.channels p hp) (h.groups p hp)

theorem WellPriced.eq (h : WellPriced new) {p q : Price} (hp : p ∈ new) (hq : q ∈ new)
    (hs : p.sameScope q = true) : p = q := by
  by_contra hne
  have : Std.Symm fun p q : Price => ¬ p.sameScope q = true :=
    ⟨fun p q h h' => h (p.sameScope_comm q ▸ h')⟩
  exact List.Pairwise.forall h.apart hp hq hne hs

theorem WellPriced.nodup (h : WellPriced new) : new.Nodup := by
  refine h.apart.imp_of_mem ?_
  intro p q hp _ hs he
  subst he
  exact hs (h.self hp)

/-! ### Removals -/

/-- A price of the draft holds in the scope of a stored one. -/
def wantedBy (new : List Price) (o : Price) : Bool := new.any fun p => p.sameScope o

theorem flatMap_dropPriceActions (new old : List Price) :
    old.flatMap (dropPriceActions new) =
      ((old.filter fun o => !wantedBy new o).filterMap (·.id)).map .removePrice := by
  induction old with
  | nil => rfl
  | cons o old ih =>
    have hdrop : dropPriceActions new o =
        if wantedBy new o then [] else (o.id.map .removePrice).toList := rfl
    rw [List.flatMap_cons, ih, hdrop]
    cases hw : wantedBy new o with
    | true =>
      rw [if_pos rfl, List.filter_cons_of_neg (by simp [hw])]
      rfl
    | false =>
      rw [if_neg Bool.false_ne_true, List.filter_cons_of_pos (by simp [hw])]
      cases ho : o.id with
      | none => rw [List.filterMap_cons_none ho]; rfl
      | some i => rw [List.filterMap_cons_some ho]; rfl

theorem replay_dropPriceActions (hi : ∀ o ∈ old, o.id.isSome = true)
    (hn : (old.filterMap (·.id)).Nodup) :
    replay prices (old.flatMap (dropPriceActions new)) old = old.filter (wantedBy new) := by
  rw [flatMap_dropPriceActions, replay_map]
  refine (replay_eraseP hn).trans (List.filter_congr ?_)
  intro o ho
  obtain ⟨i, hoi⟩ := Option.isSome_iff_exists.1 (hi o ho)
  have hiff :
      i ∈ (old.filter fun o => !wantedBy new o).filterMap (·.id) ↔ wantedBy new o = false := by
    rw [List.mem_filterMap]
    constructor
    · intro h
      obtain ⟨q, hq, hqi⟩ := h
      obtain ⟨hq, hw⟩ := List.mem_filter.1 hq
      have he : q = o := (atMostOne_of_nodup hn i).eq hq ho (beq_iff_eq.2 hqi) (beq_iff_eq.2 hoi)
      simpa [he] using hw
    · intro hw
      exact ⟨o, List.mem_filter.2 ⟨ho, by simp [hw]⟩, hoi⟩
  rw [hoi, Option.any_some, Bool.eq_iff_iff, Bool.not_eq_true', Bool.eq_false_iff, ne_eq,
    List.contains_iff_mem, hiff, Bool.not_eq_false]

/-- The stored price in the scope of a price of the draft. -/
def partner? (old : List Price) (p : Price) : Option Price := old.find? fun o => o.sameScope p

theorem partner?_eq_some (h : Priced old new) {o p : Price} (hp : p ∈ new) :
    partner? old p = some o ↔ o ∈ old ∧ o.sameScope p = true := by
  unfold partner?
  constructor
  · intro hf
    exact ⟨List.mem_of_find?_eq_some hf, @List.find?_some _ (fun o : Price => o.sameScope p) _ _ hf⟩
  · intro h
    obtain ⟨ho, hs⟩ := h
    obtain ⟨q, hq⟩ := Option.isSome_iff_exists.1
      (List.find?_isSome (p := fun o : Price => o.sameScope p) |>.2 ⟨o, ho, hs⟩)
    have hqs : q.sameScope p = true := @List.find?_some _ (fun o : Price => o.sameScope p) _ _ hq
    rw [hq, (h.left p hp).eq (List.mem_of_find?_eq_some hq) ho hqs hs]

/-- What the removals leave are the partners of the prices of the draft. -/
theorem perm_partners (h : Priced old new) (hw : WellPriced new) :
    (old.filter (wantedBy new)).Perm (new.filterMap (partner? old)) := by
  have hold : old.Nodup := by
    refine (List.pairwise_filterMap.1 h.distinct).imp_of_mem ?_
    intro o q ho _ hd he
    subst he
    obtain ⟨i, hi⟩ := Option.isSome_iff_exists.1 (h.identified o ho)
    exact hd i hi i hi rfl
  refine (List.perm_ext_iff_of_nodup (hold.filter _) ?_).2 ?_
  · refine List.pairwise_filterMap.2 (hw.nodup.imp_of_mem ?_)
    intro p q hp hq hne o ho o' ho' he
    subst he
    obtain ⟨hmem, hs⟩ := (partner?_eq_some h hp).1 ho
    exact hne ((h.right o hmem).eq hp hq hs ((partner?_eq_some h hq).1 ho').2)
  · intro o
    rw [List.mem_filter, List.mem_filterMap, wantedBy, List.any_eq_true]
    constructor
    · intro h
      obtain ⟨ho, p, hp, hs⟩ := h
      exact ⟨p, hp, (partner?_eq_some h hp).2 ⟨ho, p.sameScope_comm o ▸ hs⟩⟩
    · intro h
      obtain ⟨p, hp, hf⟩ := h
      obtain ⟨ho, hs⟩ := (partner?_eq_some h hp).1 hf
      exact ⟨ho, p, hp, o.sameScope_comm p ▸ hs⟩

/-! ### Changes and additions -/

/-- The stored price that comes to serve a price of the draft. -/
def served (old : List Price) (p : Price) : Price :=
  match partner? old p with
  | some o => if o.value != p.value || o.key != p.key then { p with id := o.id } else o
  | none => p

/-- The partner of a price of the draft, which is still as it was stored, is replaced if it does not
    serve the price. What was added before stands behind the stored prices and is not met. -/
theorem replay_placePriceActions_of_some (id : UInt32) {p o : Price} {ks ys : List Price}
    (ho : partner? old p = some o) (hp : ks.Perm (o :: ys)) (his : o.id.isSome = true)
    (hother : ∀ y ∈ ys, y.id ≠ o.id) (added : List Price) :
    ∃ ks', replay prices (placePriceActions id old p) (ks ++ added) = ks' ++ added ∧
      ks'.Perm (served old p :: ys) := by
  obtain ⟨i, hi⟩ := Option.isSome_iff_exists.1 his
  have hfind : old.find? (fun o => o.sameScope p) = some o := ho
  have hserved : served old p =
      if o.value != p.value || o.key != p.key then { p with id := o.id } else o := by
    rw [served, ho]
  rw [placePriceActions, hfind, hserved]
  simp only
  split
  · rw [hi]
    have hrest : ∀ y ∈ ys, (y.id == some i) = false :=
      fun y hy => beq_eq_false_iff_ne.2 fun h => hother y hy (h.trans hi.symm)
    have hin : ∃ k ∈ ks, (k.id == some i) = true :=
      ⟨o, hp.mem_iff.2 (List.mem_cons_self ..), beq_iff_eq.2 hi⟩
    let replace (q : Price) : Price := { p with id := q.id }
    have hchanged := @changeFirst_perm Price (fun q => q.id == some i) replace o ks ys hp
      (beq_iff_eq.2 hi) hrest
    have hreplace : replace o = { p with id := some i } := by rw [← hi]
    rw [hreplace] at hchanged
    exact ⟨_, changeFirst_append_of_exists replace hin added, hchanged⟩
  · exact ⟨ks, rfl, hp⟩

/-- A price of the draft without a partner is appended. -/
theorem replay_placePriceActions_of_none (id : UInt32) {p : Price} (ho : partner? old p = none)
    (xs : List Price) : replay prices (placePriceActions id old p) xs = xs ++ [served old p] := by
  have hfind : old.find? (fun o => o.sameScope p) = none := ho
  rw [placePriceActions, hfind, served, ho]
  rfl

theorem Priced.eq_of_id (h : Priced old new) {o q : Price} (ho : o ∈ old) (hq : q ∈ old)
    (he : o.id = q.id) : o = q := by
  obtain ⟨i, hi⟩ := Option.isSome_iff_exists.1 (h.identified o ho)
  exact (atMostOne_of_nodup h.distinct i).eq ho hq (beq_iff_eq.2 hi)
    (beq_iff_eq.2 (he.symm.trans hi))

/-- Different prices of the draft have partners with different ids. -/
theorem Priced.partner_ne (h : Priced old new) {p q o o' : Price} (hp : p ∈ new) (hq : q ∈ new)
    (hne : p ≠ q) (ho : partner? old p = some o) (ho' : partner? old q = some o') :
    o.id ≠ o'.id := by
  intro he
  obtain ⟨hmem, hs⟩ := (partner?_eq_some h hp).1 ho
  obtain ⟨hmem', hs'⟩ := (partner?_eq_some h hq).1 ho'
  rw [← h.eq_of_id hmem hmem' he] at hs'
  exact hne ((h.right o hmem).eq hp hq hs hs')

/-- What serves a price with a partner has the id of the partner. -/
theorem id_served {p o : Price} (ho : partner? old p = some o) : (served old p).id = o.id := by
  rw [served, ho]
  simp only
  split <;> rfl

/-- All prices of the draft are served, one by one: in front stand the prices `done` beside the
    partners of those that are still to come, and behind them the prices that were added. -/
theorem replay_placePrices (id : UInt32) (h : Priced old new) {rest done ks added : List Price}
    (hn : rest.Nodup) (hnew : ∀ p ∈ rest, p ∈ new)
    (hdone : ∀ x ∈ done, ∀ p ∈ rest, ∀ o, partner? old p = some o → x.id ≠ o.id)
    (hp : ks.Perm (done ++ rest.filterMap (partner? old))) :
    (replay prices (rest.flatMap (placePriceActions id old)) (ks ++ added)).Perm
      (done ++ added ++ rest.map (served old)) := by
  induction rest generalizing done ks added with
  | nil => simpa using hp.append_right added
  | cons p rest ih =>
    obtain ⟨hpr, hn⟩ := List.nodup_cons.1 hn
    have hpn := hnew p (List.mem_cons_self ..)
    have hrn : ∀ q ∈ rest, q ∈ new := fun q hq => hnew q (List.mem_cons_of_mem p hq)
    have hne : ∀ q ∈ rest, p ≠ q := fun q hq he => hpr (he ▸ hq)
    rw [List.flatMap_cons, replay_append, List.map_cons]
    cases ho : partner? old p with
    | none =>
      rw [List.filterMap_cons_none ho] at hp
      rw [replay_placePriceActions_of_none id ho, List.append_assoc]
      have hnext := @ih done ks (added ++ [served old p]) hn hrn
        (fun x hx q hq => hdone x hx q (List.mem_cons_of_mem p hq)) hp
      simpa using hnext
    | some o =>
      rw [List.filterMap_cons_some ho] at hp
      -- a change by the id of the partner meets the partner alone
      have hother : ∀ y ∈ done ++ rest.filterMap (partner? old), y.id ≠ o.id := by
        intro y hy
        rcases List.mem_append.1 hy with hy | hy
        · exact hdone y hy p (List.mem_cons_self ..) o ho
        · obtain ⟨q, hq, hqy⟩ := List.mem_filterMap.1 hy
          exact (h.partner_ne hpn (hrn q hq) (hne q hq) ho hqy).symm
      have his := h.identified o ((partner?_eq_some h hpn).1 ho).1
      obtain ⟨ks', hstep, hks⟩ := replay_placePriceActions_of_some id ho
        (hp.trans List.perm_middle) his hother added
      have hdone' : ∀ x ∈ done ++ [served old p], ∀ q ∈ rest, ∀ o', partner? old q = some o' →
          x.id ≠ o'.id := by
        intro x hx q hq o' ho'
        rcases List.mem_append.1 hx with hx | hx
        · exact hdone x hx q (List.mem_cons_of_mem p hq) o' ho'
        · rw [List.mem_singleton.1 hx, id_served ho]
          exact h.partner_ne hpn (hrn q hq) (hne q hq) ho ho'
      have hks : ks'.Perm (done ++ [served old p] ++ rest.filterMap (partner? old)) := by
        simpa using hks.trans List.perm_middle.symm
      rw [hstep]
      refine (ih hn hrn hdone' hks).trans ?_
      rw [List.append_assoc done, List.append_assoc done, List.append_assoc done]
      exact List.perm_middle.symm.append_left done

/-! ### All actions on prices -/

theorem served_serves (h : Priced old new) (hw : WellPriced new) {p : Price} (hp : p ∈ new) :
    Serves (served old p) p := by
  have hself := hw.self hp
  unfold served
  cases hf : partner? old p with
  | none => exact ⟨hself, rfl, rfl⟩
  | some o =>
    simp only
    split
    · exact ⟨hself, rfl, rfl⟩
    · next hsame =>
      simp only [Bool.or_eq_true, bne_iff_ne, ne_eq, not_or, not_not] at hsame
      exact ⟨((partner?_eq_some h hp).1 hf).2, hsame⟩

/-- Nothing in the scope of a price of the draft is in that of another one. -/
theorem WellPriced.separate (hw : WellPriced new) {p : Price} (hp : p ∈ new) :
    AtMostOne (fun q => p.sameScope q) new := by
  refine hw.nodup.imp_of_mem ?_
  intro q r hq hr hne hboth
  obtain ⟨hpq, hpr⟩ := hboth
  exact hne ((hw.eq hp hq hpq).symm.trans (hw.eq hp hr hpr))

theorem served_separate (h : Priced old new) (hw : WellPriced new) {p : Price} (hp : p ∈ new) :
    AtMostOne (fun q => (served old p).sameScope q) new := by
  unfold served
  cases hf : partner? old p with
  | none => exact hw.separate hp
  | some o =>
    simp only
    split
    · exact @WellPriced.separate new hw p hp
    · exact h.right o ((partner?_eq_some h hp).1 hf).1

/-- The actions on the prices of a variant lead to prices that serve those of its draft. -/
theorem replay_priceActions {v : Variant} {d : VariantDraft} (h : Priced v.prices d.prices)
    (hw : WellPriced d.prices) :
    PricesServe (replay prices (priceActions v d) v.prices) d.prices := by
  have hperm :
      (replay prices (priceActions v d) v.prices).Perm (d.prices.map (served v.prices)) := by
    rw [priceActions, replay_append, replay_dropPriceActions h.identified h.distinct]
    have hnone : ∀ x ∈ ([] : List Price), ∀ p ∈ d.prices, ∀ o, partner? v.prices p = some o →
        x.id ≠ o.id := fun x hx => absurd hx List.not_mem_nil
    have hplaced := @replay_placePrices _ _ v.id h d.prices [] _ [] hw.nodup (fun _ hp => hp) hnone
      (perm_partners h hw)
    simpa using hplaced
  refine ⟨⟨d.prices.map (served v.prices), hperm.symm, ?_⟩, ?_⟩
  · rw [List.forall₂_map_left_iff, List.forall₂_same]
    exact fun p hp => served_serves h hw hp
  · intro u hu
    obtain ⟨p, hp, rfl⟩ := List.mem_map.1 (hperm.mem_iff.1 hu)
    exact served_separate h hw hp

/-- The prices of a draft serve themselves. -/
theorem WellPriced.serve (hw : WellPriced new) : PricesServe new new :=
  ⟨oneToOne_self fun _ hp => ⟨hw.self hp, rfl, rfl⟩, fun _ hp => hw.separate hp⟩

/-- Prices that serve those of the draft call for no action. -/
theorem priceActions_eq_nil {v : Variant} {d : VariantDraft} (h : PricesServe v.prices d.prices) :
    priceActions v d = [] := by
  have hdrop : v.prices.flatMap (dropPriceActions d.prices) = [] := by
    apply List.flatMap_eq_nil_iff.2
    intro o ho
    obtain ⟨p, hp, hs, -⟩ := h.pairing.left o ho
    exact if_pos (List.any_eq_true.2 ⟨p, hp, p.sameScope_comm o ▸ hs⟩)
  have hplace : d.prices.flatMap (placePriceActions v.id v.prices) = [] := by
    apply List.flatMap_eq_nil_iff.2
    intro p hp
    obtain ⟨u, hu, hus, -⟩ := h.pairing.right p hp
    obtain ⟨o, ho⟩ := Option.isSome_iff_exists.1
      (List.find?_isSome (p := fun o : Price => o.sameScope p) |>.2 ⟨u, hu, hus⟩)
    have hmem : o ∈ v.prices := List.mem_of_find?_eq_some ho
    have hos : o.sameScope p = true := @List.find?_some _ (fun o : Price => o.sameScope p) _ _ ho
    -- the first price in the scope serves some price of the draft, which can only be this one
    obtain ⟨q, hq, hoq, hvalue, hkey⟩ := h.pairing.left o hmem
    have hqp : q = p := (h.separate o hmem).eq hq hp hoq hos
    rw [hqp] at hvalue hkey
    simp [placePriceActions, ho, hvalue, hkey]
  rw [priceActions, hdrop, hplace]
  rfl

end CatalogSync.Diff
