import CatalogSync.Proofs.Filtering
import CatalogSync.Proofs.Reconciliation
import CatalogSync.Proofs.Replay
import Mathlib.Data.List.Forall2
import Mathlib.Data.List.Perm.Subperm

/- Products under a list of actions. The details see every action by itself. So do the variants as
   long as no action removes or promotes one (`Steady`): each variant that is there changes for
   itself, and an addition appends one, which sees the actions behind it. It does not matter which
   of the unused ids it gets (`Leads.grown`), and the least one is unused as long as there is room
   (`replay_steady`). Ids stay distinct on the way. -/
namespace CatalogSync.Edit

open CatalogSync.Diff (removed? added? isPublication publication variantGroups detailGroups)

/-! ### Details and flags -/

theorem variants_toProductDetails (a : ProductAction) (p : Product) :
    (variants a p).toProductDetails = p.toProductDetails := by
  unfold variants promote
  split
  · rfl
  · rfl
  · split
    · rfl
    · split <;> rfl
  · rfl

theorem product_toProductDetails (a : ProductAction) (p : Product) :
    (product a p).toProductDetails = details a p.toProductDetails := by
  cases a
  case changeMasterVariant sku =>
    exact variants_toProductDetails (.changeMasterVariant sku) p
  all_goals rfl

theorem details_of_group {a : ProductAction} (h : a.group ∉ detailGroups) (d : ProductDetails) :
    details a d = d := by
  cases a <;> first | rfl | exact absurd (by simp [ProductAction.group, detailGroups]) h

/-- The details of a product see every action. -/
theorem replay_product_toProductDetails (as : List ProductAction) (p : Product) :
    (replay product as p).toProductDetails = replay details as p.toProductDetails := by
  induction as generalizing p with
  | nil => rfl
  | cons a as ih => rw [replay_cons, ih, product_toProductDetails, replay_cons]

theorem variants_frame (a : ProductAction) (p : Product) :
    (variants a p).id = p.id ∧ (variants a p).version = p.version ∧
      (variants a p).published = p.published := by
  unfold variants promote
  split
  · exact ⟨rfl, rfl, rfl⟩
  · exact ⟨rfl, rfl, rfl⟩
  · split
    · exact ⟨rfl, rfl, rfl⟩
    · split <;> exact ⟨rfl, rfl, rfl⟩
  · exact ⟨rfl, rfl, rfl⟩

theorem product_frame (a : ProductAction) (p : Product) :
    (product a p).id = p.id ∧ (product a p).version = p.version := by
  have h : ∀ b, (variants b p).id = p.id ∧ (variants b p).version = p.version :=
    fun b => ⟨(variants_frame b p).1, (variants_frame b p).2.1⟩
  cases a <;> first | exact ⟨rfl, rfl⟩ | exact h _

theorem replay_product_frame (as : List ProductAction) (p : Product) :
    (replay product as p).id = p.id ∧ (replay product as p).version = p.version := by
  induction as generalizing p with
  | nil => exact ⟨rfl, rfl⟩
  | cons a as ih =>
    obtain ⟨hid, hversion⟩ := ih (product a p)
    exact ⟨hid.trans (product_frame a p).1, hversion.trans (product_frame a p).2⟩

/-- An action that is not the publication stages a change. -/
theorem product_flags {a : ProductAction} (h : isPublication a = false) (p : Product) :
    (product a p).published = p.published ∧ (product a p).hasStagedChanges = true := by
  have hp : ∀ b, (variants b p).published = p.published := fun b => (variants_frame b p).2.2
  cases a <;> first | cases h; done | exact ⟨hp _, rfl⟩

theorem replay_product_flags {as : List ProductAction} {p : Product}
    (h : ∀ a ∈ as, isPublication a = false) :
    (replay product as p).published = p.published ∧
      (replay product as p).hasStagedChanges = (!as.isEmpty || p.hasStagedChanges) := by
  induction as generalizing p with
  | nil => exact ⟨rfl, rfl⟩
  | cons a as ih =>
    obtain ⟨hpublished, hstaged⟩ := product_flags (h a (List.mem_cons_self ..)) p
    obtain ⟨ihp, ihs⟩ := @ih (product a p) fun b hb => h b (List.mem_cons_of_mem a hb)
    refine ⟨ihp.trans hpublished, ?_⟩
    rw [replay_cons, ihs, hstaged, Bool.or_true]
    rfl

/-- The publication leaves a product published if it is wanted so, and then nothing is staged. -/
theorem replay_publication {desired : Option Bool} {others staged : Bool} {p : Product}
    (h : p.hasStagedChanges = (others || staged)) :
    let q := replay product (publication desired p.published others staged) p
    q.published = desired.getD false ∧ (q.published = true → q.hasStagedChanges = false) := by
  unfold publication
  split
  · next hd hc => exact ⟨hc.trans hd.symm, fun ht => absurd (hc.symm.trans ht) Bool.false_ne_true⟩
  · next hd hc => exact ⟨hd.symm, fun ht => absurd ht Bool.false_ne_true⟩
  · next hd hc => exact ⟨hd.symm, fun _ => rfl⟩
  · next hd hc =>
    split
    · exact ⟨hd.symm, fun _ => rfl⟩
    · next ho => exact ⟨hc.trans hd.symm, fun _ => h.trans (Bool.eq_false_iff.2 ho)⟩

/-! ### Unused ids -/

theorem toNat_candidate {n : Nat} (h : n + 1 < UInt32.size) : (n + 1).toUInt32.toNat = n + 1 :=
  UInt32.toNat_ofNat_of_lt' h

/-- The numbers up to one more than a list is long cannot all be in the list. -/
theorem freshId_not_mem {used : List UInt32} (h : used.length + 1 < UInt32.size) :
    freshId used ∉ used := by
  let candidates := (List.range (used.length + 1)).map fun n => (n + 1).toUInt32
  have hn : candidates.Nodup := by
    refine List.Nodup.map_on ?_ List.nodup_range
    intro m hm n hn he
    rw [List.mem_range] at hm hn
    have he := congrArg UInt32.toNat he
    rw [toNat_candidate (by omega), toNat_candidate (by omega)] at he
    omega
  -- there is one candidate more than there are used ids
  have hfree : ∃ id ∈ candidates, id ∉ used := by
    by_contra hall
    push Not at hall
    have hle := (List.subperm_of_subset hn hall).length_le
    rw [List.length_map, List.length_range] at hle
    omega
  show (candidates.find? fun id => !used.contains id).getD 0 ∉ used
  cases hf : candidates.find? fun id => !used.contains id with
  | none =>
    obtain ⟨id, hid, hnot⟩ := hfree
    have hused := List.find?_eq_none.1 hf id hid
    simp [hnot] at hused
  | some id =>
    have hnot := List.find?_some hf
    simpa using hnot

/-! ### Variants under steady actions -/

/-- The action does not bear on variants at all. -/
def Idle (a : ProductAction) : Prop := a.group ∉ variantGroups

theorem variant_of_idle {a : ProductAction} (h : Idle a) (v : Variant) : variant a v = v := by
  simp only [Idle, variantGroups, List.mem_cons, not_or] at h
  rw [variant_eq, sku_of_group h.2.1, attributes_of_group h.2.2.1, images_of_group h.2.2.2.1,
    prices_of_group h.2.2.2.2.1, assets_of_group h.2.2.2.2.2.1, ite_self]

/-- The action neither removes nor promotes a variant. -/
def Steady (a : ProductAction) : Prop := removed? a = none ∧ ∀ sku, a ≠ .changeMasterVariant sku

theorem Idle.steady {a : ProductAction} (h : Idle a) : Steady a := by
  have hg : a.group ≠ .variants := fun hg => h (hg ▸ List.mem_cons_self ..)
  exact ⟨CatalogSync.Diff.removed?_eq_none hg, fun sku hs => hg (by rw [hs]; rfl)⟩

theorem variant_addVariant (c : VariantDraft) (v : Variant) : variant (.addVariant c) v = v := rfl

theorem product_steady {a : ProductAction} (h : Steady a) (p : Product) :
    (product a p).masterVariant = variant a p.masterVariant ∧
      (product a p).variants = p.variants.map (variant a) ++
        (added? a).toList.map (.ofDraft (freshId (p.allVariants.map (·.id)))) := by
  have hsame {b : ProductAction} (hb : ∀ v, variant b v = v) :
      p.variants.map (variant b) = p.variants := by
    rw [List.map_congr_left fun v _ => hb v, List.map_id']
  cases a
  case addVariant c => exact ⟨rfl, by rw [hsame (variant_addVariant c)]; rfl⟩
  case publish => exact ⟨rfl, by rw [hsame fun _ => rfl]; exact (List.append_nil _).symm⟩
  case unpublish => exact ⟨rfl, by rw [hsame fun _ => rfl]; exact (List.append_nil _).symm⟩
  case removeVariant id => cases h.1
  case changeMasterVariant sku => exact absurd rfl (h.2 sku)
  all_goals exact ⟨rfl, (List.append_nil _).symm⟩

/-- Every content that is added, with the actions behind its addition. -/
def additions : List ProductAction → List (VariantDraft × List ProductAction)
  | [] => []
  | a :: as => (added? a).toList.map (·, as) ++ additions as

theorem map_fst_additions (as : List ProductAction) :
    (additions as).map (·.1) = as.filterMap added? := by
  induction as with
  | nil => rfl
  | cons a as ih =>
    rw [additions, List.map_append, ih]
    cases h : added? a with
    | none => rw [List.filterMap_cons_none h]; rfl
    | some c => rw [List.filterMap_cons_some h]; rfl

theorem mem_of_mem_additions {as : List ProductAction} {e : VariantDraft × List ProductAction}
    (h : e ∈ additions as) : ∀ a ∈ e.2, a ∈ as := by
  induction as with
  | nil => exact absurd h List.not_mem_nil
  | cons b as ih =>
    intro a ha
    rcases List.mem_append.1 h with h | h
    · obtain ⟨c, -, rfl⟩ := List.mem_map.1 h
      exact List.mem_cons_of_mem b ha
    · exact List.mem_cons_of_mem b (ih h a ha)

/-- What steady actions make of the variants of a product. -/
structure Grown (as : List ProductAction) (p q : Product) : Prop where
  master : q.masterVariant = replay variant as p.masterVariant
  variants : ∃ extra, q.variants = p.variants.map (replay variant as) ++ extra ∧
    List.Forall₂ (fun x e => x = replay variant e.2 (.ofDraft x.id e.1)) extra (additions as)
  ids : (q.allVariants.map (·.id)).Nodup

theorem Grown.allVariants {as : List ProductAction} {p q : Product} (h : Grown as p q)
    {extra : List Variant} (he : q.variants = p.variants.map (replay variant as) ++ extra) :
    q.allVariants = p.allVariants.map (replay variant as) ++ extra := by
  unfold Product.allVariants
  rw [h.master, he]
  rfl

/-- What an action makes of a product; a variant that it adds gets some id that is not in use. -/
inductive Turns : ProductAction → Product → Product → Prop
  | add {c : VariantDraft} {p : Product} (id : UInt32)
      (unused : id ∉ p.allVariants.map (·.id)) :
      Turns (.addVariant c) p
        { p with variants := p.variants ++ [.ofDraft id c], hasStagedChanges := true }
  | other {a : ProductAction} {p : Product} (h : added? a = none) : Turns a p (product a p)

/-- Actions lead from one product to another, whichever unused ids the additions get. -/
inductive Leads : List ProductAction → Product → Product → Prop
  | nil (p : Product) : Leads [] p p
  | cons {a : ProductAction} {as : List ProductAction} {p r q : Product} (first : Turns a p r)
      (rest : Leads as r q) : Leads (a :: as) p q

theorem leads_append {as bs : List ProductAction} {p q : Product} :
    Leads (as ++ bs) p q ↔ ∃ r, Leads as p r ∧ Leads bs r q := by
  constructor
  · intro h
    induction as generalizing p with
    | nil => exact ⟨p, .nil p, h⟩
    | cons a as ih =>
      cases h with
      | cons first rest =>
        obtain ⟨r, hr, hq⟩ := ih rest
        exact ⟨r, .cons first hr, hq⟩
  · intro h
    obtain ⟨r, hr, hq⟩ := h
    induction hr with
    | nil => exact hq
    | cons first _ ih => exact .cons first (ih hq)

/-- Without additions there is one product that the actions lead to. -/
theorem Leads.eq_replay {as : List ProductAction} {p q : Product} (h : Leads as p q)
    (hadd : ∀ a ∈ as, added? a = none) : q = replay product as p := by
  induction h with
  | nil => rfl
  | cons first _ ih =>
    have ih := ih fun b hb => hadd b (List.mem_cons_of_mem _ hb)
    cases first with
    | add => cases hadd _ (List.mem_cons_self ..)
    | other => exact ih

theorem Turns.steady {a : ProductAction} {p r : Product} (h : Turns a p r) (ha : Steady a) :
    r.masterVariant = variant a p.masterVariant ∧
      ∃ id, r.variants = p.variants.map (variant a) ++ (added? a).toList.map (.ofDraft id) ∧
        ∀ c ∈ added? a, id ∉ p.allVariants.map (·.id) := by
  cases h with
  | @add c p id unused =>
    refine ⟨rfl, id, ?_, fun _ _ => unused⟩
    rw [List.map_congr_left fun v _ => variant_addVariant c v, List.map_id']
    rfl
  | other hadd =>
    obtain ⟨hm, hv⟩ := product_steady ha p
    rw [hadd] at hv ⊢
    exact ⟨hm, 0, hv, nofun⟩

theorem map_id_append {a : ProductAction} {p r : Product} {xs : List Variant}
    (hm : r.masterVariant = variant a p.masterVariant)
    (hv : r.variants = p.variants.map (variant a) ++ xs) :
    r.allVariants.map (·.id) = p.allVariants.map (·.id) ++ xs.map (·.id) := by
  rw [Product.allVariants, hm, hv, Product.allVariants, List.map_cons, List.map_cons, variant_id,
    List.map_append, List.map_map, List.cons_append]
  congr 2
  exact List.map_congr_left fun v _ => variant_id a v

/-- **Variants under steady actions.** The master and the variants that are there see all of the
    actions; what is added sees those behind it, under an id of its own. -/
theorem Leads.grown {as : List ProductAction} {p q : Product} (h : Leads as p q)
    (hs : ∀ a ∈ as, Steady a) (hn : (p.allVariants.map (·.id)).Nodup) : Grown as p q := by
  induction h with
  | nil p =>
    have hid : p.variants.map (replay variant []) = p.variants := List.map_id' _
    exact ⟨rfl, ⟨[], by rw [hid, List.append_nil], .nil⟩, hn⟩
  | @cons a as p r q first _ ih =>
    obtain ⟨hm', id, hv', hid⟩ := first.steady (hs a (List.mem_cons_self ..))
    have hids : (r.allVariants.map (·.id)).Nodup := by
      rw [map_id_append hm' hv']
      cases hadd : added? a with
      | none => simpa using hn
      | some c =>
        refine List.nodup_append.2 ⟨hn, List.nodup_singleton _, ?_⟩
        intro i hi j hj hij
        rw [hij, List.mem_singleton.1 hj] at hi
        exact hid c hadd hi
    obtain ⟨hm, ⟨extra, hv, hx⟩, hq⟩ := ih (fun b hb => hs b (List.mem_cons_of_mem a hb)) hids
    -- what the first action adds sees the other actions, and so does what was there
    refine ⟨?_, ⟨((added? a).toList.map fun c => replay variant as (.ofDraft id c)) ++ extra,
      ?_, ?_⟩, hq⟩
    · rw [hm, hm', replay_cons]
    · rw [hv, hv', List.map_append, List.map_map, List.map_map, List.append_assoc]
      rfl
    · refine List.rel_append ?_ hx
      cases added? a with
      | none => exact .nil
      | some c => exact .cons (by rw [replay_variant_id]; rfl) .nil

/-- As long as there is room, a replay is one of the ways that the actions can go. -/
theorem leads_replay {as : List ProductAction} {p : Product} (hs : ∀ a ∈ as, Steady a)
    (hr : p.allVariants.length + (as.filterMap added?).length < UInt32.size) :
    Leads as p (replay product as p) := by
  -- there is room as long as the ids of the additions still to come fit in
  induction as generalizing p with
  | nil => exact .nil p
  | cons a as ih =>
    have hcount : ((a :: as).filterMap added?).length =
        (added? a).toList.length + (as.filterMap added?).length := by
      cases hadd : added? a with
      | none => rw [List.filterMap_cons_none hadd]; simp
      | some c => rw [List.filterMap_cons_some hadd]; simp [Nat.add_comm]
    obtain ⟨hm, hv⟩ := product_steady (hs a (List.mem_cons_self ..)) p
    have hlength : (product a p).allVariants.length =
        p.allVariants.length + (added? a).toList.length := by
      have hl := congrArg List.length (map_id_append hm hv)
      simpa using hl
    have hfirst : p.allVariants.length + (added? a).toList.length < UInt32.size := by omega
    refine .cons ?_ (@ih (product a p) (fun b hb => hs b (List.mem_cons_of_mem a hb)) (by omega))
    cases hadd : added? a with
    | none => exact .other hadd
    | some c =>
      rw [hadd] at hfirst
      cases a <;> cases hadd
      exact .add _ (freshId_not_mem (by rw [List.length_map]; exact hfirst))

theorem replay_steady {as : List ProductAction} {p : Product} (h : ∀ a ∈ as, Steady a)
    (hn : (p.allVariants.map (·.id)).Nodup)
    (hr : p.allVariants.length + (as.filterMap added?).length < UInt32.size) :
    Grown as p (replay product as p) :=
  (leads_replay h hr).grown h hn

/-- Actions that are not about variants leave them as they are. -/
theorem replay_idle {as : List ProductAction} {p : Product} (h : ∀ a ∈ as, Idle a) :
    (replay product as p).masterVariant = p.masterVariant ∧
      (replay product as p).variants = p.variants := by
  induction as generalizing p with
  | nil => exact ⟨rfl, rfl⟩
  | cons a as ih =>
    have ha := h a (List.mem_cons_self ..)
    obtain ⟨hm, hv⟩ := @ih (product a p) fun b hb => h b (List.mem_cons_of_mem a hb)
    obtain ⟨hm', hv'⟩ := product_steady ha.steady p
    have hadd : added? a = none :=
      CatalogSync.Diff.added?_eq_none fun hg => ha (hg ▸ List.mem_cons_self ..)
    have hsame : p.variants.map (variant a) = p.variants := by
      rw [List.map_congr_left fun v _ => variant_of_idle ha v, List.map_id']
    constructor
    · calc (replay product (a :: as) p).masterVariant = (product a p).masterVariant := hm
        _ = variant a p.masterVariant := hm'
        _ = p.masterVariant := variant_of_idle ha _
    · calc (replay product (a :: as) p).variants = (product a p).variants := hv
        _ = p.variants.map (variant a) ++ [] := by rw [hv', hadd]; rfl
        _ = p.variants := by rw [List.append_nil, hsame]

/-! ### Removals and promotion -/

theorem replay_removeVariant (ids : List UInt32) (p : Product) :
    (replay product (ids.map .removeVariant) p).masterVariant = p.masterVariant ∧
      (replay product (ids.map .removeVariant) p).variants =
        p.variants.filter fun v => !ids.contains v.id := by
  induction ids generalizing p with
  | nil => exact ⟨rfl, (List.filter_eq_self.2 fun _ _ => rfl).symm⟩
  | cons id ids ih =>
    obtain ⟨hm, hv⟩ := ih (product (.removeVariant id) p)
    refine ⟨hm, ?_⟩
    calc (replay product ((id :: ids).map .removeVariant) p).variants
        = (p.variants.filter fun v => v.id != id).filter fun v => !ids.contains v.id := hv
      _ = p.variants.filter fun v => !(id :: ids).contains v.id := by
        rw [List.filter_filter]
        apply List.filter_congr
        intro v _
        rw [List.contains_cons, Bool.not_or, Bool.and_comm]
        rfl

/-- The one variant with a sku changes places with the master. -/
theorem promote_spec {p : Product} {sku : String} {x : Variant} {rest : List Variant}
    (hp : p.variants.Perm (x :: rest)) (hx : x.sku = some sku)
    (hm : p.masterVariant.sku ≠ some sku) (hr : ∀ v ∈ rest, v.sku ≠ some sku) :
    (promote sku p).masterVariant = x ∧
      (promote sku p).variants.Perm (p.masterVariant :: rest) := by
  have hfind : p.variants.find? (fun v => v.sku == some sku) = some x := by
    cases hf : p.variants.find? fun v => v.sku == some sku with
    | none =>
      have hnone := List.find?_eq_none.1 hf x (hp.mem_iff.2 (List.mem_cons_self ..))
      simp [hx] at hnone
    | some v =>
      have hv : v.sku = some sku := by simpa using List.find?_some hf
      rcases List.mem_cons.1 (hp.mem_iff.1 (List.mem_of_find?_eq_some hf)) with rfl | hmem
      · rfl
      · exact absurd hv (hr v hmem)
  rw [promote, if_neg hm, hfind]
  refine ⟨rfl, changeFirst_perm _ hp (beq_iff_eq.2 hx) ?_⟩
  intro v hv
  exact beq_eq_false_iff_ne.2 (hr v hv)

end CatalogSync.Edit
