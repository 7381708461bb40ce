import CatalogSync.Proofs.Prices

/- Which prices the actions on a variant are for. Removals look for a price of the draft in the scope
   of a stored one, and changes for a stored price in the scope of one of the draft; both find the
   same pairs, so no stored price is removed and changed, or changed for two prices of the draft.
   What is added is what finds no stored price at all. Main statement: `priceActions_reprice`. -/
namespace CatalogSync.Diff

open CatalogSync.Edit

/-- The id of the stored price that an action removes or changes. -/
def priceTarget? : ProductAction → Option String
  | .removePrice id => some id
  | .changePrice id _ => some id
  | _ => none

/-- The price that an action adds, with the id of the variant that gets it. -/
def addedPrice? : ProductAction → Option (UInt32 × Price)
  | .addPrice id price => some (id, price)
  | _ => none

variable {old new : List Price}

/-! ### Stored prices that are changed -/

/-- The id of the partner of a price of the draft, if the partner does not serve it yet. -/
def outdated? (old : List Price) (p : Price) : Option String :=
  (partner? old p).bind fun o => if o.value != p.value || o.key != p.key then o.id else none

theorem filterMap_target_placePriceActions (id : UInt32) (p : Price) :
    (placePriceActions id old p).filterMap priceTarget? = (outdated? old p).toList := by
  unfold placePriceActions outdated? partner?
  cases old.find? fun o => o.sameScope p with
  | none => rfl
  | some o =>
    rw [Option.bind_some]
    simp only
    split
    · cases o.id <;> rfl
    · rfl

theorem outdated?_eq_some (h : Priced old new) {p : Price} (hp : p ∈ new) {i : String}
    (hi : outdated? old p = some i) : ∃ o ∈ old, o.id = some i ∧ partner? old p = some o := by
  obtain ⟨o, ho, hi⟩ := Option.bind_eq_some_iff.1 hi
  split at hi
  · exact ⟨o, ((partner?_eq_some h hp).1 ho).1, hi, ho⟩
  · cases hi

/-- Two prices of the draft are not the reason to change one stored price. -/
theorem nodup_outdated (h : Priced old new) (hw : WellPriced new) :
    (new.filterMap (outdated? old)).Nodup := by
  refine List.pairwise_filterMap.2 (hw.nodup.imp_of_mem ?_)
  intro p q hp hq hne i hi j hj he
  obtain ⟨o, -, hoi, ho⟩ := outdated?_eq_some h hp hi
  obtain ⟨o', -, hoj, ho'⟩ := outdated?_eq_some h hq hj
  exact h.partner_ne hp hq hne ho ho' (by rw [hoi, hoj, he])

/-! ### What the actions are for -/

/-- The removed prices first, then the changed ones. -/
theorem filterMap_target_priceActions (v : Variant) (d : VariantDraft) :
    (priceActions v d).filterMap priceTarget? =
      (v.prices.filter fun o => !wantedBy d.prices o).filterMap (·.id) ++
        d.prices.filterMap (outdated? v.prices) := by
  rw [priceActions, List.filterMap_append, flatMap_dropPriceActions, List.filterMap_map,
    List.filterMap_flatMap, List.filterMap_eq_flatMap_toList (outdated? v.prices)]
  congr 1
  · exact List.filterMap_some
  · exact congrArg (List.flatMap · d.prices)
      (funext fun p => filterMap_target_placePriceActions v.id p)

theorem nodup_targets {v : Variant} {d : VariantDraft} (h : Priced v.prices d.prices)
    (hw : WellPriced d.prices) : ((priceActions v d).filterMap priceTarget?).Nodup := by
  rw [filterMap_target_priceActions]
  refine List.nodup_append.2 ⟨h.distinct.sublist (List.filter_sublist.filterMap _),
    nodup_outdated h hw, ?_⟩
  intro i hi j hj he
  obtain ⟨o, ho, hoi⟩ := List.mem_filterMap.1 hi
  obtain ⟨p, hp, hpj⟩ := List.mem_filterMap.1 hj
  obtain ⟨o', ho', hoj, hpartner⟩ := outdated?_eq_some h hp hpj
  obtain ⟨ho, hunwanted⟩ := List.mem_filter.1 ho
  -- the partner of a price of the draft is wanted by it
  have hsame : o = o' := h.eq_of_id ho ho' (by rw [hoi, hoj, he])
  have hscope := ((partner?_eq_some h hp).1 hpartner).2
  have hwanted : wantedBy d.prices o = true :=
    List.any_eq_true.2 ⟨p, hp, by rw [hsame, p.sameScope_comm, hscope]⟩
  rw [hwanted] at hunwanted
  cases hunwanted

theorem target_stored {v : Variant} {d : VariantDraft} (h : Priced v.prices d.prices) {i : String}
    (hi : i ∈ (priceActions v d).filterMap priceTarget?) : i ∈ v.prices.filterMap (·.id) := by
  rw [filterMap_target_priceActions] at hi
  rcases List.mem_append.1 hi with hi | hi
  · exact (List.filter_sublist.filterMap _).subset hi
  · obtain ⟨p, hp, hpi⟩ := List.mem_filterMap.1 hi
    obtain ⟨o, ho, hoi, -⟩ := outdated?_eq_some h hp hpi
    exact List.mem_filterMap.2 ⟨o, ho, hoi⟩

/-- A price of the draft is added, once, if no stored price has its scope. -/
theorem filterMap_added_priceActions (v : Variant) (d : VariantDraft) :
    (priceActions v d).filterMap addedPrice? =
      (d.prices.filter fun p => !v.prices.any fun o => o.sameScope p).map (v.id, ·) := by
  have hdrops : (v.prices.flatMap (dropPriceActions d.prices)).filterMap addedPrice? = [] := by
    rw [flatMap_dropPriceActions, List.filterMap_map]
    exact List.filterMap_eq_nil_iff.2 fun _ _ => rfl
  have hplace (p : Price) : (placePriceActions v.id v.prices p).filterMap addedPrice? =
      if v.prices.any fun o => o.sameScope p then [] else [(v.id, p)] := by
    unfold placePriceActions
    rw [← List.isSome_find?]
    cases v.prices.find? fun o => o.sameScope p with
    | none => rfl
    | some o =>
      simp only [Option.isSome_some, if_true]
      split
      · cases o.id <;> rfl
      · rfl
  rw [priceActions, List.filterMap_append, hdrops, List.nil_append, List.filterMap_flatMap]
  induction d.prices with
  | nil => rfl
  | cons p ps ih =>
    rw [List.flatMap_cons, ih, hplace, List.filter_cons]
    cases v.prices.any fun o => o.sameScope p <;> rfl

/-! ### All actions on prices -/

/-- What the actions of a plan do to the prices `old` of the variant with an id, if the draft wants
    `new`. -/
structure Reprices (id : UInt32) (old new : List Price) (actions : List ProductAction) : Prop where
  /-- In the end stored and wanted prices correspond one to one, and each stored price has the
      scope, the value and the key that its partner wants. -/
  serve : OneToOne Serves (replay prices actions old) new
  /-- Only stored prices are removed or changed, and none of them twice. -/
  targets : (∀ i ∈ actions.filterMap priceTarget?, i ∈ old.filterMap (·.id)) ∧
    (actions.filterMap priceTarget?).Nodup
  /-- The variant gets the prices in the scope of which nothing is stored, and no others. -/
  added : actions.filterMap addedPrice? =
    (new.filter fun p => !old.any fun o => o.sameScope p).map (id, ·)
  /-- There are no actions just if stored and wanted prices correspond already. -/
  nil_iff : actions = [] ↔ OneToOne Serves old new

/-- The actions on the prices of a variant bring them to what the draft wants, if they can be told
    apart: by id where they are stored, and by scope in the draft and between the two. -/
theorem priceActions_reprice {v : Variant} {d : VariantDraft} (h : Priced v.prices d.prices)
    (hw : WellPriced d.prices) : Reprices v.id v.prices d.prices (priceActions v d) where
  serve := (replay_priceActions h hw).pairing
  targets := ⟨fun _ => target_stored h, nodup_targets h hw⟩
  added := filterMap_added_priceActions v d
  nil_iff := by
    constructor
    · intro hnil
      have hserve := (replay_priceActions h hw).pairing
      rwa [hnil, replay_nil] at hserve
    · exact fun hpair => priceActions_eq_nil ⟨hpair, h.right⟩

/-- A price for one channel, and two for all channels, in two currencies. -/
def pricedVariant : Variant :=
  .ofDraft 7 { VariantDraft.empty with
    prices := [
      ((Price.of ⟨100, "EUR"⟩).withChannel (.ofIdAndKey "c" "berlin")).withId "1",
      (Price.of ⟨90, "EUR"⟩).withId "2",
      (Price.of ⟨80, "USD"⟩).withId "3"] }

/-- The channel is referred to by key alone, one currency is gone and another is new. The first price
    has an id, by accident that of another stored price. -/
def repricedDraft : VariantDraft :=
  { VariantDraft.empty with
    prices := [
      ((Price.of ⟨120, "EUR"⟩).withChannel (.ofKey "berlin")).withId "2",
      Price.of ⟨70, "GBP"⟩,
      { Price.of ⟨90, "EUR"⟩ with key := some "k" }] }

theorem priceActions_reprice_mixed :
    Priced pricedVariant.prices repricedDraft.prices ∧ WellPriced repricedDraft.prices ∧
    Reprices 7 pricedVariant.prices repricedDraft.prices
      (priceActions pricedVariant repricedDraft) := by
  have h : Priced pricedVariant.prices repricedDraft.prices :=
    { identified := by decide
      distinct := by decide
      left := by decide
      right := by decide }
  exact ⟨h, by decide, priceActions_reprice (v := pricedVariant) (d := repricedDraft) h (by decide)⟩

/-- Stored prices keep their ids. -/
example : (replay prices (priceActions pricedVariant repricedDraft) pricedVariant.prices).map
    (fun p => (p.id, p.value.centAmount)) = [(some "1", 120), (some "2", 90), (none, 70)] := by
  decide

end CatalogSync.Diff
