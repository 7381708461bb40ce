import CatalogSync.Edit.Product
import CatalogSync.Proofs.Grouping
import CatalogSync.Proofs.Pairing

/- Replaying actions. What an action does to one part of a product depends on its group and on the
   variant it names, so a part sees of a list only the actions that are its own (`own`). A list is
   cut down to those before anything is said of the part (`replay_filter`). What holds between each
   action and the state that it meets holds `Along` the replay. -/
namespace CatalogSync.Edit

open CatalogSync.Diff (whenChanged)

variable {α β : Type}

/-- Actions that leave everything alike that an invariant holds of can be left out. -/
theorem replay_filter {apply : β → α → α} {p : β → Bool} {I : α → Prop} {bs : List β} {a : α}
    (keep : ∀ b ∈ bs, p b = true → ∀ a, I a → I (apply b a))
    (skip : ∀ b ∈ bs, p b = false → ∀ a, I a → apply b a = a) (ha : I a) :
    replay apply bs a = replay apply (bs.filter p) a := by
  -- the invariant holds wherever an action is left out
  induction bs generalizing a with
  | nil => rfl
  | cons b bs ih =>
    have keep' : ∀ c ∈ bs, p c = true → ∀ a, I a → I (apply c a) :=
      fun c hc => keep c (List.mem_cons_of_mem b hc)
    have skip' : ∀ c ∈ bs, p c = false → ∀ a, I a → apply c a = a :=
      fun c hc => skip c (List.mem_cons_of_mem b hc)
    cases hb : p b with
    | false =>
      rw [List.filter_cons_of_neg (by simp [hb]), replay_cons,
        skip b (List.mem_cons_self ..) hb a ha]
      exact ih keep' skip' ha
    | true =>
      rw [List.filter_cons_of_pos hb, replay_cons, replay_cons]
      exact ih keep' skip' (keep b (List.mem_cons_self ..) hb a ha)

theorem replay_of_idle {apply : β → α → α} {bs : List β} {a : α}
    (idle : ∀ b ∈ bs, apply b a = a) : replay apply bs a = a := by
  induction bs with
  | nil => rfl
  | cons b bs ih =>
    rw [replay_cons, idle b (List.mem_cons_self ..)]
    exact ih fun c hc => idle c (List.mem_cons_of_mem b hc)

theorem replay_map {γ : Type} {apply : β → α → α} (f : γ → β) (cs : List γ) (a : α) :
    replay apply (cs.map f) a = replay (fun c => apply (f c)) cs a := by
  rw [replay, List.foldl_map]
  rfl

/-- The action of a field that may have changed can be taken to be there always, if it would do
    nothing to an unchanged field. -/
theorem replay_whenChanged {γ : Type} [BEq γ] [LawfulBEq γ] {apply : β → α → α} {old new : γ}
    {b : β} {a : α} (same : old = new → apply b a = a) :
    replay apply (whenChanged old new b) a = apply b a := by
  unfold whenChanged
  cases h : old == new with
  | true => exact (same (eq_of_beq h)).symm
  | false => rfl

/-- A part of the state that actions overwrite or leave alone: if everything written to it is good,
    and it is good from the start or written at all, then it is good in the end. -/
theorem replay_written {γ : Type} {apply : β → α → α} {look : α → γ} {written? : β → Option γ}
    (step : ∀ b a, look (apply b a) = (written? b).getD (look a)) {P : γ → Prop} {bs : List β}
    {a : α} (hw : ∀ b ∈ bs, ∀ x, written? b = some x → P x)
    (ha : P (look a) ∨ ∃ b ∈ bs, (written? b).isSome = true) : P (look (replay apply bs a)) := by
  induction bs generalizing a with
  | nil =>
    rcases ha with h | ⟨b, hb, -⟩
    · exact h
    · cases hb
  | cons b bs ih =>
    have hrest : ∀ c ∈ bs, ∀ x, written? c = some x → P x :=
      fun c hc => hw c (List.mem_cons_of_mem b hc)
    rw [replay_cons]
    refine ih hrest ?_
    rw [step]
    -- what the first action writes is good, or the reason is still to come
    cases hx : written? b with
    | some x => exact Or.inl (hw b (List.mem_cons_self ..) x hx)
    | none =>
      rcases ha with h | ⟨c, hc, hs⟩
      · exact Or.inl h
      · rcases List.mem_cons.1 hc with rfl | hc
        · rw [hx] at hs
          cases hs
        · exact Or.inr ⟨c, hc, hs⟩

/-! ### Along a replay -/

/-- A relation holds between every action of a list and the state in which a replay applies it. -/
def Along (apply : β → α → α) (P : β → α → Prop) : List β → α → Prop
  | [], _ => True
  | b :: bs, a => P b a ∧ Along apply P bs (apply b a)

theorem along_append {apply : β → α → α} {P : β → α → Prop} (bs cs : List β) (a : α) :
    Along apply P (bs ++ cs) a ↔ Along apply P bs a ∧ Along apply P cs (replay apply bs a) := by
  induction bs generalizing a with
  | nil => exact Iff.of_eq (true_and _).symm
  | cons b bs ih =>
    rw [List.cons_append, Along, Along, ih, replay_cons, and_assoc]

theorem along_of_forall {apply : β → α → α} {P : β → α → Prop} {bs : List β}
    (h : ∀ b ∈ bs, ∀ a, P b a) (a : α) : Along apply P bs a := by
  induction bs generalizing a with
  | nil => trivial
  | cons b bs ih =>
    exact ⟨h b (List.mem_cons_self ..) a, ih (fun c hc => h c (List.mem_cons_of_mem b hc)) _⟩

/-- A part of the state on which every action of a list acts by itself. -/
theorem replay_view {γ : Type} {apply : β → α → α} (act : β → γ → γ) {f : α → γ} {bs : List β}
    (h : ∀ b ∈ bs, ∀ a, f (apply b a) = act b (f a)) (a : α) :
    f (replay apply bs a) = replay act bs (f a) := by
  induction bs generalizing a with
  | nil => rfl
  | cons b bs ih =>
    rw [replay_cons, replay_cons, ih fun c hc => h c (List.mem_cons_of_mem b hc),
      h b (List.mem_cons_self ..)]

/-- A part of the state that no action of a list changes. -/
theorem replay_kept {γ : Type} {apply : β → α → α} {f : α → γ} {bs : List β}
    (h : ∀ b ∈ bs, ∀ a, f (apply b a) = f a) (a : α) : f (replay apply bs a) = f a :=
  (replay_view (fun _ c => c) h a).trans (replay_of_idle fun _ _ => rfl)

theorem along_view {γ : Type} {apply : β → α → α} {act : β → γ → γ} {f : α → γ}
    {P : β → α → Prop} {Q : β → γ → Prop} {bs : List β}
    (h : ∀ b ∈ bs, ∀ a, f (apply b a) = act b (f a)) (hP : ∀ b a, P b a → Q b (f a)) {a : α}
    (ha : Along apply P bs a) : Along act Q bs (f a) := by
  induction bs generalizing a with
  | nil => trivial
  | cons b bs ih =>
    refine ⟨hP b a ha.1, ?_⟩
    rw [← h b (List.mem_cons_self ..)]
    exact ih (fun c hc => h c (List.mem_cons_of_mem b hc)) ha.2

/-! ### One variant -/

/-- The action is for the variant with an id, by name or because it is for every variant. -/
def addresses (id : UInt32) (a : ProductAction) : Bool := (target? a).all (· == id)

/-- The actions of a group that are for the variant with an id. -/
def own (id : UInt32) (g : ActionGroup) (actions : List ProductAction) : List ProductAction :=
  actions.filter fun a => addresses id a && a.group == g

theorem sku_of_group {a : ProductAction} (h : a.group ≠ .sku) (s : Option String) :
    sku a s = s := by
  cases a <;> first | rfl | exact absurd rfl h

theorem attributes_of_group {a : ProductAction} (h : a.group ≠ .attributes)
    (m : SortedMap String Json) : attributes a m = m := by
  cases a <;> first | rfl | exact absurd rfl h

theorem images_of_group {a : ProductAction} (h : a.group ≠ .images) (xs : List Image) :
    images a xs = xs := by
  cases a <;> first | rfl | exact absurd rfl h

theorem prices_of_group {a : ProductAction} (h : a.group ≠ .prices) (xs : List Price) :
    prices a xs = xs := by
  cases a <;> first | rfl | exact absurd rfl h

theorem assets_of_group {a : ProductAction} (h : a.group ≠ .assets) (xs : List Asset) :
    assets a xs = xs := by
  cases a <;> first | rfl | exact absurd rfl h

@[simp] theorem variant_id (a : ProductAction) (v : Variant) : (variant a v).id = v.id := by
  unfold variant
  split <;> rfl

@[simp] theorem variant_key (a : ProductAction) (v : Variant) : (variant a v).key = v.key := by
  unfold variant
  split <;> rfl

@[simp] theorem replay_variant_id (as : List ProductAction) (v : Variant) :
    (replay variant as v).id = v.id := by
  induction as generalizing v with
  | nil => rfl
  | cons a as ih => rw [replay_cons, ih, variant_id]

@[simp] theorem replay_variant_key (as : List ProductAction) (v : Variant) :
    (replay variant as v).key = v.key := by
  induction as generalizing v with
  | nil => rfl
  | cons a as ih => rw [replay_cons, ih, variant_key]

/-- A part of a variant sees the actions of its group that are for the variant. -/
theorem replay_part {γ : Type} {f : Variant → γ} {apply : ProductAction → γ → γ} {g : ActionGroup}
    (step : ∀ a v, f (variant a v) = if addresses v.id a then apply a (f v) else f v)
    (idle : ∀ a, a.group ≠ g → ∀ x, apply a x = x) (as : List ProductAction) (v : Variant) :
    f (replay variant as v) = replay apply (own v.id g as) (f v) := by
  induction as generalizing v with
  | nil => rfl
  | cons a as ih =>
    rw [replay_cons, ih, variant_id, step]
    unfold own
    -- an action for another variant is not its own, and one of another group is idle
    cases ha : addresses v.id a with
    | false => rw [List.filter_cons_of_neg (by simp [ha])]; rfl
    | true =>
      by_cases hg : a.group = g
      · rw [List.filter_cons_of_pos (by simp [ha, hg]), replay_cons]
        rfl
      · rw [List.filter_cons_of_neg (by simp [hg]), idle a hg]
        simp

theorem variant_eq (a : ProductAction) (v : Variant) :
    variant a v =
      if addresses v.id a then
        { v with
          sku := sku a v.sku
          attributes := attributes a v.attributes
          images := images a v.images
          prices := prices a v.prices
          assets := assets a v.assets }
      else v := rfl

theorem replay_variant_sku (as : List ProductAction) (v : Variant) :
    (replay variant as v).sku = replay sku (own v.id .sku as) v.sku := by
  refine replay_part (f := fun v => v.sku) ?_ (fun a h => sku_of_group h) as v
  intro a v
  rw [variant_eq]
  split <;> rfl

theorem replay_variant_attributes (as : List ProductAction) (v : Variant) :
    (replay variant as v).attributes =
      replay attributes (own v.id .attributes as) v.attributes := by
  refine replay_part (f := fun v => v.attributes) ?_ (fun a h => attributes_of_group h) as v
  intro a v
  rw [variant_eq]
  split <;> rfl

theorem replay_variant_images (as : List ProductAction) (v : Variant) :
    (replay variant as v).images = replay images (own v.id .images as) v.images := by
  refine replay_part (f := fun v => v.images) ?_ (fun a h => images_of_group h) as v
  intro a v
  rw [variant_eq]
  split <;> rfl

theorem replay_variant_prices (as : List ProductAction) (v : Variant) :
    (replay variant as v).prices = replay prices (own v.id .prices as) v.prices := by
  refine replay_part (f := fun v => v.prices) ?_ (fun a h => prices_of_group h) as v
  intro a v
  rw [variant_eq]
  split <;> rfl

theorem replay_variant_assets (as : List ProductAction) (v : Variant) :
    (replay variant as v).assets = replay assets (own v.id .assets as) v.assets := by
  refine replay_part (f := fun v => v.assets) ?_ (fun a h => assets_of_group h) as v
  intro a v
  rw [variant_eq]
  split <;> rfl

end CatalogSync.Edit
