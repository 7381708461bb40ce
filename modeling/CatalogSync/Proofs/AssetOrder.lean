import CatalogSync.Proofs.Assets
import Mathlib.Data.List.Perm.Subperm

/- The order of assets. Assets without a key are beside the point: they take no part in what the
   actions do to the others, and keep their own order. Additions never change the order of the keys
   that both sides have (`filter_placeAssets`), and if it is that of the draft, they fall into place
   between them (`placeAssets_order`), so it decides alone whether all assets are reordered at the
   end. Main statement: `assetActions_align`. -/
namespace CatalogSync.Diff

open CatalogSync.Edit

/-! ### Assets with and without a key -/

/-- The assets that have no key. -/
def loose (xs : List Asset) : List Asset := xs.filter fun a => a.key.isNone

theorem loose_cons (x : Asset) (xs : List Asset) :
    loose (x :: xs) = if x.key.isSome then loose xs else x :: loose xs := by
  unfold loose
  rw [List.filter_cons]
  cases x.key <;> rfl

/-- An edit of lists that the assets without a key take no part in. -/
def PassesLoose (edit : List Asset → List Asset) : Prop :=
  ∀ xs, keyed (edit xs) = edit (keyed xs) ∧ loose (edit xs) = loose xs

theorem passesLoose_eraseP (key : String) :
    PassesLoose fun xs => xs.eraseP fun a => a.key == some key := by
  intro xs
  induction xs with
  | nil => exact ⟨rfl, rfl⟩
  | cons x xs ih =>
    cases hk : x.key with
    | none => simpa [keyed_cons, loose_cons, hk] using ih
    | some k =>
      by_cases hx : k = key
      · simp [keyed_cons, loose_cons, hk, hx]
      · simpa [List.eraseP_cons, keyed_cons, loose_cons, hk, hx] using ih

theorem passesLoose_changeFirst (key : String) {f : Asset → Asset} (hf : ∀ x, (f x).key = x.key) :
    PassesLoose (changeFirst (fun a => a.key == some key) f) := by
  intro xs
  induction xs with
  | nil => exact ⟨rfl, rfl⟩
  | cons x xs ih =>
    cases hk : x.key with
    | none => simpa [changeFirst, keyed_cons, loose_cons, hk] using ih
    | some k =>
      by_cases hx : k = key
      · simp [changeFirst, keyed_cons, loose_cons, hk, hf, hx]
      · simpa [changeFirst, keyed_cons, loose_cons, hk, hx] using ih

theorem insertKeyed_zero (asset : Asset) (xs : List Asset) :
    insertKeyed 0 asset xs = asset :: xs := by
  cases xs <;> rfl

theorem passesLoose_insertKeyed {asset : Asset} {key : String} (ha : asset.key = some key)
    (n : Nat) : PassesLoose (insertKeyed n asset) := by
  intro xs
  induction xs generalizing n with
  | nil => simp [insertKeyed, keyed, loose, ha]
  | cons x xs ih =>
    cases n with
    | zero => simp [insertKeyed_zero, keyed_cons, loose_cons, ha]
    | succ n =>
      cases hk : x.key with
      | none => simpa [insertKeyed, keyed_cons, loose_cons, hk] using ih (n + 1)
      | some k => simpa [insertKeyed, keyed_cons, loose_cons, hk] using ih n

theorem passesLoose_fillKeyed : ∀ {as : List Asset}, (∀ a ∈ as, a.key.isSome = true) →
    PassesLoose (fillKeyed as)
  | _, _, [] => by simp [fillKeyed, keyed, loose]
  | [], _, x :: xs => by cases h : keyed (x :: xs) <;> simp [fillKeyed, h]
  | a :: as, ha, x :: xs => by
    cases hk : x.key with
    | none => simpa [fillKeyed, keyed_cons, loose_cons, hk] using passesLoose_fillKeyed ha xs
    | some k =>
      have hrest := passesLoose_fillKeyed (fun b hb => ha b (List.mem_cons_of_mem a hb)) xs
      simpa [fillKeyed, keyed_cons, loose_cons, hk, ha a (List.mem_cons_self ..)] using hrest

theorem passesLoose_orderKeyed (order : List String) : PassesLoose (orderKeyed order) := by
  intro xs
  let arranged := (order.filterMap fun k => (keyed xs).find? fun a => a.key == some k) ++
    (keyed xs).filter fun a => !a.key.any order.contains
  have hall : ∀ a ∈ arranged, a.key.isSome = true := by
    have hkeyed : ∀ a ∈ keyed xs, a.key.isSome = true := fun a ha => (List.mem_filter.1 ha).2
    intro a ha
    rcases List.mem_append.1 ha with h | h
    · obtain ⟨k, -, hf⟩ := List.mem_filterMap.1 h
      exact hkeyed a (List.mem_of_find?_eq_some hf)
    · exact hkeyed a (List.mem_filter.1 h).1
  have hsame : orderKeyed order (keyed xs) = fillKeyed arranged (keyed xs) := by
    show fillKeyed ((order.filterMap fun k => (keyed (keyed xs)).find? fun a => a.key == some k) ++
      (keyed (keyed xs)).filter fun a => !a.key.any order.contains) (keyed xs) = _
    rw [keyed_keyed]
  rw [hsame]
  exact passesLoose_fillKeyed hall xs

/-- An action that carries an asset carries one with a key. -/
def CarriesKey : ProductAction → Prop
  | .addAsset _ asset _ => ∃ key, asset.key = some key
  | _ => True

theorem passesLoose_assets {a : ProductAction} (h : CarriesKey a) : PassesLoose (assets a) := by
  cases a with
  | removeAsset _ key => exact passesLoose_eraseP key
  | changeAssetName _ key name => exact passesLoose_changeFirst key fun _ => rfl
  | setAssetSources _ key sources => exact passesLoose_changeFirst key fun _ => rfl
  | addAsset _ asset n =>
    obtain ⟨key, hk⟩ := h
    exact passesLoose_insertKeyed hk n
  | changeAssetOrder _ order => exact passesLoose_orderKeyed order
  | _ => exact fun _ => ⟨rfl, rfl⟩

theorem keyed_replay {actions : List ProductAction} (h : ∀ a ∈ actions, CarriesKey a)
    (xs : List Asset) : keyed (replay assets actions xs) = replay assets actions (keyed xs) :=
  replay_view assets (fun a ha xs => (passesLoose_assets (h a ha) xs).1) xs

theorem loose_replay {actions : List ProductAction} (h : ∀ a ∈ actions, CarriesKey a)
    (xs : List Asset) : loose (replay assets actions xs) = loose xs :=
  replay_kept (fun a ha xs => (passesLoose_assets (h a ha) xs).2) xs

/-! ### Positions -/

theorem contains_assetKeys (xs : List Asset) (k : String) :
    (assetKeys xs).contains k = (xs.find? fun a => a.key == some k).isSome := by
  rw [Bool.eq_iff_iff, List.contains_iff_mem, List.find?_isSome, mem_assetKeys]
  simp only [beq_iff_eq]

/-- An addition is at a position among the assets with a key, or right behind them. -/
def Fits : ProductAction → List Asset → Prop
  | .addAsset _ _ n, xs => n ≤ (keyed xs).length
  | _, _ => True

theorem fits_keyed (a : ProductAction) (xs : List Asset) (h : Fits a xs) : Fits a (keyed xs) := by
  unfold Fits at h ⊢
  split
  · rw [keyed_keyed]
    exact h
  · trivial

theorem length_keyed_changeFirst {p : Asset → Bool} {f : Asset → Asset}
    (hf : ∀ x, (f x).key = x.key) (xs : List Asset) :
    (keyed (changeFirst p f xs)).length = (keyed xs).length := by
  have hkeys (ys : List Asset) : assetKeys ys = (ys.map (·.key)).filterMap id := by
    rw [List.filterMap_map]
    rfl
  rw [length_keyed, length_keyed, hkeys, hkeys, map_changeFirst hf]

theorem length_keyed_changeAssetActions {id : UInt32} {key : String} {old new : Asset}
    (xs : List Asset) :
    (keyed (replay assets (changeAssetActions id key old new) xs)).length = (keyed xs).length := by
  have hstep : ∀ a ∈ changeAssetActions id key old new, ∀ xs,
      (keyed (assets a xs)).length = (keyed xs).length := by
    intro a ha xs
    rcases changeAssetActions_mem ha with rfl | rfl
    · exact length_keyed_changeFirst (f := fun x => { x with name := new.name }) (fun _ => rfl) xs
    · exact length_keyed_changeFirst (f := fun x => { x with sources := new.sources })
        (fun _ => rfl) xs
  exact replay_kept (f := fun xs => (keyed xs).length) hstep xs

theorem length_keyed_addAsset {id : UInt32} {asset : Asset} {key : String}
    (h : asset.key = some key) (n : Nat) (xs : List Asset) :
    (keyed (assets (.addAsset id asset n) xs)).length = (keyed xs).length + 1 := by
  rw [length_keyed, length_keyed]
  show (assetKeys (insertKeyed n asset xs)).length = _
  rw [assetKeys_insertKeyed h, length_insertAt]

/-- An asset of the draft has a place as long as there are as many keyed assets as are placed or
    known already. -/
theorem fits_placeAssets {id : UInt32} {old : List Asset} :
    ∀ {rest : List (String × Asset)} {position : Nat} {current : List String} {xs : List Asset},
      (∀ p ∈ rest, p.2.key = some p.1) →
      position + (rest.map (·.1)).countP (assetKeys old).contains ≤ (keyed xs).length →
      Along assets Fits (placeAssets id old position current rest).1 xs
  | [], _, _, _, _, _ => trivial
  | (key, asset) :: rest, position, current, xs, hr, hl => by
    -- where the position goes up, either one known key less is to come or one asset is there more
    have hk : asset.key = some key := hr _ (List.mem_cons_self ..)
    have hrest : ∀ p ∈ rest, p.2.key = some p.1 := fun p hp => hr p (List.mem_cons_of_mem _ hp)
    rw [List.map_cons] at hl
    rw [placeAssets]
    cases hf : old.find? fun a => a.key == some key with
    | some e =>
      have hold : (assetKeys old).contains key = true := by rw [contains_assetKeys, hf]; rfl
      rw [List.countP_cons_of_pos hold] at hl
      have hchanges : ∀ a ∈ changeAssetActions id key e asset, ∀ ys, Fits a ys := by
        intro a ha ys
        rcases changeAssetActions_mem ha with rfl | rfl
        · trivial
        · trivial
      refine (along_append ..).2 ⟨along_of_forall hchanges xs, fits_placeAssets hrest ?_⟩
      rw [length_keyed_changeAssetActions]
      omega
    | none =>
      have hnew : ¬(assetKeys old).contains key = true := by
        rw [contains_assetKeys, hf]
        exact Bool.false_ne_true
      rw [List.countP_cons_of_neg hnew] at hl
      have hposition : position ≤ (keyed xs).length := by omega
      refine ⟨hposition, fits_placeAssets hrest ?_⟩
      rw [length_keyed_addAsset hk]
      omega

/-! ### The order of the keys -/

/-- What does not pass a test is not seen behind it. -/
theorem filter_insertIdx {α : Type} {p : α → Bool} {a : α} (ha : p a = false) :
    ∀ (n : Nat) (xs : List α), (xs.insertIdx n a).filter p = xs.filter p
  | 0, xs => List.filter_cons_of_neg (by simp [ha])
  | _ + 1, [] => rfl
  | n + 1, x :: xs => by
    rw [List.insertIdx_succ_cons, List.filter_cons, List.filter_cons, filter_insertIdx ha n xs]

/-- The keys of stored assets keep their order. -/
theorem filter_placeAssets (id : UInt32) (old : List Asset) :
    ∀ (rest : List (String × Asset)) (position : Nat) (current : List String),
      (placeAssets id old position current rest).2.filter (assetKeys old).contains =
        current.filter (assetKeys old).contains
  | [], _, _ => rfl
  | (key, asset) :: rest, position, current => by
    rw [placeAssets]
    cases hf : old.find? fun a => a.key == some key with
    | some e => exact filter_placeAssets id old rest (position + 1) current
    | none =>
      have hnew : (assetKeys old).contains key = false := by rw [contains_assetKeys, hf]; rfl
      exact (filter_placeAssets id old rest (position + 1) _).trans
        (filter_insertIdx hnew _ current)

/-- If the keys that are not in place yet come in the order of the draft, every key does after
    the additions. -/
theorem placeAssets_order (id : UInt32) (old : List Asset) :
    ∀ (rest : List (String × Asset)) (done : List String),
      (placeAssets id old done.length
        (done ++ (rest.map (·.1)).filter (assetKeys old).contains) rest).2 =
          done ++ rest.map (·.1)
  | [], done => rfl
  | (key, asset) :: rest, done => by
    -- the key is in place next, whether it stood first among the others or is inserted before them
    have hnext := placeAssets_order id old rest (done ++ [key])
    simp only [List.length_append, List.length_singleton, List.append_assoc,
      List.singleton_append] at hnext
    rw [placeAssets, List.map_cons]
    cases hf : old.find? fun a => a.key == some key with
    | some e =>
      have hold : (assetKeys old).contains key = true := by rw [contains_assetKeys, hf]; rfl
      rw [List.filter_cons_of_pos hold]
      exact hnext
    | none =>
      have hnew : ¬(assetKeys old).contains key = true := by
        rw [contains_assetKeys, hf]
        exact Bool.false_ne_true
      rw [List.filter_cons_of_neg hnew, List.length_append,
        Nat.min_eq_left (Nat.le_add_right ..), insertIdx_append]
      exact hnext

/-- The keys that both sides have come in the same order. -/
def SameOrder (old new : List Asset) : Prop :=
  (assetKeys old).filter (assetKeys new).contains = (assetKeys new).filter (assetKeys old).contains

instance (old new : List Asset) : Decidable (SameOrder old new) :=
  inferInstanceAs (Decidable (_ = _))

/-- The changes and additions, and the order of the keys after them. -/
def placement (v : Variant) (d : VariantDraft) : List ProductAction × List String :=
  placeAssets v.id v.assets 0 ((assetKeys v.assets).filter (assetKeys d.assets).contains)
    (keyedAssets d.assets)

/-- The order of the keys comes out right just if no asset of the old list has to move. -/
theorem placement_order (v : Variant) (d : VariantDraft) :
    (placement v d).2 = assetKeys d.assets ↔ SameOrder v.assets d.assets := by
  unfold placement
  constructor
  · intro h
    have hkept := filter_placeAssets v.id v.assets (keyedAssets d.assets) 0
      ((assetKeys v.assets).filter (assetKeys d.assets).contains)
    rw [h] at hkept
    rw [SameOrder, hkept]
    refine (List.filter_eq_self.2 ?_).symm
    intro k hk
    exact List.contains_iff_mem.2 (List.mem_filter.1 hk).1
  · intro h
    have horder := placeAssets_order v.id v.assets (keyedAssets d.assets) []
    rw [map_fst_keyedAssets, ← h] at horder
    exact horder

/-! ### All actions on assets -/

/-- The removals. -/
def dropActions (v : Variant) (d : VariantDraft) : List ProductAction :=
  ((assetKeys v.assets).filter fun k => !(assetKeys d.assets).contains k).map (.removeAsset v.id)

theorem assetActions_eq (v : Variant) (d : VariantDraft) :
    assetActions v d =
      dropActions v d ++ (placement v d).1 ++
        if SameOrder v.assets d.assets then []
        else [.changeAssetOrder v.id (assetKeys d.assets)] := by
  unfold assetActions
  simp only [map_fst_keyedAssets, ← placement_order v d]
  rfl

/-- What an action has to do with the assets of a variant and of its draft: it is about keys, and
    those that it adds or changes are wanted. -/
def Concerns (old new : List Asset) : ProductAction → Prop
  | .removeAsset _ key => key ∈ assetKeys old ∧ key ∉ assetKeys new
  | .changeAssetName _ key name => key ∈ assetKeys old ∧ ∃ a ∈ new, a.key = some key ∧ a.name = name
  | .setAssetSources _ key sources =>
    key ∈ assetKeys old ∧ ∃ a ∈ new, a.key = some key ∧ a.sources = sources
  | .addAsset _ asset _ => asset ∈ new ∧ ∃ key, asset.key = some key ∧ key ∉ assetKeys old
  | .changeAssetOrder _ order => order = assetKeys new
  | _ => False

theorem concerns_placement {v : Variant} {d : VariantDraft} {a : ProductAction}
    (h : a ∈ (placement v d).1) : Concerns v.assets d.assets a := by
  obtain ⟨p, hp, hcase⟩ := placeAssets_mem h
  obtain ⟨hmem, hk⟩ := mem_keyedAssets.1 hp
  have hold := contains_assetKeys v.assets p.1
  rcases hcase with ⟨e, he, rfl | rfl⟩ | ⟨hnone, n, rfl⟩
  · rw [he] at hold
    exact ⟨List.contains_iff_mem.1 hold, p.2, hmem, hk, rfl⟩
  · rw [he] at hold
    exact ⟨List.contains_iff_mem.1 hold, p.2, hmem, hk, rfl⟩
  · rw [hnone] at hold
    refine ⟨hmem, p.1, hk, fun hin => ?_⟩
    rw [List.contains_iff_mem.2 hin] at hold
    cases hold

theorem concerns_assetActions {v : Variant} {d : VariantDraft} {a : ProductAction}
    (h : a ∈ assetActions v d) : Concerns v.assets d.assets a := by
  rw [assetActions_eq] at h
  rcases List.mem_append.1 h with h | h
  · rcases List.mem_append.1 h with h | h
    · obtain ⟨k, hk, rfl⟩ := List.mem_map.1 h
      obtain ⟨hold, hnew⟩ := List.mem_filter.1 hk
      exact ⟨hold, by simpa using hnew⟩
    · exact concerns_placement h
  · split at h
    · cases h
    · rw [List.mem_singleton.1 h]
      rfl

theorem Concerns.keyed {old new : List Asset} {a : ProductAction} (h : Concerns old new a) :
    CarriesKey a := by
  cases a with
  | addAsset =>
    obtain ⟨-, key, hk, -⟩ := h
    exact ⟨key, hk⟩
  | _ => trivial

/-- Before the last action nothing is reordered. -/
theorem no_changeAssetOrder {v : Variant} {d : VariantDraft} {i : UInt32} {order : List String} :
    .changeAssetOrder i order ∉ dropActions v d ++ (placement v d).1 := by
  intro h
  rcases List.mem_append.1 h with h | h
  · obtain ⟨k, -, he⟩ := List.mem_map.1 h
    cases he
  · obtain ⟨p, -, ⟨e, -, he | he⟩ | ⟨-, n, he⟩⟩ := placeAssets_mem h
    · cases he
    · cases he
    · cases he

theorem fits_assetActions {v : Variant} {d : VariantDraft} (hv : (assetKeys v.assets).Nodup)
    (hd : (assetKeys d.assets).Nodup) : Along assets Fits (assetActions v d) v.assets := by
  have hdrop : Along assets Fits (dropActions v d) v.assets := by
    refine along_of_forall (fun a ha xs => ?_) v.assets
    obtain ⟨k, -, rfl⟩ := List.mem_map.1 ha
    trivial
  -- the kept keys are as many as the draft has in common with the old list
  have hcount : ((keyedAssets d.assets).map (·.1)).countP (assetKeys v.assets).contains ≤
      (keyed (keptAssets v.assets (assetKeys d.assets))).length := by
    rw [map_fst_keyedAssets, length_keyed, assetKeys_keptAssets, List.countP_eq_length_filter]
    refine (List.Nodup.subperm (hd.filter _) ?_).length_le
    intro k hk
    obtain ⟨hnew, hold⟩ := List.mem_filter.1 hk
    exact List.mem_filter.2 ⟨List.contains_iff_mem.1 hold, List.contains_iff_mem.2 hnew⟩
  have horder : ∀ xs, Along assets Fits (if SameOrder v.assets d.assets then []
      else [.changeAssetOrder v.id (assetKeys d.assets)]) xs := by
    intro xs
    split
    · trivial
    · exact ⟨trivial, trivial⟩
  rw [assetActions_eq, along_append, along_append, dropActions, replay_dropAssets hv]
  refine ⟨⟨hdrop, fits_placeAssets ?_ ?_⟩, horder _⟩
  · exact fun p hp => (mem_keyedAssets.1 hp).2
  · rw [Nat.zero_add]
    exact hcount

/-- What the actions of a plan do to the assets `old` of the variant with an id, if the draft wants
    `new`. -/
structure Aligns (id : UInt32) (old new : List Asset) (actions : List ProductAction) : Prop where
  /-- The assets with a key become those of the draft, in its order. -/
  alone : replay assets actions (keyed old) = keyed new
  /-- They do so among assets without a key, too, and those stay as they are. -/
  among : keyed (replay assets actions old) = keyed new ∧
    loose (replay assets actions old) = loose old
  /-- No addition skips a position. -/
  fits : Along assets Fits actions (keyed old)
  /-- All keys of the draft are listed at the very end, and only if assets have to swap places. -/
  reorder : ∃ changes, (∀ i order, .changeAssetOrder i order ∉ changes) ∧
    actions = changes ++
      if SameOrder old new then [] else [.changeAssetOrder id (assetKeys new)]
  /-- No action is about an asset without a key. -/
  concerns : ∀ a ∈ actions, Concerns old new a
  /-- There are no actions just if the assets with a key are as the draft wants them. -/
  nil_iff : actions = [] ↔ keyed old = keyed new

/-- The actions on the assets of a variant bring those with a key to what the draft wants. -/
theorem assetActions_align {v : Variant} {d : VariantDraft} (hv : (assetKeys v.assets).Nodup)
    (hd : (assetKeys d.assets).Nodup) : Aligns v.id v.assets d.assets (assetActions v d) := by
  have hkeyed : ∀ a ∈ assetActions v d, CarriesKey a := fun a ha => (concerns_assetActions ha).keyed
  have hresult : keyed (replay assets (assetActions v d) v.assets) = keyed d.assets :=
    keyed_eq_iff.2 (replay_assetActions hv hd)
  have hview : ∀ a ∈ assetActions v d, ∀ xs, keyed (assets a xs) = assets a (keyed xs) :=
    fun a ha xs => (passesLoose_assets (hkeyed a ha) xs).1
  exact
    { alone := (keyed_replay hkeyed v.assets).symm.trans hresult
      among := ⟨hresult, loose_replay hkeyed v.assets⟩
      fits := along_view hview fits_keyed (fits_assetActions hv hd)
      reorder := ⟨_, fun _ _ => no_changeAssetOrder, assetActions_eq v d⟩
      concerns := fun _ => concerns_assetActions
      nil_iff := by
        constructor
        · intro h
          rw [h] at hresult
          exact hresult
        · exact fun h => assetActions_eq_nil (keyed_eq_iff.1 h) hd }

/-- Three assets with a key, and two without. -/
def mixedAssets : Variant :=
  .ofDraft 7 { VariantDraft.empty with
    assets := [⟨none, .empty, []⟩, .of "a" .empty, .of "b" .empty, ⟨none, .empty, []⟩,
      .of "c" .empty] }

/-- One asset is gone, one is new, one has a source, and two are swapped. -/
def swappedAssets : VariantDraft :=
  { VariantDraft.empty with
    assets := [(Asset.of "c" .empty).withSource "s", ⟨none, .empty, []⟩, .of "d" .empty,
      .of "a" .empty] }

theorem assetActions_align_mixed :
    (assetKeys mixedAssets.assets).Nodup ∧ (assetKeys swappedAssets.assets).Nodup ∧
    Aligns 7 mixedAssets.assets swappedAssets.assets (assetActions mixedAssets swappedAssets) :=
  ⟨by decide, by decide,
    assetActions_align (v := mixedAssets) (d := swappedAssets) (by decide) (by decide)⟩

/-- The assets without a key are still the first and the fourth. -/
example : (replay assets (assetActions mixedAssets swappedAssets) mixedAssets.assets).map (·.key) =
    [none, some "c", some "d", none, some "a"] := by decide

end CatalogSync.Diff
