import CatalogSync.Proofs.Replay

/- Assets of a variant. Only the assets with a key are compared. The removals leave those that the
   draft knows; then the entries of the draft are placed one after the other, each by overwriting
   the asset with its key or by an insertion, and what is placed stays (`Placed`). At the end the
   keyed assets are those of the draft, but for their order, and that is repaired by one action.
   Main statements: `replay_assetActions`, `assetActions_eq_nil`. -/
namespace CatalogSync.Diff

open CatalogSync.Edit

/-- The keys of the assets that have one. -/
def assetKeys (xs : List Asset) : List String := xs.filterMap (·.key)

theorem assetKeys_cons_of_none {x : Asset} (h : x.key = none) (xs : List Asset) :
    assetKeys (x :: xs) = assetKeys xs := List.filterMap_cons_none h

theorem assetKeys_cons_of_some {x : Asset} {k : String} (h : x.key = some k) (xs : List Asset) :
    assetKeys (x :: xs) = k :: assetKeys xs := List.filterMap_cons_some h

theorem map_fst_keyedAssets (xs : List Asset) : (keyedAssets xs).map (·.1) = assetKeys xs := by
  induction xs with
  | nil => rfl
  | cons x xs ih =>
    unfold keyedAssets at ih ⊢
    cases h : x.key with
    | none =>
      rw [List.filterMap_cons_none (by rw [h]; rfl), assetKeys_cons_of_none h]
      exact ih
    | some k =>
      rw [List.filterMap_cons_some (by rw [h]; rfl), assetKeys_cons_of_some h]
      exact congrArg (k :: ·) ih

/-- The assets that have a key. -/
def keyed (xs : List Asset) : List Asset := xs.filter fun a => a.key.isSome

theorem keyed_cons (x : Asset) (xs : List Asset) :
    keyed (x :: xs) = if x.key.isSome then x :: keyed xs else keyed xs := List.filter_cons

theorem keyed_keyed (xs : List Asset) : keyed (keyed xs) = keyed xs := by
  unfold keyed
  rw [List.filter_filter]
  simp only [Bool.and_self]

theorem map_snd_keyedAssets (xs : List Asset) : (keyedAssets xs).map (·.2) = keyed xs := by
  induction xs with
  | nil => rfl
  | cons x xs ih =>
    unfold keyedAssets at ih ⊢
    cases h : x.key with
    | none => rw [List.filterMap_cons_none (by rw [h]; rfl), ih, keyed_cons, h]; rfl
    | some k =>
      rw [List.filterMap_cons_some (by rw [h]; rfl), List.map_cons, ih, keyed_cons, h]
      rfl

theorem keyedAssets_keyed (xs : List Asset) : keyedAssets (keyed xs) = keyedAssets xs := by
  unfold keyedAssets keyed
  rw [List.filterMap_filter]
  apply List.filterMap_congr
  intro x _
  cases x.key <;> rfl

theorem keyed_eq_iff {xs ys : List Asset} :
    keyed xs = keyed ys ↔ keyedAssets xs = keyedAssets ys := by
  constructor
  · intro h
    rw [← keyedAssets_keyed xs, ← keyedAssets_keyed ys, h]
  · intro h
    rw [← map_snd_keyedAssets, h, map_snd_keyedAssets]

theorem length_keyed (xs : List Asset) : (keyed xs).length = (assetKeys xs).length := by
  rw [← map_snd_keyedAssets, ← map_fst_keyedAssets, List.length_map, List.length_map]

theorem mem_keyedAssets {xs : List Asset} {p : String × Asset} :
    p ∈ keyedAssets xs ↔ p.2 ∈ xs ∧ p.2.key = some p.1 := by
  unfold keyedAssets
  rw [List.mem_filterMap]
  constructor
  · intro h
    obtain ⟨x, hx, h⟩ := h
    obtain ⟨k, hk, rfl⟩ := Option.map_eq_some_iff.1 h
    exact ⟨hx, hk⟩
  · intro h
    obtain ⟨hx, hk⟩ := h
    exact ⟨p.2, hx, by rw [hk]; rfl⟩

/-- Keyed assets with the same keys, which are distinct, are the same if they have the same
    members. -/
theorem keyed_ext : ∀ {ps qs : List (String × Asset)}, ps.map (·.1) = qs.map (·.1) →
    (ps.map (·.1)).Nodup → (∀ q ∈ qs, q ∈ ps) → ps = qs
  | [], [], _, _, _ => rfl
  | [], _ :: _, h, _, _ => by cases h
  | _ :: _, [], h, _, _ => by cases h
  | p :: ps, q :: qs, h, hn, hm => by
    obtain ⟨hk, ht⟩ := List.cons.inj h
    obtain ⟨hp, hn⟩ := List.nodup_cons.1 hn
    have hq : q = p := by
      rcases List.mem_cons.1 (hm q (List.mem_cons_self ..)) with h | h
      · exact h
      · exact absurd (hk ▸ List.mem_map.2 ⟨q, h, rfl⟩) hp
    have htail : ∀ q' ∈ qs, q' ∈ ps := by
      intro q' hq'
      rcases List.mem_cons.1 (hm q' (List.mem_cons_of_mem q hq')) with h | h
      · rw [h] at hq'
        exact absurd (ht ▸ List.mem_map.2 ⟨p, hq', rfl⟩) hp
      · exact h
    rw [hq, keyed_ext ht hn htail]

/-! ### Removals -/

theorem replay_removeAsset {id : UInt32} {keys : List String} {xs : List Asset}
    (h : (assetKeys xs).Nodup) :
    replay assets (keys.map (.removeAsset id)) xs =
      xs.filter fun a => !a.key.any keys.contains := by
  rw [replay_map]
  exact replay_eraseP h

/-! ### Changes -/

/-- Changes the assets with a key. -/
def amend (key : String) (f : Asset → Asset) (xs : List Asset) : List Asset :=
  xs.map fun x => if x.key == some key then f x else x

theorem amend_congr {key : String} {f g : Asset → Asset} {xs : List Asset}
    (h : ∀ x ∈ xs, x.key = some key → f x = g x) : amend key f xs = amend key g xs := by
  apply List.map_congr_left
  intro x hx
  by_cases hk : x.key = some key
  · simp [hk, h x hx hk]
  · simp [hk]

theorem amend_self {key : String} {f : Asset → Asset} {xs : List Asset}
    (h : ∀ x ∈ xs, x.key = some key → f x = x) : amend key f xs = xs := by
  rw [amend_congr (g := id) h]
  unfold amend
  simp

theorem amend_amend {key : String} {f g : Asset → Asset} (xs : List Asset)
    (hf : ∀ x, (f x).key = x.key) :
    amend key g (amend key f xs) = amend key (fun x => g (f x)) xs := by
  unfold amend
  rw [List.map_map]
  apply List.map_congr_left
  intro x _
  by_cases hk : x.key = some key
  · simp [hk, hf]
  · simp [hk]

theorem assetKeys_amend {key : String} {f : Asset → Asset} {xs : List Asset}
    (hf : ∀ x ∈ xs, x.key = some key → (f x).key = x.key) :
    assetKeys (amend key f xs) = assetKeys xs := by
  unfold assetKeys amend
  rw [List.filterMap_map]
  apply List.filterMap_congr
  intro x hx
  by_cases hk : x.key = some key
  · simp [hk, hf x hx hk]
  · simp [hk]

/-- The changes that lead the asset with a key, which has name and sources of `e`, to an asset of
    the draft overwrite it. -/
theorem replay_changeAssetActions {id : UInt32} {key : String} {e asset : Asset} {xs : List Asset}
    (hn : (assetKeys xs).Nodup) (ha : asset.key = some key)
    (he : ∀ x ∈ xs, x.key = some key → x.name = e.name ∧ x.sources = e.sources) :
    replay assets (changeAssetActions id key e asset) xs = amend key (fun _ => asset) xs := by
  have hname :
      replay assets (whenChanged e.name asset.name (.changeAssetName id key asset.name)) xs =
        amend key (fun x => { x with name := asset.name }) xs := by
    have hset : assets (.changeAssetName id key asset.name) xs =
        amend key (fun x => { x with name := asset.name }) xs :=
      changeFirst_eq_map (atMostOne_of_nodup hn key)
    refine (replay_whenChanged ?_).trans hset
    intro hsame
    rw [hset]
    apply amend_self
    intro x hx hk
    rw [← hsame, ← (he x hx hk).1]
  have hkeys : (assetKeys (amend key (fun x => { x with name := asset.name }) xs)).Nodup := by
    rw [assetKeys_amend]
    · exact hn
    · exact fun _ _ _ => rfl
  -- the sources are set on what the name was set on
  have hsources : assets (.setAssetSources id key asset.sources)
        (amend key (fun x => { x with name := asset.name }) xs) =
      amend key (fun x => { x with name := asset.name, sources := asset.sources }) xs := by
    refine (changeFirst_eq_map (atMostOne_of_nodup hkeys key)).trans ?_
    exact amend_amend xs fun _ => rfl
  rw [changeAssetActions, replay_append, hname, replay_whenChanged, hsources]
  · apply amend_congr
    intro x hx hk
    rw [hk, ← ha]
  · intro hsame
    rw [hsources]
    apply amend_congr
    intro x hx hk
    rw [← hsame, ← (he x hx hk).2]

/-! ### Additions -/

theorem assetKeys_insertKeyed {asset : Asset} {key : String} (h : asset.key = some key) :
    ∀ (n : Nat) (xs : List Asset),
      assetKeys (insertKeyed n asset xs) = insertAt n key (assetKeys xs)
  | n, [] => by simp [insertKeyed, assetKeys, h, insertAt]
  | 0, x :: xs => by
    rw [insertKeyed, assetKeys_cons_of_some h]
    cases assetKeys (x :: xs) <;> rfl
  | n + 1, x :: xs => by
    rw [insertKeyed]
    cases hx : x.key with
    | none =>
      -- an asset without a key takes no position
      rw [assetKeys_cons_of_none hx, assetKeys_cons_of_none hx]
      exact assetKeys_insertKeyed h (n + 1) xs
    | some k =>
      rw [assetKeys_cons_of_some hx, assetKeys_cons_of_some hx]
      exact congrArg (k :: ·) (assetKeys_insertKeyed h n xs)

theorem mem_insertKeyed {asset y : Asset} : ∀ {n : Nat} {xs : List Asset},
    y ∈ insertKeyed n asset xs ↔ y = asset ∨ y ∈ xs
  | n, [] => by simp [insertKeyed]
  | 0, x :: xs => by simp [insertKeyed]
  | n + 1, x :: xs => by
    rw [insertKeyed, List.mem_cons, mem_insertKeyed, List.mem_cons, or_left_comm]

/-! ### Placing the entries of the draft -/

/-- An entry of the draft can be placed: the asset of the old list with its key, if there is one,
    still has its old content, and otherwise the key is not in use. -/
def Pending (old xs : List Asset) (p : String × Asset) : Prop :=
  p.2.key = some p.1 ∧
  match old.find? fun a => a.key == some p.1 with
  | some e => p.1 ∈ assetKeys xs ∧
      ∀ x ∈ xs, x.key = some p.1 → x.name = e.name ∧ x.sources = e.sources
  | none => p.1 ∉ assetKeys xs

/-- An entry of the draft has been placed: its asset is there, and assets with other keys are as
    they were. -/
structure Placed (p : String × Asset) (xs ys : List Asset) : Prop where
  nodup : (assetKeys ys).Nodup
  mem : p.2 ∈ ys
  frame : ∀ x, x.key ≠ some p.1 → (x ∈ ys ↔ x ∈ xs)

theorem mem_assetKeys {xs : List Asset} {k : String} :
    k ∈ assetKeys xs ↔ ∃ x ∈ xs, x.key = some k := List.mem_filterMap

theorem placed_amend {p : String × Asset} {xs : List Asset} (hk : p.2.key = some p.1)
    (hn : (assetKeys xs).Nodup) (hp : p.1 ∈ assetKeys xs) :
    Placed p xs (amend p.1 (fun _ => p.2) xs) := by
  refine ⟨?_, ?_, ?_⟩
  · rw [assetKeys_amend]
    · exact hn
    · intro x _ hx
      rw [hx, hk]
  · obtain ⟨x, hx, he⟩ := mem_assetKeys.1 hp
    exact List.mem_map.2 ⟨x, hx, by simp [he]⟩
  · intro x hx
    unfold amend
    rw [List.mem_map]
    constructor
    · intro h
      obtain ⟨y, hy, he⟩ := h
      by_cases hy' : y.key = some p.1
      · rw [if_pos (by simp [hy'])] at he
        exact absurd (he ▸ hk) hx
      · rw [if_neg (by simp [hy'])] at he
        exact he ▸ hy
    · intro h
      exact ⟨x, h, by simp [hx]⟩

theorem placed_insertKeyed {p : String × Asset} {xs : List Asset} (n : Nat)
    (hk : p.2.key = some p.1) (hn : (assetKeys xs).Nodup) (hp : p.1 ∉ assetKeys xs) :
    Placed p xs (insertKeyed n p.2 xs) := by
  refine ⟨?_, mem_insertKeyed.2 (Or.inl rfl), ?_⟩
  · rw [assetKeys_insertKeyed hk, insertAt_eq_insertIdx,
      (List.perm_insertIdx _ _ (Nat.min_le_right ..)).nodup_iff]
    exact List.nodup_cons.2 ⟨hp, hn⟩
  · intro x hx
    rw [mem_insertKeyed]
    constructor
    · intro h
      rcases h with rfl | h
      · exact absurd hk hx
      · exact h
    · exact Or.inr

/-- Placing one entry does not bear on another one with a different key. -/
theorem Placed.pending {old xs ys : List Asset} {p q : String × Asset} (h : Placed p xs ys)
    (hne : q.1 ≠ p.1) (hq : Pending old xs q) : Pending old ys q := by
  have hsame : ∀ x : Asset, x.key = some q.1 → (x ∈ ys ↔ x ∈ xs) := by
    intro x hx
    apply h.frame x
    rw [hx]
    exact fun he => hne (Option.some.inj he)
  have hkeys : q.1 ∈ assetKeys ys ↔ q.1 ∈ assetKeys xs := by
    rw [mem_assetKeys, mem_assetKeys]
    constructor
    · intro h
      obtain ⟨x, hx, he⟩ := h
      exact ⟨x, (hsame x he).1 hx, he⟩
    · intro h
      obtain ⟨x, hx, he⟩ := h
      exact ⟨x, (hsame x he).2 hx, he⟩
  refine ⟨hq.1, ?_⟩
  have hq := hq.2
  cases hf : old.find? fun a => a.key == some q.1 with
  | none =>
    rw [hf] at hq
    exact fun hm => hq (hkeys.1 hm)
  | some e =>
    rw [hf] at hq
    refine ⟨hkeys.2 hq.1, ?_⟩
    intro x hx he
    exact hq.2 x ((hsame x he).1 hx) he

/-- One entry is placed, and the rest goes on from there with the order of the keys. -/
theorem replay_placeAssets_cons {id : UInt32} {old xs : List Asset} {p : String × Asset}
    {rest : List (String × Asset)} {position : Nat} (hn : (assetKeys xs).Nodup)
    (hp : Pending old xs p) :
    ∃ ys, Placed p xs ys ∧
      replay assets (placeAssets id old position (assetKeys xs) (p :: rest)).1 xs =
        replay assets (placeAssets id old (position + 1) (assetKeys ys) rest).1 ys ∧
      (placeAssets id old position (assetKeys xs) (p :: rest)).2 =
        (placeAssets id old (position + 1) (assetKeys ys) rest).2 := by
  obtain ⟨key, asset⟩ := p
  obtain ⟨hk, hp⟩ := hp
  have hk : asset.key = some key := hk
  rw [placeAssets]
  cases hf : old.find? fun a => a.key == some key with
  | some e =>
    rw [hf] at hp
    -- the asset with the key is overwritten in its place
    have hkeys : assetKeys (amend key (fun _ => asset) xs) = assetKeys xs := by
      apply assetKeys_amend
      intro x _ hx
      rw [hx, hk]
    refine ⟨_, placed_amend hk hn hp.1, ?_, ?_⟩
    · simp only [replay_append, replay_changeAssetActions hn hk hp.2, hkeys]
    · simp only [hkeys]
  | none =>
    rw [hf] at hp
    -- the key is new, so the asset is inserted
    have hkeys : assetKeys (insertKeyed position asset xs) =
        (assetKeys xs).insertIdx (min position (assetKeys xs).length) key := by
      rw [assetKeys_insertKeyed hk, insertAt_eq_insertIdx]
    refine ⟨_, placed_insertKeyed position hk hn hp, ?_, ?_⟩
    · simp only [hkeys, replay_cons]
      rfl
    · simp only [hkeys]

/-- All entries are placed, one by one. -/
theorem replay_placeAssets {id : UInt32} {old : List Asset} {rest : List (String × Asset)}
    {position : Nat} {xs : List Asset} (hn : (assetKeys xs).Nodup) (hr : (rest.map (·.1)).Nodup)
    (hp : ∀ p ∈ rest, Pending old xs p) :
    ∃ ys, replay assets (placeAssets id old position (assetKeys xs) rest).1 xs = ys ∧
      (placeAssets id old position (assetKeys xs) rest).2 = assetKeys ys ∧ (assetKeys ys).Nodup ∧
      (∀ p ∈ rest, p.2 ∈ ys) ∧
      ∀ x, (∀ p ∈ rest, x.key ≠ some p.1) → (x ∈ ys ↔ x ∈ xs) := by
  -- on the entries: the first is placed, and the others are still pending then
  induction rest generalizing position xs with
  | nil =>
    exact ⟨xs, rfl, rfl, hn, fun _ h => absurd h List.not_mem_nil, fun _ _ => Iff.rfl⟩
  | cons p rest ih =>
    obtain ⟨hpr, hr⟩ := List.nodup_cons.1 hr
    obtain ⟨ys, hys, hstep, horder⟩ := @replay_placeAssets_cons id old xs p rest position hn
      (hp p (List.mem_cons_self ..))
    have hne : ∀ q ∈ rest, q.1 ≠ p.1 := fun q hq h => hpr (List.mem_map.2 ⟨q, hq, h⟩)
    have hrest : ∀ q ∈ rest, Pending old ys q :=
      fun q hq => hys.pending (hne q hq) (hp q (List.mem_cons_of_mem p hq))
    obtain ⟨zs, hzs, hzorder, hzn, hzmem, hzframe⟩ :=
      @ih (position + 1) ys hys.nodup hr hrest
    refine ⟨zs, hstep.trans hzs, horder.trans hzorder, hzn, ?_, ?_⟩
    · intro q hq
      rcases List.mem_cons.1 hq with rfl | hq
      · refine (hzframe q.2 ?_).2 hys.mem
        intro r hr
        rw [(hp q (List.mem_cons_self ..)).1]
        exact fun h => hne r hr (Option.some.inj h).symm
      · exact hzmem q hq
    · intro x hx
      rw [hzframe x fun q hq => hx q (List.mem_cons_of_mem p hq)]
      exact hys.frame x (hx p (List.mem_cons_self ..))

/-! ### The order -/

theorem keyed_fillKeyed : ∀ {as xs : List Asset}, (∀ a ∈ as, a.key.isSome = true) →
    as.length = (keyed xs).length → keyed (fillKeyed as xs) = as
  | as, [], _, hl => by
    rw [List.length_eq_zero_iff.1 hl]
    rfl
  | [], x :: xs, _, hl => List.length_eq_zero_iff.1 hl.symm
  | a :: as, x :: xs, ha, hl => by
    have htail : ∀ b ∈ as, b.key.isSome = true := fun b hb => ha b (List.mem_cons_of_mem a hb)
    rw [fillKeyed]
    rw [keyed_cons] at hl
    cases hx : x.key.isSome with
    | true =>
      rw [if_pos hx] at hl
      rw [if_pos rfl, keyed_cons, if_pos (ha a (List.mem_cons_self ..)),
        keyed_fillKeyed htail (Nat.succ.inj hl)]
    | false =>
      rw [if_neg (by simp [hx])] at hl
      rw [if_neg Bool.false_ne_true, keyed_cons, if_neg (by simp [hx])]
      exact keyed_fillKeyed ha hl

/-- Among assets with distinct keys, the first with a key is the one with it. -/
theorem find?_assetKey {xs : List Asset} (hn : (assetKeys xs).Nodup) {x : Asset} {k : String}
    (hx : x ∈ xs) (hk : x.key = some k) : xs.find? (fun a => a.key == some k) = some x := by
  induction xs with
  | nil => cases hx
  | cons y xs ih =>
    by_cases hy : y.key = some k
    · rw [assetKeys_cons_of_some hy, List.nodup_cons] at hn
      rcases List.mem_cons.1 hx with rfl | hx
      · exact List.find?_cons_of_pos (by simp [hk])
      · exact absurd (mem_assetKeys.2 ⟨x, hx, hk⟩) hn.1
    · rw [List.find?_cons_of_neg (by simp [hy])]
      rcases List.mem_cons.1 hx with rfl | hx
      · exact absurd hk hy
      · exact ih (hn.sublist ((List.sublist_cons_self y xs).filterMap _)) hx

/-- If the keyed assets are those of the draft in some order, the reordering brings them into the
    order of the draft. -/
theorem keyedAssets_orderKeyed {xs new : List Asset} (hn : (assetKeys xs).Nodup)
    (hd : (assetKeys new).Nodup) (hmem : ∀ p ∈ keyedAssets new, p.2 ∈ xs)
    (hkeys : ∀ k ∈ assetKeys xs, k ∈ assetKeys new) :
    keyedAssets (orderKeyed (assetKeys new) xs) = keyedAssets new := by
  have hkeyed : (assetKeys (keyed xs)).Nodup := hn.sublist (List.filter_sublist.filterMap _)
  have hfirst : ((assetKeys new).filterMap fun k =>
      (keyed xs).find? fun a => a.key == some k) = keyed new := by
    rw [← map_snd_keyedAssets new, ← map_fst_keyedAssets new, List.filterMap_map,
      ← List.filterMap_eq_map]
    apply List.filterMap_congr
    intro p hp
    have hk := (mem_keyedAssets.1 hp).2
    exact find?_assetKey hkeyed (List.mem_filter.2 ⟨hmem p hp, by simp [hk]⟩) hk
  have hrest : ((keyed xs).filter fun a => !a.key.any (assetKeys new).contains) = [] := by
    apply List.filter_eq_nil_iff.2
    intro x hx
    obtain ⟨hx, hs⟩ := List.mem_filter.1 hx
    obtain ⟨k, hk⟩ := Option.isSome_iff_exists.1 hs
    simp [hk, hkeys k (mem_assetKeys.2 ⟨x, hx, hk⟩)]
  have hperm : (assetKeys new).Perm (assetKeys xs) := by
    refine (List.perm_ext_iff_of_nodup hd hn).2 fun k => ⟨?_, hkeys k⟩
    intro hk
    rw [← map_fst_keyedAssets] at hk
    obtain ⟨p, hp, rfl⟩ := List.mem_map.1 hk
    exact mem_assetKeys.2 ⟨p.2, hmem p hp, (mem_keyedAssets.1 hp).2⟩
  have hordered : orderKeyed (assetKeys new) xs = fillKeyed (keyed new) xs := by
    show fillKeyed (_ ++ (keyed xs).filter fun a => !a.key.any (assetKeys new).contains) xs = _
    rw [hrest, List.append_nil]
    exact congrArg (fillKeyed · xs) hfirst
  rw [← keyed_eq_iff, hordered, keyed_fillKeyed]
  · exact fun a ha => (List.mem_filter.1 ha).2
  · rw [length_keyed, length_keyed, hperm.length_eq]

/-! ### All actions on assets -/

/-- The assets that the removals leave: those without a key and those that the draft knows. -/
def keptAssets (old : List Asset) (keys : List String) : List Asset :=
  old.filter fun a => a.key.all keys.contains

theorem assetKeys_keptAssets (old : List Asset) (keys : List String) :
    assetKeys (keptAssets old keys) = (assetKeys old).filter keys.contains := by
  unfold assetKeys keptAssets
  rw [List.filterMap_filter, List.filter_filterMap]
  apply List.filterMap_congr
  intro x _
  cases x.key with
  | none => rfl
  | some k => simp [Option.filter]

theorem replay_dropAssets {id : UInt32} {old : List Asset} {keys : List String}
    (h : (assetKeys old).Nodup) :
    replay assets (((assetKeys old).filter fun k => !keys.contains k).map (.removeAsset id)) old =
      keptAssets old keys := by
  rw [replay_removeAsset h]
  apply List.filter_congr
  intro x hx
  cases hk : x.key with
  | none => rfl
  | some k => exact not_contains_dropped (mem_assetKeys.2 ⟨x, hx, hk⟩)

/-- After the removals every entry of the draft can be placed. -/
theorem pending_keptAssets {old new : List Asset} (h : (assetKeys old).Nodup)
    {p : String × Asset} (hp : p ∈ keyedAssets new) :
    Pending old (keptAssets old (assetKeys new)) p := by
  obtain ⟨hmem, hk⟩ := mem_keyedAssets.1 hp
  refine ⟨hk, ?_⟩
  cases hf : old.find? fun a => a.key == some p.1 with
  | none =>
    intro hin
    obtain ⟨x, hx, he⟩ := mem_assetKeys.1 hin
    exact List.find?_eq_none.1 hf x (List.mem_filter.1 hx).1 (by simp [he])
  | some e =>
    have he : e.key = some p.1 := by simpa using List.find?_some hf
    refine ⟨mem_assetKeys.2 ⟨e, List.mem_filter.2 ⟨List.mem_of_find?_eq_some hf, ?_⟩, he⟩, ?_⟩
    · rw [he]
      exact List.contains_iff_mem.2 (mem_assetKeys.2 ⟨p.2, hmem, hk⟩)
    · intro x hx hxk
      rw [find?_assetKey h (List.mem_filter.1 hx).1 hxk] at hf
      cases hf
      exact ⟨rfl, rfl⟩

/-- The actions on the assets of a variant lead to the keyed assets of its draft. -/
theorem replay_assetActions {v : Variant} {d : VariantDraft} (hv : (assetKeys v.assets).Nodup)
    (hd : (assetKeys d.assets).Nodup) :
    keyedAssets (replay assets (assetActions v d) v.assets) = keyedAssets d.assets := by
  have hkept : (assetKeys (keptAssets v.assets (assetKeys d.assets))).Nodup :=
    hv.sublist (List.filter_sublist.filterMap _)
  obtain ⟨ys, hys, horder, hn, hmem, hframe⟩ :=
    @replay_placeAssets v.id v.assets (keyedAssets d.assets) 0
      (keptAssets v.assets (assetKeys d.assets)) hkept (map_fst_keyedAssets d.assets ▸ hd)
      fun p hp => pending_keptAssets hv hp
  -- an asset with another key would have been left as it was, but it was removed
  have hkeys : ∀ k ∈ assetKeys ys, k ∈ assetKeys d.assets := by
    intro k hk
    obtain ⟨x, hx, he⟩ := mem_assetKeys.1 hk
    by_contra hnot
    have hold : x ∈ keptAssets v.assets (assetKeys d.assets) := by
      refine (hframe x ?_).1 hx
      intro p hp h
      rw [he] at h
      cases h
      exact hnot (map_fst_keyedAssets d.assets ▸ List.mem_map.2 ⟨p, hp, rfl⟩)
    have hall := (List.mem_filter.1 hold).2
    rw [he] at hall
    exact hnot (List.contains_iff_mem.1 hall)
  unfold assetActions
  simp only [map_fst_keyedAssets, ← assetKeys_keptAssets]
  rw [replay_append, replay_append, replay_dropAssets hv, hys, horder]
  by_cases hsame : assetKeys ys = assetKeys d.assets
  · rw [if_pos hsame]
    apply keyed_ext
    · rw [map_fst_keyedAssets, map_fst_keyedAssets, replay_nil, hsame]
    · rw [map_fst_keyedAssets]
      exact hn
    · intro p hp
      exact mem_keyedAssets.2 ⟨hmem p hp, (mem_keyedAssets.1 hp).2⟩
  · rw [if_neg hsame]
    exact keyedAssets_orderKeyed hn hd hmem hkeys

/-- Entries of the draft that are stored as they are call for nothing. -/
theorem placeAssets_self {id : UInt32} {old : List Asset} (h : (assetKeys old).Nodup) :
    ∀ {rest : List (String × Asset)} {position : Nat} {current : List String},
      (∀ p ∈ rest, p ∈ keyedAssets old) → placeAssets id old position current rest = ([], current)
  | [], _, _, _ => rfl
  | (key, asset) :: rest, position, current, hr => by
    obtain ⟨hmem, hk⟩ := mem_keyedAssets.1 (hr (key, asset) (List.mem_cons_self ..))
    have hrest := @placeAssets_self id old h rest (position + 1) current
      fun p hp => hr p (List.mem_cons_of_mem _ hp)
    rw [placeAssets, find?_assetKey h hmem hk]
    simp [hrest, changeAssetActions, whenChanged]

/-- Keyed assets that are those of the draft call for no action. -/
theorem assetActions_eq_nil {v : Variant} {d : VariantDraft}
    (h : keyedAssets v.assets = keyedAssets d.assets) (hd : (assetKeys d.assets).Nodup) :
    assetActions v d = [] := by
  have hkeys : assetKeys v.assets = assetKeys d.assets := by
    rw [← map_fst_keyedAssets, h, map_fst_keyedAssets]
  have hplaced := @placeAssets_self v.id v.assets (hkeys ▸ hd) (keyedAssets d.assets) 0
    (assetKeys d.assets) fun p hp => h ▸ hp
  have hself : (assetKeys d.assets).filter (assetKeys d.assets).contains = assetKeys d.assets :=
    List.filter_eq_self.2 fun k hk => List.contains_iff_mem.2 hk
  have hdropped : ((assetKeys d.assets).filter fun k => !(assetKeys d.assets).contains k) = [] := by
    apply List.filter_eq_nil_iff.2
    intro k hk
    simp [hk]
  unfold assetActions
  simp only [map_fst_keyedAssets, hkeys, hself, hdropped, hplaced]
  rfl

end CatalogSync.Diff
