import CatalogSync.Proofs.Replay

/- Images of a variant. The removals leave the images that the draft knows, the additions append
   those that are missing, and the moves then build the order of the draft from the front: behind
   the images that are in place stand all that are still to come (`moveActions_cons`). Labels
   change in place. Main statements: `replay_moveActions`, `replay_imageActions`,
   `imageActions_eq_nil`. -/
namespace CatalogSync.Diff

open CatalogSync.Edit

/-- What the diff compares of an image. -/
def face (i : Image) : String × Option String := (i.url, i.label)

/-! ### Removals and additions -/

theorem replay_removeImage_cons {id : UInt32} {x : Image} : ∀ {urls : List String}
    {xs : List Image}, x.url ∉ urls →
      replay images (urls.map (.removeImage id)) (x :: xs) =
        x :: replay images (urls.map (.removeImage id)) xs
  | [], _, _ => rfl
  | u :: urls, xs, h => by
    obtain ⟨hu, hurls⟩ := not_or.1 (mt List.mem_cons.2 h)
    have hx : images (.removeImage id u) (x :: xs) = x :: images (.removeImage id u) xs := by
      show (x :: xs).eraseP (fun i => i.url == u) = x :: xs.eraseP fun i => i.url == u
      rw [List.eraseP_cons_of_neg (by simpa using hu)]
    rw [List.map_cons, replay_cons, replay_cons, hx, replay_removeImage_cons hurls]

/-- Every image with an unwanted url is removed, also when several have the same one. -/
theorem replay_removeImage (id : UInt32) (keep : String → Bool) : ∀ xs : List Image,
    replay images (((xs.map (·.url)).filter fun u => !keep u).map (.removeImage id)) xs =
      xs.filter fun i => keep i.url
  | [] => rfl
  | x :: xs => by
    cases hx : keep x.url with
    | true =>
      -- no removal names the first image
      have hnot : x.url ∉ (xs.map (·.url)).filter fun u => !keep u := by
        intro h
        simpa [hx] using (List.mem_filter.1 h).2
      rw [List.map_cons, List.filter_cons_of_neg (by simp [hx]), replay_removeImage_cons hnot,
        replay_removeImage id keep xs, List.filter_cons_of_pos (by simp [hx])]
    | false =>
      -- the first removal takes it out
      have hfirst : images (.removeImage id x.url) (x :: xs) = xs := by
        show (x :: xs).eraseP (fun i => i.url == x.url) = xs
        rw [List.eraseP_cons_of_pos (by simp)]
      rw [List.map_cons, List.filter_cons_of_pos (by simp [hx]), List.map_cons, replay_cons, hfirst,
        replay_removeImage id keep xs, List.filter_cons_of_neg (by simp [hx])]

theorem replay_addExternalImage (id : UInt32) (added xs : List Image) :
    replay images (added.map (.addExternalImage id)) xs = xs ++ added := by
  induction added generalizing xs with
  | nil => exact (List.append_nil xs).symm
  | cons i added ih =>
    rw [List.map_cons, replay_cons, ih]
    exact List.append_assoc xs [i] added

/-! ### Moves -/

/-- Moving takes the first match behind a prefix without one to the end of that prefix. -/
theorem moveFirst_append {α : Type} {p : α → Bool} {ds rs : List α} {r : α}
    (hd : ∀ d ∈ ds, p d = false) (hr : rs.find? p = some r) :
    moveFirst p ds.length (ds ++ rs) = ds ++ r :: rs.eraseP p := by
  have hn : ds.find? p = none := List.find?_eq_none.2 fun d h => by simp [hd d h]
  unfold moveFirst
  rw [List.find?_append, hn, hr, Option.none_or,
    List.eraseP_append_right _ fun d h => by simp [hd d h]]
  exact insertAt_append r (rs.eraseP p) ds

theorem relocate_append {ds rs : List String} {url : String} (hd : url ∉ ds) :
    relocate url ds.length (ds ++ rs) = ds ++ url :: rs.erase url := by
  simp only [relocate]
  rw [List.erase_append_right _ hd, List.length_append, Nat.min_eq_left (Nat.le_add_right ..)]
  exact insertIdx_append url (rs.erase url) ds

theorem erase_map_url (url : String) (xs : List Image) :
    (xs.map (·.url)).erase url = (xs.eraseP fun i => i.url == url).map (·.url) := by
  rw [List.erase_eq_eraseP', List.eraseP_map]
  rfl

/-- The first match and what is left without it. -/
theorem perm_cons_eraseP {α : Type} {p : α → Bool} {r : α} {rs : List α}
    (h : rs.find? p = some r) : (r :: rs.eraseP p).Perm rs := by
  induction rs with
  | nil => cases h
  | cons x rs ih =>
    cases hx : p x with
    | true =>
      rw [List.find?_cons_of_pos hx] at h
      cases h
      rw [List.eraseP_cons_of_pos hx]
    | false =>
      rw [List.find?_cons_of_neg (by simp [hx])] at h
      rw [List.eraseP_cons_of_neg (by simp [hx])]
      calc (r :: x :: rs.eraseP p).Perm (x :: r :: rs.eraseP p) := .swap ..
        List.Perm _ (x :: rs) := (ih h).cons x

/-- A move takes an image from further back to a position of the list. -/
def Forward : ProductAction → List Image → Prop
  | .moveImageToPosition _ url position, xs =>
    position < xs.findIdx (fun i => i.url == url) ∧ xs.findIdx (fun i => i.url == url) < xs.length
  | _, _ => True

/-- The first image with a url is behind a position, if neither the images before the position nor
    the one at it have the url. -/
theorem forward_move {id : UInt32} {t : String} {ds rs : List Image}
    (hd : ∀ d ∈ ds, (d.url == t) = false) (hr : t ∈ rs.map (·.url))
    (hfirst : ((ds ++ rs).map (·.url))[ds.length]? ≠ some t) :
    Forward (.moveImageToPosition id t ds.length) (ds ++ rs) := by
  have hds : ds.findIdx (fun i => i.url == t) = ds.length := List.findIdx_eq_length.2 hd
  have hrs : rs.findIdx (fun i => i.url == t) < rs.length := by
    obtain ⟨r, hmem, hurl⟩ := List.mem_map.1 hr
    exact List.findIdx_lt_length.2 ⟨r, hmem, by simp [hurl]⟩
  have hpos : 0 < rs.findIdx (fun i => i.url == t) := by
    rw [List.getElem?_map, List.getElem?_append_right (Nat.le_refl _), Nat.sub_self] at hfirst
    cases rs with
    | nil => cases hr
    | cons r rest =>
      have hne : (r.url == t) = false := beq_false_of_ne fun h => hfirst (congrArg some h)
      rw [List.findIdx_cons, hne]
      exact Nat.succ_pos _
  show ds.length < (ds ++ rs).findIdx (fun i => i.url == t) ∧
    (ds ++ rs).findIdx (fun i => i.url == t) < (ds ++ rs).length
  rw [List.findIdx_append, hds, if_neg (Nat.lt_irrefl _), List.length_append]
  omega

/-- One target is put behind the images `ds` that are in place, if an image `r` that is not in
    place has its url: either it is next, or one move takes it there. -/
theorem moveActions_cons {id : UInt32} {t : String} {targets : List String} {ds rs : List Image}
    (hr : t ∈ rs.map (·.url)) (hd : t ∉ ds.map (·.url)) :
    ∃ r rest step, r.url = t ∧ (r :: rest).Perm rs ∧
      moveActions id ds.length ((ds ++ rs).map (·.url)) (t :: targets) =
        step ++ moveActions id (ds ++ [r]).length ((ds ++ [r] ++ rest).map (·.url)) targets ∧
      replay images step (ds ++ rs) = ds ++ [r] ++ rest ∧ Along images Forward step (ds ++ rs) := by
  have hnone : ∀ d ∈ ds, (d.url == t) = false := by
    intro d h
    exact Bool.eq_false_iff.2 fun he => hd (List.mem_map.2 ⟨d, h, eq_of_beq he⟩)
  have hlen (r : Image) : (ds ++ [r]).length = ds.length + 1 := List.length_append
  simp only [hlen]
  rw [moveActions]
  split
  · next hfirst =>
    -- the image that is next happens to be in place
    rw [List.getElem?_map, List.getElem?_append_right (Nat.le_refl _), Nat.sub_self] at hfirst
    cases rs with
    | nil => cases hfirst
    | cons r rest =>
      have hsame : ds ++ r :: rest = ds ++ [r] ++ rest := (List.append_assoc ds [r] rest).symm
      refine ⟨r, rest, [], ?_, .refl _, ?_, hsame, trivial⟩
      · exact Option.some.inj hfirst
      · rw [hsame]
        rfl
  · next hfirst =>
    -- it stands further back and is moved to the front of the others
    obtain ⟨r, hf⟩ : ∃ r, rs.find? (fun i => i.url == t) = some r := by
      obtain ⟨i, hi, he⟩ := List.mem_map.1 hr
      exact Option.isSome_iff_exists.1 (List.find?_isSome.2 ⟨i, hi, by simp [he]⟩)
    have hrt : r.url = t := eq_of_beq (@List.find?_some _ (fun i : Image => i.url == t) _ _ hf)
    have hmoved : images (.moveImageToPosition id t ds.length) (ds ++ rs) =
        ds ++ [r] ++ rs.eraseP fun i => i.url == t := by
      rw [List.append_assoc]
      exact moveFirst_append hnone hf
    have hurls : relocate t ds.length ((ds ++ rs).map (·.url)) =
        (ds ++ [r] ++ rs.eraseP fun i => i.url == t).map (·.url) := by
      have hlength : ds.length = (ds.map (·.url)).length := (List.length_map _).symm
      rw [List.map_append, hlength, relocate_append hd, erase_map_url]
      simp [hrt]
    refine ⟨r, rs.eraseP fun i => i.url == t, [.moveImageToPosition id t ds.length], hrt,
      perm_cons_eraseP hf, ?_, hmoved, forward_move hnone hr hfirst, trivial⟩
    rw [if_pos (by simpa using Or.inr hr), hurls]
    rfl

/-- The moves put the targets, in their order, behind the images that are in place already, and
    take every image forward. -/
theorem replay_moveActions {id : UInt32} {targets : List String} {ds rs : List Image}
    (hn : targets.Nodup) (ht : ∀ t ∈ targets, t ∈ rs.map (·.url) ∧ t ∉ ds.map (·.url)) :
    Along images Forward (moveActions id ds.length ((ds ++ rs).map (·.url)) targets) (ds ++ rs) ∧
    ∃ placed surplus,
      replay images (moveActions id ds.length ((ds ++ rs).map (·.url)) targets) (ds ++ rs) =
        ds ++ placed ++ surplus ∧
      placed.map (·.url) = targets ∧ (placed ++ surplus).Perm rs := by
  -- what is in place grows by one image a target, and `rs` shrinks by it
  induction targets generalizing ds rs with
  | nil => exact ⟨trivial, [], rs, by simp [moveActions], rfl, .refl _⟩
  | cons t targets ih =>
    obtain ⟨htn, hn⟩ := List.nodup_cons.1 hn
    obtain ⟨htr, htd⟩ := ht t (List.mem_cons_self ..)
    obtain ⟨r, rest, step, hr, hp, hactions, hstep, hforward⟩ :=
      @moveActions_cons id t targets ds rs htr htd
    have next : ∀ t' ∈ targets, t' ∈ rest.map (·.url) ∧ t' ∉ (ds ++ [r]).map (·.url) := by
      intro t' ht'
      obtain ⟨hmem, hnot⟩ := ht t' (List.mem_cons_of_mem t ht')
      have hne : t' ≠ t := fun h => htn (h ▸ ht')
      have hmem : t' ∈ (r :: rest).map (·.url) := (hp.map _).mem_iff.2 hmem
      rw [List.map_cons, List.mem_cons, hr] at hmem
      refine ⟨hmem.resolve_left hne, ?_⟩
      rw [List.map_append, List.mem_append]
      intro h
      rcases h with h | h
      · exact hnot h
      · exact hne (by simpa [hr] using h)
    obtain ⟨halong, placed, surplus, he, hm, hrest⟩ := ih hn next
    rw [hactions, along_append, replay_append, hstep]
    refine ⟨⟨hforward, halong⟩, r :: placed, surplus, ?_, ?_, ?_⟩
    · rw [he]
      simp
    · rw [List.map_cons, hr, hm]
    · exact (hrest.cons r).trans hp

/-! ### Labels -/

theorem changeFirst_append {α : Type} {p : α → Bool} (f : α → α) {r : α} {rs : List α}
    (hr : p r = true) {ds : List α} (hd : ∀ d ∈ ds, p d = false) :
    changeFirst p f (ds ++ r :: rs) = ds ++ f r :: rs := by
  induction ds with
  | nil =>
    rw [List.nil_append, changeFirst, if_pos hr]
    rfl
  | cons d ds ih =>
    rw [List.cons_append, changeFirst, if_neg (by simp [hd d (List.mem_cons_self ..)]),
      ih fun e he => hd e (List.mem_cons_of_mem d he)]
    rfl

/-- The image `r`, which the draft wants as `n`, has the label of the first old image with its url,
    or the wanted one if no old image has it. -/
def Unlabelled (old : List Image) (r n : Image) : Prop :=
  match old.find? fun i => i.url == n.url with
  | some e => r.label = e.label
  | none => r.label = n.label

theorem replay_labelActions {id : UInt32} {old : List Image} {r n : Image} {ds rs : List Image}
    (hurl : r.url = n.url) (hd : n.url ∉ ds.map (·.url)) (hr : Unlabelled old r n) :
    replay images (labelActions id old n) (ds ++ r :: rs) =
      ds ++ { r with label := n.label } :: rs := by
  unfold Unlabelled at hr
  unfold labelActions
  cases he : old.find? fun i => i.url == n.url with
  | some e =>
    rw [he] at hr
    have hnone : ∀ d ∈ ds, (d.url == n.url) = false := by
      intro d h
      exact Bool.eq_false_iff.2 fun he => hd (List.mem_map.2 ⟨d, h, eq_of_beq he⟩)
    have hset : images (.setImageLabel id n.url n.label) (ds ++ r :: rs) =
        ds ++ { r with label := n.label } :: rs :=
      @changeFirst_append Image (fun i => i.url == n.url) (fun i => { i with label := n.label })
        r rs (beq_iff_eq.2 hurl) ds hnone
    refine (replay_whenChanged ?_).trans hset
    intro hsame
    rw [hset, ← hsame, ← hr]
  | none =>
    rw [he] at hr
    show ds ++ r :: rs = _
    rw [← hr]

/-- Labels are set from the front, image by image. -/
theorem replay_labels {id : UInt32} {old : List Image} : ∀ {news ds rs : List Image},
    ((ds ++ rs).map (·.url)).Nodup → rs.map (·.url) = news.map (·.url) →
    (∀ r ∈ rs, ∀ n ∈ news, r.url = n.url → Unlabelled old r n) →
    (replay images (news.flatMap (labelActions id old)) (ds ++ rs)).map face =
      (ds ++ news).map face
  | [], ds, rs, _, hm, _ => by
    rw [List.map_eq_nil_iff.1 hm]
    rfl
  | n :: news, ds, [], _, hm, _ => by cases hm
  | n :: news, ds, r :: rs, hn, hm, hl => by
    obtain ⟨hurl, hm⟩ := List.cons.inj hm
    have hd : n.url ∉ ds.map (·.url) := by
      rw [List.map_append, List.nodup_append] at hn
      intro h
      exact hn.2.2 _ h _ (List.mem_cons_self ..) hurl.symm
    have hfirst := hl r (List.mem_cons_self ..) n (List.mem_cons_self ..) hurl
    rw [List.flatMap_cons, replay_append, replay_labelActions hurl hd hfirst]
    have hstep : ds ++ { r with label := n.label } :: rs =
        (ds ++ [{ r with label := n.label }]) ++ rs := by simp
    rw [hstep, replay_labels _ hm]
    · simp [face, hurl]
    · intro r' hr' n' hn'
      exact hl r' (List.mem_cons_of_mem r hr') n' (List.mem_cons_of_mem n hn')
    · simpa using hn

/-! ### All actions on images -/

/-- Among images with distinct urls, the first with a url is the one with it. -/
theorem find?_url {xs : List Image} (h : (xs.map (·.url)).Nodup) {i : Image} (hi : i ∈ xs) :
    xs.find? (fun j => j.url == i.url) = some i := by
  obtain ⟨j, hj⟩ : ∃ j, xs.find? (fun j => j.url == i.url) = some j :=
    Option.isSome_iff_exists.1 (List.find?_isSome.2 ⟨i, hi, by simp⟩)
  have hu : j.url = i.url := eq_of_beq (@List.find?_some _ (fun j : Image => j.url == i.url) _ _ hj)
  rw [hj, List.inj_on_of_nodup_map h (List.mem_of_find?_eq_some hj) hi hu]

/-- What the removals and the additions leave: the old images that the draft knows, then the new
    images that the variant lacks. -/
def gathered (old new : List Image) : List Image :=
  (old.filter fun i => (new.map (·.url)).contains i.url) ++
    new.filter fun i => !(old.map (·.url)).contains i.url

theorem gathered_urls (old new : List Image) :
    (gathered old new).map (·.url) =
      (old.map (·.url)).filter (new.map (·.url)).contains ++
        (new.map (·.url)).filter fun u => !(old.map (·.url)).contains u := by
  rw [gathered, List.map_append, List.filter_map, List.filter_map]
  rfl

/-- Each wanted url is there, as often as before or once if it is new, and no other url is. -/
theorem count_gathered_urls {old new : List Image} (hn : (new.map (·.url)).Nodup) (u : String) :
    ((gathered old new).map (·.url)).count u =
      if u ∈ new.map (·.url) then max 1 ((old.map (·.url)).count u) else 0 := by
  rw [gathered_urls, List.count_append]
  split
  · next hu =>
    rw [List.count_filter (List.contains_iff_mem.2 hu)]
    by_cases ho : u ∈ old.map (·.url)
    · have hadded : u ∉ (new.map (·.url)).filter fun u => !(old.map (·.url)).contains u := by
        intro h
        have hnot := (List.mem_filter.1 h).2
        rw [List.contains_iff_mem.2 ho] at hnot
        cases hnot
      have hpos := List.count_pos_iff.2 ho
      rw [List.count_eq_zero_of_not_mem hadded]
      omega
    · rw [List.count_eq_zero_of_not_mem ho, List.count_filter (by simpa using ho),
        List.count_eq_one_of_mem hn hu]
      rfl
  · next hu =>
    have hkept : u ∉ (old.map (·.url)).filter (new.map (·.url)).contains := by
      intro h
      exact hu (List.contains_iff_mem.1 (List.mem_filter.1 h).2)
    have hadded : u ∉ (new.map (·.url)).filter fun u => !(old.map (·.url)).contains u :=
      fun h => hu (List.mem_filter.1 h).1
    rw [List.count_eq_zero_of_not_mem hkept, List.count_eq_zero_of_not_mem hadded]

theorem mem_gathered_urls {old new : List Image} (hn : (new.map (·.url)).Nodup) {u : String}
    (hu : u ∈ new.map (·.url)) : u ∈ (gathered old new).map (·.url) := by
  apply List.count_pos_iff.1
  rw [count_gathered_urls hn, if_pos hu]
  omega

theorem perm_gathered_urls {old new : List Image} (ho : (old.map (·.url)).Nodup)
    (hn : (new.map (·.url)).Nodup) :
    ((gathered old new).map (·.url)).Perm (new.map (·.url)) := by
  apply List.perm_iff_count.2
  intro u
  have hone := List.nodup_iff_count_le_one.1 ho u
  rw [count_gathered_urls hn, hn.count, Nat.max_eq_left hone]

theorem unlabelled_gathered {old new : List Image} (ho : (old.map (·.url)).Nodup)
    (hn : (new.map (·.url)).Nodup) {r n : Image} (hr : r ∈ gathered old new) (hmem : n ∈ new)
    (hurl : r.url = n.url) : Unlabelled old r n := by
  unfold Unlabelled
  rcases List.mem_append.1 hr with h | h
  · -- a kept image has the label that it is stored with
    have hfind := find?_url ho (List.mem_filter.1 h).1
    rw [hurl] at hfind
    rw [hfind]
  · obtain ⟨hnew, hnot⟩ := List.mem_filter.1 h
    have hnot : n.url ∉ old.map (·.url) := by
      rw [← hurl]
      simpa using hnot
    have hnone : old.find? (fun i => i.url == n.url) = none := by
      apply List.find?_eq_none.2
      intro i hi he
      exact hnot (List.mem_map.2 ⟨i, hi, eq_of_beq he⟩)
    rw [hnone]
    show r.label = n.label
    rw [List.inj_on_of_nodup_map hn hnew hmem hurl]

/-- The removals and the additions. -/
def gatherActions (v : Variant) (d : VariantDraft) : List ProductAction :=
  ((v.images.map (·.url)).filter fun u => !(d.images.map (·.url)).contains u).map
      (.removeImage v.id) ++
    (d.images.filter fun i => !(v.images.map (·.url)).contains i.url).map (.addExternalImage v.id)

theorem replay_gatherActions (v : Variant) (d : VariantDraft) :
    replay images (gatherActions v d) v.images = gathered v.images d.images := by
  rw [gatherActions, replay_append, replay_removeImage, replay_addExternalImage, gathered]

/-- The moves, reckoned against the urls that the actions before them leave. -/
def orderActions (v : Variant) (d : VariantDraft) : List ProductAction :=
  moveActions v.id 0 ((gathered v.images d.images).map (·.url)) (d.images.map (·.url))

theorem imageActions_eq (v : Variant) (d : VariantDraft) :
    imageActions v d =
      gatherActions v d ++ orderActions v d ++ d.images.flatMap (labelActions v.id v.images) := by
  have hkept : (v.images.map (·.url)).filter (d.images.map (·.url)).contains =
      (v.images.filter fun i => (d.images.map (·.url)).contains i.url).map (·.url) :=
    List.filter_map
  unfold imageActions orderActions
  simp only [hkept, gathered, List.map_append]
  rfl

/-- The moves start from the images that are gathered, with none of them in place. -/
theorem replay_orderActions {v : Variant} {d : VariantDraft} (hd : (d.images.map (·.url)).Nodup) :
    Along images Forward (orderActions v d) (gathered v.images d.images) ∧
    ∃ placed surplus,
      replay images (orderActions v d) (gathered v.images d.images) = placed ++ surplus ∧
      placed.map (·.url) = d.images.map (·.url) ∧
      (placed ++ surplus).Perm (gathered v.images d.images) := by
  have htargets : ∀ t ∈ d.images.map (·.url),
      t ∈ (gathered v.images d.images).map (·.url) ∧ t ∉ ([] : List Image).map (·.url) :=
    fun t ht => ⟨mem_gathered_urls hd ht, List.not_mem_nil⟩
  exact @replay_moveActions v.id _ [] _ hd htargets

/-- The actions on the images of a variant lead to the images of its draft. -/
theorem replay_imageActions {v : Variant} {d : VariantDraft} (hv : (v.images.map (·.url)).Nodup)
    (hd : (d.images.map (·.url)).Nodup) :
    (replay images (imageActions v d) v.images).map face = d.images.map face := by
  obtain ⟨-, placed, surplus, hmoves, hplaced, hrest⟩ := replay_orderActions (v := v) hd
  -- the targets are all the urls there are, so the moves leave nothing behind them
  have hsurplus : surplus = [] := by
    have hlen := hrest.length_eq
    have hlen' := (perm_gathered_urls hv hd).length_eq
    have hlen'' := congrArg List.length hplaced
    simp only [List.length_map, List.length_append] at hlen hlen' hlen''
    exact List.length_eq_zero_iff.1 (by omega)
  rw [hsurplus, List.append_nil] at hmoves hrest
  rw [imageActions_eq, replay_append, replay_append, replay_gatherActions, hmoves]
  refine @replay_labels v.id v.images d.images [] placed ?_ hplaced ?_
  · rw [List.nil_append, hplaced]
    exact hd
  · intro r hr n hn hurl
    exact unlabelled_gathered hv hd (hrest.mem_iff.1 hr) hn hurl

theorem moveActions_self (id : UInt32) (targets ds : List String) :
    moveActions id ds.length (ds ++ targets) targets = [] := by
  induction targets generalizing ds with
  | nil => rfl
  | cons t targets ih =>
    have hnext := ih (ds ++ [t])
    rw [List.length_append, List.append_assoc] at hnext
    rw [moveActions, if_pos (by simp)]
    exact hnext

/-- Images with one url have one label. -/
def OneLabel (xs : List Image) : Prop := ∀ i ∈ xs, ∀ j ∈ xs, i.url = j.url → i.label = j.label

instance (xs : List Image) : Decidable (OneLabel xs) :=
  inferInstanceAs (Decidable (∀ i ∈ xs, ∀ j ∈ xs, _))

theorem oneLabel_of_nodup {xs : List Image} (h : (xs.map (·.url)).Nodup) : OneLabel xs := by
  intro i hi j hj hurl
  rw [List.inj_on_of_nodup_map h hi hj hurl]

/-- Images that look as the draft wants them call for no action. -/
theorem imageActions_eq_nil {v : Variant} {d : VariantDraft}
    (h : v.images.map face = d.images.map face) (hd : OneLabel d.images) :
    imageActions v d = [] := by
  have hurls : v.images.map (·.url) = d.images.map (·.url) := by
    have := congrArg (List.map Prod.fst) h
    simpa [face, Function.comp_def] using this
  have hall : ∀ i ∈ d.images, (d.images.map (·.url)).contains i.url = true :=
    fun i hi => List.contains_iff_mem.2 (List.mem_map.2 ⟨i, hi, rfl⟩)
  have hadded : (d.images.filter fun i => !(d.images.map (·.url)).contains i.url) = [] := by
    apply List.filter_eq_nil_iff.2
    intro i hi
    rw [hall i hi]
    exact Bool.false_ne_true
  have hlabels : d.images.flatMap (labelActions v.id v.images) = [] := by
    apply List.flatMap_eq_nil_iff.2
    intro n hn
    unfold labelActions
    cases hf : v.images.find? fun i => i.url == n.url with
    | none => rfl
    | some i =>
      -- the first image with the url looks like one of the draft, so it has the label of the url
      obtain ⟨j, hj, he⟩ := List.mem_map.1 (h ▸ List.mem_map_of_mem (List.mem_of_find?_eq_some hf) :
        face i ∈ d.images.map face)
      obtain ⟨hu, hl⟩ := Prod.mk.inj he
      have hin : i.url = n.url := by simpa using List.find?_some hf
      show whenChanged i.label n.label _ = []
      rw [← hl, hd j hj n hn (hu.trans hin), whenChanged, if_pos (beq_self_eq_true _)]
  have hkept : (d.images.map (·.url)).filter (d.images.map (·.url)).contains =
      d.images.map (·.url) := List.filter_eq_self.2 fun u hu => List.contains_iff_mem.2 hu
  have hdropped : ((d.images.map (·.url)).filter
      fun u => !(d.images.map (·.url)).contains u) = [] := by
    apply List.filter_eq_nil_iff.2
    intro u hu
    simp [hu]
  unfold imageActions
  simp only [hurls, hadded, hlabels, hkept, hdropped, List.map_nil, List.append_nil]
  exact moveActions_self v.id (d.images.map (·.url)) []

end CatalogSync.Diff
