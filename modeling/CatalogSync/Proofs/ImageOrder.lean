import CatalogSync.Proofs.Images

/- The order of images. The draft never repeats a url, but a variant may have stored one several
   times. The first image with a url is then the one that is put in place, and the others stay
   behind the images of the draft. No action takes an image back, and no url is moved twice.
   Main statement: `imageActions_rearranges`. -/
namespace CatalogSync.Diff

open CatalogSync.Edit

/-! ### Labels -/

theorem setImageLabel_urls (id : UInt32) (url : String) (label : Option String)
    (xs : List Image) : (images (.setImageLabel id url label) xs).map (·.url) = xs.map (·.url) :=
  map_changeFirst (f := fun i : Image => { i with label }) (fun _ => rfl) xs

theorem replay_labelActions_urls {id : UInt32} {old : List Image} (news xs : List Image) :
    (replay images (news.flatMap (labelActions id old)) xs).map (·.url) = xs.map (·.url) := by
  refine replay_kept (f := fun xs : List Image => xs.map (·.url)) ?_ xs
  intro a ha ys
  obtain ⟨n, -, hn⟩ := List.mem_flatMap.1 ha
  rw [labelActions_mem hn, setImageLabel_urls]

/-! ### Moves -/

/-- The url that an action moves. -/
def moved? : ProductAction → Option String
  | .moveImageToPosition _ url _ => some url
  | _ => none

/-- The moves name targets, in their order. -/
theorem moveActions_sublist (id : UInt32) (targets : List String) :
    ∀ (position : Nat) (current : List String),
      ((moveActions id position current targets).filterMap moved?).Sublist targets := by
  induction targets with
  | nil => exact fun _ _ => .slnil
  | cons t targets ih =>
    intro position current
    rw [moveActions]
    split
    · exact (ih ..).cons t
    · split
      · exact (ih ..).cons_cons t
      · exact (ih ..).cons t

theorem moved?_gatherActions {v : Variant} {d : VariantDraft} {a : ProductAction}
    (h : a ∈ gatherActions v d) : moved? a = none := by
  rcases List.mem_append.1 h with h | h
  · obtain ⟨_, -, rfl⟩ := List.mem_map.1 h
    rfl
  · obtain ⟨_, -, rfl⟩ := List.mem_map.1 h
    rfl

theorem moved?_labelActions {id : UInt32} {old news : List Image} {a : ProductAction}
    (h : a ∈ news.flatMap (labelActions id old)) : moved? a = none := by
  obtain ⟨_, -, h⟩ := List.mem_flatMap.1 h
  rw [labelActions_mem h]
  rfl

theorem forward_of_moved?_eq_none {a : ProductAction} (h : moved? a = none) (xs : List Image) :
    Forward a xs := by
  unfold Forward
  split
  · cases h
  · trivial

/-! ### All actions on images -/

/-- What the actions of a plan do to the images `old` of a variant, if the draft wants `new`. -/
structure Rearranges (old new : List Image) (actions : List ProductAction) : Prop where
  /-- The images of the draft come first, in its order. What follows are repeats: an image for
      each time that `old` has a url of the draft again. -/
  urls : ∃ surplus : List String,
    (replay images actions old).map (·.url) = new.map (·.url) ++ surplus ∧
    ∀ u, surplus.count u =
      if u ∈ new.map (·.url) then (old.map (·.url)).count u - 1 else 0
  /-- Without repeats, nothing but the images of the draft is left. -/
  faces : (old.map (·.url)).Nodup → (replay images actions old).map face = new.map face
  /-- Every move takes an image from further back to a position of the list. -/
  forward : Along images Forward actions old
  /-- No url is moved twice. -/
  once : (actions.filterMap moved?).Nodup
  /-- Without repeats, there are no actions just if the images look as the draft wants them. -/
  nil_iff : (old.map (·.url)).Nodup → (actions = [] ↔ old.map face = new.map face)

theorem replay_imageActions_urls {v : Variant} {d : VariantDraft}
    (hd : (d.images.map (·.url)).Nodup) :
    ∃ surplus : List String,
      (replay images (imageActions v d) v.images).map (·.url) =
        d.images.map (·.url) ++ surplus ∧
      ∀ u, surplus.count u =
        if u ∈ d.images.map (·.url) then (v.images.map (·.url)).count u - 1 else 0 := by
  obtain ⟨-, placed, surplus, hmoves, hplaced, hrest⟩ := replay_orderActions (v := v) hd
  refine ⟨surplus.map (·.url), ?_, ?_⟩
  · rw [imageActions_eq, replay_append, replay_append, replay_gatherActions, hmoves,
      replay_labelActions_urls, List.map_append, hplaced]
  · intro u
    -- each url of the draft is used up once
    have hcount := (hrest.map (·.url)).count_eq u
    rw [List.map_append, List.count_append, hplaced, hd.count, count_gathered_urls hd] at hcount
    by_cases hu : u ∈ d.images.map (·.url)
    · rw [if_pos hu, if_pos hu] at hcount
      rw [if_pos hu]
      omega
    · rw [if_neg hu, if_neg hu] at hcount
      rw [if_neg hu]
      omega

theorem forward_imageActions {v : Variant} {d : VariantDraft}
    (hd : (d.images.map (·.url)).Nodup) : Along images Forward (imageActions v d) v.images := by
  have hgather : Along images Forward (gatherActions v d) v.images :=
    along_of_forall (fun _ ha => forward_of_moved?_eq_none (moved?_gatherActions ha)) _
  have hlabels : ∀ xs, Along images Forward (d.images.flatMap (labelActions v.id v.images)) xs :=
    along_of_forall fun _ ha => forward_of_moved?_eq_none (moved?_labelActions ha)
  rw [imageActions_eq, along_append, along_append, replay_gatherActions]
  exact ⟨⟨hgather, (replay_orderActions hd).1⟩, hlabels _⟩

theorem moved_imageActions {v : Variant} {d : VariantDraft} :
    ((imageActions v d).filterMap moved?).Sublist (d.images.map (·.url)) := by
  rw [imageActions_eq, List.filterMap_append, List.filterMap_append,
    List.filterMap_eq_nil_iff.2 fun _ => moved?_gatherActions,
    List.filterMap_eq_nil_iff.2 fun _ => moved?_labelActions, List.nil_append, List.append_nil]
  exact moveActions_sublist ..

/-- The actions on the images of a variant bring them into the order of the draft. -/
theorem imageActions_rearranges {v : Variant} {d : VariantDraft}
    (hd : (d.images.map (·.url)).Nodup) : Rearranges v.images d.images (imageActions v d) where
  urls := replay_imageActions_urls hd
  faces hv := replay_imageActions hv hd
  forward := forward_imageActions hd
  once := hd.sublist moved_imageActions
  nil_iff hv := by
    constructor
    · intro h
      have hreplay := replay_imageActions hv hd
      rwa [h, replay_nil] at hreplay
    · exact fun h => imageActions_eq_nil h (oneLabel_of_nodup hd)

/-- A variant that has stored the url `a` three times. -/
def repeatedImages : Variant :=
  .ofDraft 7 { VariantDraft.empty with images := [.of "a", .of "b", .of "c", .of "a", .of "a"] }

/-- One image is gone, one is new, and the others are swapped. -/
def swappedImages : VariantDraft :=
  { VariantDraft.empty with images := [⟨"c", none, some "front"⟩, .of "d", .of "a"] }

theorem imageActions_rearranges_repeated :
    (swappedImages.images.map (·.url)).Nodup ∧
    Rearranges repeatedImages.images swappedImages.images
      (imageActions repeatedImages swappedImages) :=
  ⟨by decide, imageActions_rearranges (by decide)⟩

/-- Both repeats are left behind the images of the draft. -/
example : (replay images (imageActions repeatedImages swappedImages) repeatedImages.images).map
    (·.url) = ["c", "d", "a", "a", "a"] := by decide

end CatalogSync.Diff
