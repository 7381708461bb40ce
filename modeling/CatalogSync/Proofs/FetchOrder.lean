import CatalogSync.Proofs.Siblings
import CatalogSync.Proofs.Pairing

/- Matching by key, and the order of fetched entities. The index of the entities and a scan from the
   end of their list give every draft the same match (`matchDraft_eq_scan`), which is the only one
   there can be (`matchesLast_iff`). No two entities of an answer of the service in memory have one
   key (`nodup_fetched`), so it does not matter in which order it lists them, neither for the
   matching (`matchDrafts_scans`) nor for a whole run (`run_walking`). -/
namespace CatalogSync

variable {K : Kind} {σ : Type}

/-! ### Scans from the end -/

/-- A scan from the end finds an element behind which no other passes the test. -/
theorem findRev?_eq_some {α : Type} {p : α → Bool} {xs : List α} {x : α} :
    xs.findRev? p = some x ↔
      p x = true ∧ ∃ before after, xs = before ++ x :: after ∧ ∀ y ∈ after, p y = false := by
  rw [List.findRev?_eq_find?_reverse, List.find?_eq_some_iff_append]
  simp only [Bool.not_eq_true']
  refine and_congr_right fun _ => ⟨?_, ?_⟩
  · rintro ⟨after, before, turned, last⟩
    refine ⟨before.reverse, after.reverse, ?_, fun y there => last y (List.mem_reverse.1 there)⟩
    rw [← List.reverse_reverse xs, turned]
    simp
  · rintro ⟨before, after, rfl, last⟩
    exact ⟨after.reverse, before.reverse, by simp, fun y there => last y (List.mem_reverse.1 there)⟩

theorem findRev?_eq_none {α : Type} {p : α → Bool} {xs : List α} :
    xs.findRev? p = none ↔ ∀ x ∈ xs, p x = false := by
  rw [List.findRev?_eq_find?_reverse, List.find?_eq_none]
  simp

/-! ### The last entity with a key -/

namespace Kind

/-- The draft and the entity have a key, and it is the same one. -/
def SharesKey (K : Kind) (d : K.Draft) (e : K.Entity) : Prop :=
  ∃ key, K.draftKey d = some key ∧ K.entityKey e = some key

theorem sharesKey_iff {d : K.Draft} {e : K.Entity} :
    K.SharesKey d e ↔ (K.draftKey d).isSome ∧ K.entityKey e = K.draftKey d := by
  constructor
  · rintro ⟨key, drafted, stored⟩
    rw [drafted, stored]
    exact ⟨rfl, rfl⟩
  · rintro ⟨keyed, same⟩
    obtain ⟨key, drafted⟩ := Option.isSome_iff_exists.1 keyed
    exact ⟨key, drafted, same.trans drafted⟩

instance (d : K.Draft) (e : K.Entity) : Decidable (K.SharesKey d e) :=
  decidable_of_iff _ sharesKey_iff.symm

end Kind

/-- Scans the entities from the end of their list for one that shares its key with the draft. -/
def scanMatch (existing : List K.Entity) (d : K.Draft) : Matched K :=
  match existing.findRev? fun e => K.SharesKey d e with
  | some e => .update e d
  | none => .create d

/-- What is to be done with a draft: the last of the entities that share its key is updated, and
    without such an entity the draft is created. -/
inductive MatchesLast (existing : List K.Entity) (d : K.Draft) : Matched K → Prop
  | update {before after : List K.Entity} {e : K.Entity} (split : existing = before ++ e :: after)
    (shared : K.SharesKey d e) (last : ∀ x ∈ after, ¬ K.SharesKey d x) :
    MatchesLast existing d (.update e d)
  | create (free : ∀ e ∈ existing, ¬ K.SharesKey d e) : MatchesLast existing d (.create d)

section Scanning

variable {existing : List K.Entity} {d : K.Draft}

/-- The index leads from the key of a draft to the entity that a scan from the end finds. -/
theorem get?_index_eq_findRev? (existing : List K.Entity) (d : K.Draft) :
    (K.draftKey d).bind (SortedMap.indexBy K.entityKey existing).get? =
      existing.findRev? fun e => K.SharesKey d e := by
  cases drafted : K.draftKey d with
  | none =>
    have free : ∀ e ∈ existing, decide (K.SharesKey d e) = false := by
      rintro e -
      exact decide_eq_false fun shared => by simpa [drafted] using (Kind.sharesKey_iff.1 shared).1
    exact (findRev?_eq_none.2 free).symm
  | some key =>
    have same : (fun e => decide (K.entityKey e = some key)) =
        fun e => decide (K.SharesKey d e) := by
      funext e
      simp [Kind.sharesKey_iff, drafted]
    rw [Option.bind_some, SortedMap.get?_indexBy, List.findRev?_eq_find?_reverse, same]

theorem matchDraft_eq_scan (existing : List K.Entity) (d : K.Draft) :
    matchDraft K (SortedMap.indexBy K.entityKey existing) d = scanMatch existing d := by
  have found := get?_index_eq_findRev? existing d
  unfold matchDraft scanMatch
  cases scanned : existing.findRev? fun e => K.SharesKey d e with
  | some e => simp only [found, scanned]
  | none => simp only [found, scanned]

theorem matchDrafts_eq_scan (existing : List K.Entity) (drafts : List K.Draft) :
    matchDrafts K existing drafts = drafts.map (scanMatch existing) :=
  List.map_congr_left fun d _ => matchDraft_eq_scan existing d

/-- A draft has one match, which is the one that the scan finds. -/
theorem matchesLast_iff {r : Matched K} : MatchesLast existing d r ↔ scanMatch existing d = r := by
  constructor
  · rintro (@⟨before, after, e, split, shared, last⟩ | free)
    · have found : existing.findRev? (fun e => K.SharesKey d e) = some e :=
        findRev?_eq_some.2 ⟨decide_eq_true shared, before, after, split,
          fun x there => decide_eq_false (last x there)⟩
      simp only [scanMatch, found]
    · have found : existing.findRev? (fun e => K.SharesKey d e) = none :=
        findRev?_eq_none.2 fun e there => decide_eq_false (free e there)
      simp only [scanMatch, found]
  · rintro rfl
    unfold scanMatch
    cases found : existing.findRev? fun e => K.SharesKey d e with
    | some e =>
      obtain ⟨shared, before, after, split, last⟩ := findRev?_eq_some.1 found
      exact .update split (of_decide_eq_true shared)
        fun x there => of_decide_eq_false (last x there)
    | none => exact .create fun e there => of_decide_eq_false (findRev?_eq_none.1 found e there)

/-- Drafts have one list of matches. -/
theorem forall₂_matchesLast_iff {drafts : List K.Draft} {results : List (Matched K)} :
    List.Forall₂ (MatchesLast existing) drafts results ↔
      matchDrafts K existing drafts = results := by
  have single : MatchesLast existing = fun d r => scanMatch existing d = r :=
    funext₂ fun _ _ => propext matchesLast_iff
  rw [single, matchDrafts_eq_scan, ← List.forall₂_eq_eq_eq, List.forall₂_map_left_iff]

/-- Entities without a key have no part in the matching. -/
theorem matchDrafts_keyed (existing : List K.Entity) (drafts : List K.Draft) :
    matchDrafts K (existing.filter fun e => (K.entityKey e).isSome) drafts =
      matchDrafts K existing drafts := by
  have index : SortedMap.indexBy K.entityKey (existing.filter fun e => (K.entityKey e).isSome) =
      SortedMap.indexBy K.entityKey existing := by
    unfold SortedMap.indexBy
    rw [List.filterMap_filter]
    congr 2
    funext e
    cases K.entityKey e <;> rfl
  rw [matchDrafts, index, ← matchDrafts]

/-- A draft without a key is created. -/
theorem matchDrafts_of_keyless (existing : List K.Entity) (keyless : K.draftKey d = none) :
    matchDrafts K existing [d] = [.create d] := by
  refine forall₂_matchesLast_iff.1 (.cons (.create ?_) .nil)
  rintro e - ⟨key, drafted, -⟩
  rw [keyless] at drafted
  cases drafted

end Scanning

/-! ### Entities in another order -/

/-- While keys tell the entities apart, their order does not matter for the matching. -/
theorem matchDrafts_perm {existing listed : List K.Entity}
    (apart : (existing.filterMap K.entityKey).Nodup) (order : listed.Perm existing)
    (drafts : List K.Draft) : matchDrafts K listed drafts = matchDrafts K existing drafts := by
  rw [matchDrafts, Edit.indexBy_perm apart order, ← matchDrafts]

namespace Memory

variable {m : Memory K}

/-- No two entities of an answer have one key. -/
theorem OwnKeys.nodup_fetched (own : m.OwnKeys) {keys : SortedSet String} {es : List K.Entity}
    (answer : (fetchMatching keys m).1 = .ok es) : (es.map K.entityKey).Nodup := by
  rw [fetchMatching_ok answer]
  exact own.nodup_found keys.nodup_toList

end Memory

/-- **Matching is a scan for the last entity with the key of a draft.** Every draft has one match,
    in the order of the drafts, whether or not drafts share a key: the last of the entities that
    share its key is updated, and without such an entity the draft is created; nothing else is a
    match of the drafts. Entities without a key could as well be left out, and a draft without a key
    is created. While keys tell the entities apart, they may be listed in any order. So it is with
    the answers of the service in memory: no two entities of an answer have one key, and in whatever
    order they are listed, or the keys of the fetch are walked, the matches are the same. -/
theorem matchDrafts_scans (K : Kind) (existing : List K.Entity) (drafts : List K.Draft) :
    let matched := matchDrafts K existing drafts
    matched = drafts.map (scanMatch existing) ∧
    (∀ results, List.Forall₂ (MatchesLast existing) drafts results ↔ matched = results) ∧
    matchDrafts K (existing.filter fun e => (K.entityKey e).isSome) drafts = matched ∧
    (∀ d, K.draftKey d = none → matchDrafts K existing [d] = [.create d]) ∧
    ((existing.filterMap K.entityKey).Nodup → ∀ listed, listed.Perm existing →
      matchDrafts K listed drafts = matched) ∧
    ∀ [LawfulKind K] (m : Memory K), m.Reachable → ∀ keys es,
      (Memory.fetchMatching keys m).1 = .ok es →
      (es.map K.entityKey).Nodup ∧
      (∀ listed, listed.Perm es → matchDrafts K listed drafts = matchDrafts K es drafts) ∧
      ∀ walk : List String, walk.Perm keys.toList →
        matchDrafts K (walk.filterMap m.get?) drafts = matchDrafts K es drafts := by
  intro matched
  refine ⟨matchDrafts_eq_scan existing drafts, fun results => forall₂_matchesLast_iff,
    matchDrafts_keyed existing drafts, fun d => matchDrafts_of_keyless existing,
    fun apart listed order => matchDrafts_perm apart order drafts, ?_⟩
  intro lawful m reachable keys es answer
  have once := reachable.ownKeys.nodup_fetched answer
  have apart := Edit.nodup_filterMap_of_map once
  refine ⟨once, fun listed order => matchDrafts_perm apart order drafts, fun walk order => ?_⟩
  have found : (walk.filterMap m.get?).Perm es := by
    rw [Memory.fetchMatching_ok answer]
    exact order.filterMap m.get?
  exact matchDrafts_perm apart found drafts

/-- A product with a key, or without one, at a version. -/
def productAt (key : Option String) (version : UInt64) : Product :=
  { Product.ofDraft (.ofNat 7) (.of "" .empty .empty) with key, version }

/-- Products of which two have one key, and one has none. -/
def crossedProducts : List Product :=
  [productAt (some "p") 1, productAt none 1, productAt (some "p") 7, productAt (some "q") 1]

/-- Drafts of which two have the key of a product, one has none, and one is new. -/
def crossedDrafts : List ProductDraft :=
  let draft : ProductDraft := .of "p" .empty .empty
  [draft, draft.withPublish true, { draft with key := none }, .of "r" .empty .empty]

theorem matchDrafts_scans_crossed :
    let draft : ProductDraft := .of "p" .empty .empty
    let last := productAt (some "p") 7
    let apart := crossedProducts.tail
    let m : Memory .product := .ofEntities crossedProducts
    let es := [last, productAt (some "q") 1]
    matchDrafts .product crossedProducts crossedDrafts =
        [.update last draft, .update last (draft.withPublish true),
          .create { draft with key := none }, .create (.of "r" .empty .empty)] ∧
      (apart.filterMap Kind.product.entityKey).Nodup ∧
      matchDrafts .product apart.reverse crossedDrafts = matchDrafts .product apart crossedDrafts ∧
      m.Reachable ∧ (Memory.fetchMatching (.ofList ["p", "q", "r"]) m).1 = .ok es ∧
      matchDrafts .product (["q", "r", "p"].filterMap m.get?) crossedDrafts =
        matchDrafts .product es crossedDrafts := by
  intro draft last apart m es
  obtain ⟨-, unique, -⟩ := matchDrafts_scans .product crossedProducts crossedDrafts
  obtain ⟨-, -, -, -, reordered, fetched⟩ := matchDrafts_scans .product apart crossedDrafts
  have distinct : (apart.filterMap Kind.product.entityKey).Nodup := by decide
  have reachable : m.Reachable := @Memory.Reachable.ofEntities .product crossedProducts
  have answer : (Memory.fetchMatching (.ofList ["p", "q", "r"]) m).1 = .ok es := rfl
  obtain ⟨-, -, walked⟩ := fetched m reachable _ es answer
  have newest (d : ProductDraft) (drafted : d.key = some "p") :
      @MatchesLast .product crossedProducts d (.update last d) := by
    refine @MatchesLast.update .product _ d [_, _] [_] last rfl ⟨"p", drafted, rfl⟩ ?_
    rintro x there ⟨key, again, stored⟩
    rw [List.mem_singleton.1 there] at stored
    have same : some "q" = some "p" := stored.trans (again.symm.trans drafted)
    exact absurd same (by decide)
  have matched := (unique _).1 (.cons (newest draft rfl)
    (.cons (newest (draft.withPublish true) rfl)
      (.cons (.create (by decide)) (.cons (.create (by decide)) .nil))))
  exact ⟨matched, distinct, reordered distinct _ (List.reverse_perm _), reachable, answer,
    walked _ (by decide)⟩

/-! ### Runs -/

/-- Entries of two journals say the same, but a fetch may list the entities in another order. -/
inductive Entry.Alike : Entry K → Entry K → Prop
  | same (x : Entry K) : Alike x x
  | listed {keys : SortedSet String} {es es' : List K.Entity} (order : es'.Perm es) :
    Alike (.fetchMatching keys (.ok es')) (.fetchMatching keys (.ok es))

/-- Two outcomes are the same, but fetches may list the entities in another order. -/
structure Outcome.Alike (o' o : Outcome K σ) : Prop where
  world : o'.world = o.world
  tally : o'.tally = o.tally
  journal : List.Forall₂ Entry.Alike o'.journal o.journal

namespace Outcome.Alike

theorem refl (o : Outcome K σ) : Alike o o := ⟨rfl, rfl, List.forall₂_same.2 fun x _ => .same x⟩

theorem andThen {o' o : Outcome K σ} {next' next : σ → Outcome K σ} (h : Alike o' o)
    (h' : Alike (next' o.world) (next o.world)) :
    Alike (o'.andThen next') (o.andThen next) := by
  have rest : Alike (next' o'.world) (next o.world) := by
    rw [h.world]
    exact h'
  exact ⟨rest.world, congrArg₂ (· + ·) h.tally rest.tally, List.rel_append h.journal rest.journal⟩

/-- Alike outcomes report the same events. -/
theorem events {o' o : Outcome K σ} (h : Alike o' o) : o'.events = o.events := by
  have told {x y : Entry K} (alike : Entry.Alike x y) : x.event? = y.event? := by
    cases alike <;> rfl
  have journal := h.journal
  unfold Outcome.events
  generalize o'.journal = xs, o.journal = ys at journal
  induction journal with
  | nil => rfl
  | cons alike _ ih => rw [List.filterMap_cons, List.filterMap_cons, told alike, ih]

/-- Steps that are alike where an invariant holds, which they keep, are alike in a sequence. -/
theorem sequence {α : Type} {step' step : α → σ → Outcome K σ} {P : σ → Prop}
    (alike : ∀ a w, P w → Alike (step' a w) (step a w)) (keeps : ∀ a w, P w → P (step a w).world)
    (as : List α) {w : σ} (start : P w) :
    Alike (Outcome.sequence step' as w) (Outcome.sequence step as w) := by
  induction as generalizing w with
  | nil => exact refl _
  | cons a as ih => exact (alike a w start).andThen (ih (keeps a w start))

end Outcome.Alike

/-- The service in memory, with an order of its own in which a fetch walks the keys. -/
def Memory.walkingService (walk : SortedSet String → Memory K → List String) :
    Service K (Memory K) :=
  { Memory.service with
    fetchMatching := fun keys m =>
      let (answer, m') := fetchMatching keys m
      (answer.map fun _ => (walk keys m).filterMap m.get?, m') }

namespace Sync

open Memory

variable {options : Options K (Memory K)} {walk : SortedSet String → Memory K → List String}

/-- A record does not fetch the entities of a batch. -/
theorem record_walking (options : Options K (Memory K))
    (walk : SortedSet String → Memory K → List String) :
    record (walkingService walk) options = record Memory.service options := by
  funext matched
  cases matched <;> rfl

/-- The records of a batch do not depend on the order in which the entities are listed. -/
theorem records_walking (walks : ∀ keys m, (walk keys m).Perm keys.toList) (v : Validated K)
    {m : Memory K} (own : m.OwnKeys) :
    (records (walkingService walk) options v m).Alike (records Memory.service options v m) := by
  rcases fetch : fetchMatching v.keys m with ⟨error | es, m'⟩
  · have fetch' : (walkingService walk).fetchMatching v.keys m = (.error error, m') := by
      simp only [walkingService, fetch]
      rfl
    rw [records_of_error _ _ fetch', records_of_error Memory.service options fetch]
    exact .refl _
  · have fetch' : (walkingService walk).fetchMatching v.keys m =
        (.ok ((walk v.keys m).filterMap m.get?), m') := by
      simp only [walkingService, fetch]
      rfl
    have answer : (fetchMatching v.keys m).1 = .ok es := by rw [fetch]
    have order : ((walk v.keys m).filterMap m.get?).Perm es := by
      rw [fetchMatching_ok answer]
      exact (walks v.keys m).filterMap m.get?
    have apart := Edit.nodup_filterMap_of_map (own.nodup_fetched answer)
    rw [records_of_ok _ _ fetch', records_of_ok Memory.service options fetch, record_walking,
      matchDrafts_perm apart order]
    exact .andThen ⟨rfl, rfl, .cons (.listed order) .nil⟩ (.refl _)

theorem batch_walking (walks : ∀ keys m, (walk keys m).Perm keys.toList)
    (drafts : List (Option K.Draft)) {m : Memory K} (own : m.OwnKeys) :
    (batch (walkingService walk) options drafts m).Alike
      (batch Memory.service options drafts m) := by
  refine .andThen (.refl _) ?_
  split
  · exact .refl _
  · exact records_walking walks _ own

/-- **A run does not depend on the order in which entities are fetched.** Let the hooks, like the
    calls, leave every entity under its own key. If every fetch walks the keys in an order of its
    own, the run still makes the same calls one after the other, with the same answers up to the
    order of fetched entities; it counts and reports the same, and leaves the same behind. -/
theorem run_walking (walks : ∀ keys m, (walk keys m).Perm keys.toList)
    (keeps : Carried Memory.service options fun m _ m' => m.OwnKeys → m'.OwnKeys)
    (drafts : List (Option K.Draft)) {m : Memory K} (own : m.OwnKeys) :
    let o' := run (walkingService walk) options drafts m
    let o := run Memory.service options drafts m
    o'.Alike o ∧ o'.events = o.events := by
  intro o' o
  have alike : o'.Alike o := .sequence (P := OwnKeys) (fun batch _ => batch_walking walks batch)
    (fun batch m => keeps.batch batch m) _ own
  exact ⟨alike, alike.events⟩

end Sync

end CatalogSync
