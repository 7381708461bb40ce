import CatalogSync.Sync.Journal
import CatalogSync.Sync.Matching
import CatalogSync.Sync.Service
import CatalogSync.Sync.Statistics

/- The run of a sync. The drafts are cut into batches. A batch is validated, the entities stored
   under its keys are fetched in one call, and then its records are taken: a draft without a stored
   entity is created, the others are updated with the actions of their diff. An update that meets a
   concurrent modification is tried once more on a freshly fetched entity. A failure ends the record
   it occurs in, never the run.
   The records of a batch are started together. Here each one comes to its end before the next one
   takes its first step, which is what happens with a service that answers without keeping the
   caller waiting. What happens with any other service is in `Schedule`. -/
namespace CatalogSync

/-- What a part of a run leaves behind: the world after it, what it counted and its journal. -/
structure Outcome (K : Kind) (σ : Type) where
  world : σ
  tally : Tally
  journal : List (Entry K)

namespace Outcome

variable {K : Kind} {σ : Type}

/-- Nothing happens. -/
def idle (w : σ) : Outcome K σ := ⟨w, .zero, []⟩

/-- Goes on from the world of an outcome, adding to its tally and journal. -/
def andThen (o : Outcome K σ) (next : σ → Outcome K σ) : Outcome K σ :=
  let p := next o.world
  ⟨p.world, o.tally + p.tally, o.journal ++ p.journal⟩

/-- Takes steps one after the other. -/
def sequence {α : Type} (step : α → σ → Outcome K σ) : List α → σ → Outcome K σ
  | [], w => idle w
  | a :: as, w => (step a w).andThen (sequence step as)

end Outcome

namespace Sync

variable {K : Kind} {σ : Type} (service : Service K σ) (options : Options K σ)

/-! ### Creating -/

/-- The draft that is to be created, after the hook, and what the hook left behind. -/
def draftToCreate (draft : K.Draft) (w : σ) : Option K.Draft × Outcome K σ :=
  match options.beforeCreate with
  | none => (some draft, .idle w)
  | some hook =>
    let (hooked, w) := hook draft w
    (hooked, ⟨w, .zero, [.beforeCreate draft hooked]⟩)

/-- A single create call. -/
def callCreate (draft : K.Draft) (w : σ) : Outcome K σ :=
  match service.create draft w with
  | (.ok entity, w) => ⟨w, .ofCreated 1, [.create draft (.ok entity)]⟩
  | (.error error, w) =>
    ⟨w, .ofFailed 1, [.create draft (.error error), .event (.createFailed draft error)]⟩

/-- A record without a stored entity: at most one create call. -/
def create (draft : K.Draft) (w : σ) : Outcome K σ :=
  match draftToCreate options draft w with
  | (none, o) => o
  | (some draft, o) => o.andThen (callCreate service draft)

/-! ### Updating -/

/-- The actions that are to be sent, and what finding them left behind: the issues of the diff are
    reported, and a list that is not empty goes through the hook. -/
def actionsToSend (existing : K.Entity) (draft : K.Draft) (w : σ) : List K.Action × Outcome K σ :=
  let plan := K.plan options.config existing draft
  let reported := plan.issues.map fun i => .event (.issue existing draft i)
  match options.beforeUpdate with
  | none => (plan.actions, ⟨w, .zero, reported⟩)
  | some hook =>
    if plan.actions.isEmpty then (plan.actions, ⟨w, .zero, reported⟩)
    else
      let (actions, w) := hook plan.actions draft existing w
      (actions, ⟨w, .zero, reported ++ [.beforeUpdate plan.actions draft existing actions]⟩)

/-- The end of a record whose update failed. -/
def failUpdate (existing : K.Entity) (draft : K.Draft) (actions : List K.Action) (error : SyncError)
    (w : σ) : Outcome K σ :=
  ⟨w, .ofFailed 1, [.event (.updateFailed existing draft actions error)]⟩

/-- The one update call of the second try; its result is final. -/
def callLastUpdate (existing : K.Entity) (draft : K.Draft) (actions : List K.Action) (w : σ) :
    Outcome K σ :=
  match service.update existing actions w with
  | (.ok entity, w) => ⟨w, .ofUpdated 1, [.update existing actions (.ok entity)]⟩
  | (.error error, w) =>
    Outcome.andThen ⟨w, .zero, [.update existing actions (.error error)]⟩
      (failUpdate existing draft actions error)

/-- The second try of an update, on a freshly fetched entity. -/
def retryUpdate (stale : K.Entity) (draft : K.Draft) (w : σ) : Outcome K σ :=
  let key := (K.draftKey draft).getD ""
  match service.fetchByKey key w with
  | (.error error, w) =>
    ⟨w, .ofFailed 1, [.fetchByKey key (.error error), .event (.retryFetchFailed stale draft error)]⟩
  | (.ok none, w) =>
    ⟨w, .ofFailed 1, [.fetchByKey key (.ok none), .event (.retryNotFound stale draft)]⟩
  | (.ok (some fetched), w) =>
    Outcome.andThen ⟨w, .zero, [.fetchByKey key (.ok (some fetched))]⟩ fun w =>
      match actionsToSend options fetched draft w with
      | ([], o) => o
      | (actions, o) => o.andThen (callLastUpdate service fetched draft actions)

/-- The first update call; only a concurrent modification leads to a second try. -/
def callUpdate (existing : K.Entity) (draft : K.Draft) (actions : List K.Action) (w : σ) :
    Outcome K σ :=
  match service.update existing actions w with
  | (.ok entity, w) => ⟨w, .ofUpdated 1, [.update existing actions (.ok entity)]⟩
  | (.error error, w) =>
    Outcome.andThen ⟨w, .zero, [.update existing actions (.error error)]⟩
      (if error.isConcurrentModification then retryUpdate service options existing draft
       else failUpdate existing draft actions error)

/-- A record with a stored entity; without actions to send, no call is made. -/
def update (existing : K.Entity) (draft : K.Draft) (w : σ) : Outcome K σ :=
  match actionsToSend options existing draft w with
  | ([], o) => o
  | (actions, o) => o.andThen (callUpdate service options existing draft actions)

/-! ### Batches -/

/-- A record of a batch. -/
def record : Matched K → σ → Outcome K σ
  | .create draft => create service options draft
  | .update existing draft => update service options existing draft

/-- The records of a validated batch, one after the other: one call fetches what is stored under the
    keys; if it fails, every key counts as failed. -/
def records (v : Validated K) (w : σ) : Outcome K σ :=
  match service.fetchMatching v.keys w with
  | (.error error, w) =>
    ⟨w, .ofFailed v.keys.size,
      [.fetchMatching v.keys (.error error), .event (.fetchFailed v.keys error)]⟩
  | (.ok existing, w) =>
    Outcome.andThen ⟨w, .zero, [.fetchMatching v.keys (.ok existing)]⟩
      (Outcome.sequence (record service options) (matchDrafts K existing v.drafts))

/-- A batch: the rejections are reported first, and a batch without accepted drafts makes no call.
    -/
def batch (drafts : List (Option K.Draft)) (w : σ) : Outcome K σ :=
  let v := validate K drafts
  Outcome.andThen ⟨w, .ofProcessed drafts.length, v.rejected.map fun r => .event (.rejected r)⟩
    (if v.drafts.isEmpty then .idle else records service options v)

/-- Cuts a list into pieces of `n` elements, of one if `n` is zero; the last may be shorter. -/
def pieces {α : Type} (n : Nat) : List α → List (List α)
  | [] => []
  | x :: xs => (x :: xs.take (n - 1)) :: pieces n (xs.drop (n - 1))
termination_by xs => xs.length
decreasing_by
  simp only [List.length_drop, List.length_cons]
  omega

/-- Syncs a list of drafts; the records of a batch are taken one after the other. -/
def run (drafts : List (Option K.Draft)) (w : σ) : Outcome K σ :=
  Outcome.sequence (batch service options) (pieces options.config.batchSize drafts) w

end Sync

end CatalogSync
